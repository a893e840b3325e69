import Dce.Connections.Closing

/- What the calls on the sockets do to the links. -/

namespace Dce.Connections

open Function

open LocalStream (State)

variable {T P : Type*} [DecidableEq T] [DecidableEq P] {E : Nat → Nat → Prop} {n v w : Node T P}
    {s a c l : Nat} {t : T}
  {f : Frame} {x x' y : LocalStreamSocketFd T P} {path : Binder.Path}

/-- The socket is in the queue of the listener. -/
def Entry (n : Node T P) (c l : Nat) : Prop := ∃ y, n.sockets l = some y ∧ c ∈ y.m_cnxQueue

/-- No entry of a queue is excepted. -/
abbrev Nowhere : Nat → Nat → Prop := fun _ _ => False

section

omit [DecidableEq T] [DecidableEq P]

structure Lasting (x : LocalStreamSocketFd T P) : Prop where
  state : x.m_state ≠ .CLOSED
  closing : x.m_closing = false

/-- The socket is not closed on the way from a node to another. -/
def Lasts (n v : Node T P) (l : Nat) : Prop :=
  ∀ y, n.sockets l = some y → Lasting y → ∃ y', v.sockets l = some y' ∧ Lasting y'

theorem Lasts.trans (first : Lasts n v l) (second : Lasts v w l) : Lasts n w l := by
  intro y here lasting
  obtain ⟨y', there, lasting⟩ := first y here lasting
  exact second y' there lasting

theorem Alike.lasts (alike : Alike n v) : Lasts n v l := fun y here lasting => ⟨y, alike.sockets ▸ here, lasting⟩

theorem Lasts.put (here : n.sockets s = some x) (lasting : Lasting x → Lasting x') : Lasts n (put s x' n) l := by
  intro y there still
  by_cases same : l = s
  · subst same
    cases here.symm.trans there
    exact ⟨x', update_self .., lasting still⟩
  · exact ⟨y, (update_of_ne same ..).trans there, still⟩

/-- The links are right, but for the entries of `E`, and no socket has been closed. -/
structure Keeps (E : Nat → Nat → Prop) (n v : Node T P) : Prop where
  inv : Inv E v
  lasts : ∀ l, Lasts n v l

theorem Keeps.trans {E' : Nat → Nat → Prop} (first : Keeps E n v) (second : Keeps E' v w) : Keeps E' n w :=
  ⟨second.inv, fun l => (first.lasts l).trans (second.lasts l)⟩

theorem Keeps.alike (keeps : Keeps E n v) (alike : Alike v w) : Keeps E n w :=
  ⟨keeps.inv.alike alike, fun l => (keeps.lasts l).trans alike.lasts⟩

theorem Inv.keeps (inv : Inv E n) (alike : Alike n v) : Keeps E n v := ⟨inv.alike alike, fun _ => alike.lasts⟩

theorem Inv.weaken {E' : Nat → Nat → Prop} (inv : Inv E n)
    (weaker : ∀ l x, n.sockets l = some x → ∀ c ∈ x.m_cnxQueue, E c l → E' c l ∨
      (∃ y, n.sockets c = some y ∧ y.m_state = .CONNECTING) ∧ ∃ t, (n.threads t).frame = some (.connect c l)) :
      Inv E' n :=
  ⟨inv.defined, inv.pairs, inv.queued.weaken weaker, inv.waits, inv.sane⟩

theorem Sane.lasting {fresh : Nat} (sane : Sane s x fresh) (lasting : Lasting x') : Sane s x' fresh :=
  ⟨sane.fresh, fun closed => absurd closed lasting.state, fun closing =>
    nomatch (lasting.closing.symm.trans closing)⟩

theorem Inv.set (inv : Inv E n) (here : n.sockets s = some x) (steady : Steady x x') (peer : x'.m_peer = x.m_peer)
    (connected : x'.m_state = .CONNECTED ↔ x.m_state = .CONNECTED) (sane : Sane s x' n.fresh)
    (connecting : x.m_state = .CONNECTING → x'.m_state = .CONNECTING ∨ ∀ l y, n.sockets l = some y →
      s ∈ y.m_cnxQueue → E s l)
    (lasting : Lasting x → Lasting x') : Keeps E n (Connections.put s x' n) :=
  ⟨inv.put here (inv.pairs.keep here peer connected) steady sane connecting, fun _ => .put here lasting⟩

/-- Two states of a socket with the same links. -/
structure Unmoved (x x' : LocalStreamSocketFd T P) : Prop where
  state : x'.m_state = x.m_state
  peer : x'.m_peer = x.m_peer
  queue : x'.m_cnxQueue = x.m_cnxQueue
  waitQueue : x'.m_waitQueue = x.m_waitQueue
  closing : x'.m_closing = x.m_closing
  process : x'.process = x.process

theorem Inv.assign (inv : Inv E n) (here : n.sockets s = some x) (same : Unmoved x x') :
    Keeps E n (Connections.put s x' n) := by
  have sane := inv.sane s x here
  refine inv.set here ⟨fun c mem => same.queue ▸ mem, same.waitQueue, same.process⟩ same.peer (by rw [same.state])
    ⟨sane.fresh, ?_, ?_⟩ (fun connecting => .inl (same.state.trans connecting))
    fun lasting => ⟨?_, same.closing.trans lasting.closing⟩
  · rw [same.state, same.queue]
    exact sane.closed
  · rw [same.state, same.queue, same.closing]
    exact sane.closing
  · rw [same.state]
    exact lasting.state

end

section

omit [DecidableEq T]

theorem found_some : found n t s = some x ↔ n.sockets s = some x ∧ x.process = (n.threads t).process ∧ Free n t := by
  simp [found]

theorem opened_some : opened n t s = some x ↔
    (n.sockets s = some x ∧ x.process = (n.threads t).process ∧ Free n t) ∧ x.m_closing = false := by
  simp [opened, found_some]

end

section

omit [DecidableEq T] [DecidableEq P]

theorem Inv.absent (inv : Inv E n) : n.sockets n.fresh = none := by
  cases here : n.sockets n.fresh with
  | none => rfl
  | some x => exact absurd (inv.sane _ x here).fresh (lt_irrefl _)

theorem Sane.next {fresh : Nat} (sane : Sane s x fresh) : Sane s x (fresh + 1) :=
  ⟨sane.fresh.trans (Nat.lt_succ_self _), sane.closed, sane.closing⟩

end

omit [DecidableEq P] in
theorem Inv.dce_socket (inv : Inv E n) : Keeps E n (dce_socket t n) := by
  have absent := inv.absent
  have nothing : ∀ x, n.sockets n.fresh = some x → False := fun x here => nomatch absent.symm.trans here
  refine Keeps.alike (v := { Connections.put n.fresh _ n with fresh := n.fresh + 1 })
    ⟨⟨inv.defined, ?_, ?_, ?_, fun a z there => ?_⟩, fun l y here lasting => ?_⟩ alike_ret
  · exact inv.pairs.clear (fun x here => (nothing x here).elim) fun x' same => by cases same; exact ⟨rfl, nofun⟩
  · refine inv.queued.put (fun x' same c mem => ?_) fun x here => (nothing x here).elim
    cases same
    cases mem
  · exact inv.waits.idle (fun x here => (nothing x here).elim) fun x' same => by cases same; rfl
  · rcases update_some there with ⟨rfl, same⟩ | ⟨-, there⟩
    · cases same
      exact ⟨Nat.lt_succ_self _, nofun, nofun⟩
    · exact (inv.sane a z there).next
  · have other : l ≠ n.fresh := by
      rintro rfl
      exact nothing y here
    exact ⟨y, (update_of_ne other ..).trans here, lasting⟩

section

omit [DecidableEq P]

variable (inv : Inv E n) (here : n.sockets s = some x)
include inv here

theorem Inv.bind (open_ : x.m_closing = false) (ok : Bool) : Keeps E n (Bind t s path ok x n) := by
  unfold Bind
  split
  · exact inv.keeps alike_ret
  next fine =>
    obtain ⟨created, -⟩ := not_or.mp fine
    have created : x.m_state = .CREATED := not_not.mp created
    have lasting : Lasting { x with m_state := .BINDED, m_bindPath := some path } := ⟨nofun, open_⟩
    have keeps : Keeps E n (Connections.put s { x with m_state := .BINDED, m_bindPath := some path } n) := by
      refine inv.set here ⟨fun _ => id, rfl, rfl⟩ rfl ?_ ((inv.sane s x here).lasting lasting) ?_ fun _ => lasting
      · rw [created]
        exact ⟨nofun, nofun⟩
      · rw [created]
        exact nofun
    exact (keeps.alike alike_setBinder).alike alike_ret

theorem Inv.listen (open_ : x.m_closing = false) : Keeps E n (Listen t s x n) := by
  unfold Listen
  split
  · exact inv.keeps alike_fails
  next fine =>
    have binded : x.m_state = .BINDED := not_not.mp fine
    have lasting : Lasting { x with m_state := .LISTENING } := ⟨nofun, open_⟩
    have keeps : Keeps E n (Connections.put s { x with m_state := .LISTENING } n) := by
      refine inv.set here ⟨fun _ => id, rfl, rfl⟩ rfl ?_ ((inv.sane s x here).lasting lasting) ?_ fun _ => lasting
      · rw [binded]
        exact ⟨nofun, nofun⟩
      · rw [binded]
        exact nofun
    refine Keeps.alike ?_ alike_ret
    split
    · exact keeps.alike alike_setBinder
    · exact keeps

theorem Inv.shutdown (how : LocalStream.How) : Keeps E n (Shutdown t s how x n) := by
  unfold Shutdown
  split
  · exact inv.keeps alike_fails
  · refine Keeps.alike ?_ alike_ret
    cases how <;> exact inv.assign here ⟨rfl, rfl, rfl, rfl, rfl, rfl⟩

theorem Inv.setfl (nonblock : Bool) : Keeps E n (setfl t s nonblock x n) := by
  refine Keeps.alike ?_ alike_ret
  exact inv.assign here ⟨rfl, rfl, rfl, rfl, rfl, rfl⟩

end

section

omit [DecidableEq P]

theorem setThread_frames {thread : Thread P} : (fun u => ((setThread t thread n).threads u).frame) =
    update (fun u => (n.threads u).frame) t thread.frame := by
  funext u
  by_cases same : u = t
  · simp [setThread, same]
  · simp [setThread, same]

theorem setThread_processes {thread : Thread P} (same : thread.process = (n.threads t).process) :
    (fun u => ((setThread t thread n).threads u).process) = fun u => (n.threads u).process := by
  funext u
  by_cases at_t : u = t
  · simp [setThread, at_t, same]
  · simp [setThread, at_t]

theorem Keeps.setThread {thread : Thread P} (inv : Inv E n) (here : n.sockets s = some x)
    (same : x'.m_state = x.m_state ∧ x'.m_peer = x.m_peer ∧ x'.m_cnxQueue = x.m_cnxQueue ∧
      x'.m_closing = x.m_closing)
    (own : thread.process = (n.threads t).process) {E' : Nat → Nat → Prop}
    (queued : Queued E n.sockets (fun u => (n.threads u).frame) →
      Queued E' n.sockets (update (fun u => (n.threads u).frame) t thread.frame))
    (waits : Waits (update n.sockets s (some x')) (update (fun u => (n.threads u).frame) t thread.frame)
      fun u => (n.threads u).process) : Keeps E' n (Connections.setThread t thread (Connections.put s x' n)) := by
  obtain ⟨state, peer, queue, closing⟩ := same
  refine ⟨⟨inv.defined, inv.pairs.keep here peer (by rw [state]), ?_, ?_, fun a z there => ?_⟩,
    fun l => Lasts.put here fun lasting => ⟨?_, closing.trans lasting.closing⟩⟩
  · rw [setThread_frames]
    refine (queued inv.queued).put (fun z new c mem => ?_) fun z found connecting l y there mem => .inr ⟨x', rfl, ?_⟩
    · cases new
      exact ⟨x, here, queue ▸ mem⟩
    · cases here.symm.trans found
      exact state.trans connecting
  · rw [setThread_frames, setThread_processes (n := Connections.put s x' n) own]
    exact waits
  · rcases update_some there with ⟨rfl, new⟩ | ⟨-, there⟩
    · cases new
      have sane := inv.sane a x here
      refine ⟨sane.fresh, ?_, ?_⟩
      · rw [state, queue]
        exact sane.closed
      · rw [state, queue, closing]
        exact sane.closing
    · exact inv.sane a z there
  · rw [state]
    exact lasting.state

theorem Inv.sleep (inv : Inv E n) (here : n.sockets f.socket = some x) (free : (n.threads t).frame = none)
    (own : x.process = (n.threads t).process) : Keeps E n (sleep t f n) := by
  unfold Connections.sleep
  rw [access_some _ here]
  refine Keeps.setThread inv here ?_ ?_ ?_ ?_
  · exact ⟨rfl, rfl, rfl, rfl⟩
  · rfl
  · exact fun queued => queued.sleep free
  · exact inv.waits.sleep here free own rfl rfl

theorem Inv.awake (inv : Inv Nowhere n) (here : n.sockets f.socket = some x)
    (inside : (n.threads t).frame = some f) :
    Keeps (fun c l => f = .connect c l) n (awake t f.socket n) := by
  unfold Connections.awake
  rw [access_some _ here]
  refine Keeps.setThread inv here ?_ ?_ (fun queued => ?_) ?_
  · exact ⟨rfl, rfl, rfl, rfl⟩
  · rfl
  · refine queued.awake.weaken ?_
    rintro l x there c mem (none | same)
    · exact none.elim
    · exact .inl (Option.some.inj (inside.symm.trans same))
  · exact inv.waits.awake here inside rfl rfl

end

end Dce.Connections
