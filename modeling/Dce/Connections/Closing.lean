import Dce.Connections.Graph

/- What the ends of sockets do to the links: `Close` and what calls it. -/

namespace Dce.Connections

open Function

open LocalStream (State)

variable {T P : Type*} [DecidableEq T] [DecidableEq P] {E E' : Nat → Nat → Prop} {n v : Node T P} {s a : Nat}
    {t u : T} {p : P}
  {x x' y : LocalStreamSocketFd T P} {path : Option Binder.Path}

section

omit [DecidableEq P]

@[simp] theorem WakeWaiters_frame : ((WakeWaiters s n).threads t).frame = (n.threads t).frame := by
  unfold WakeWaiters
  simp only
  split <;> rfl

@[simp] theorem WakeWaiters_process : ((WakeWaiters s n).threads t).process = (n.threads t).process := by
  unfold WakeWaiters
  simp only
  split <;> rfl

@[simp] theorem ret_frame {value : Int} : ((ret u value n).threads t).frame = (n.threads t).frame := by
  by_cases same : t = u
  · simp [ret, setThread, same]
  · simp [ret, setThread, same]

@[simp] theorem ret_process {value : Int} : ((ret u value n).threads t).process = (n.threads t).process := by
  by_cases same : t = u
  · simp [ret, setThread, same]
  · simp [ret, setThread, same]

@[simp] theorem fails_frame {err : Errno} : ((fails u err n).threads t).frame = (n.threads t).frame := by
  by_cases same : t = u
  · simp [fails, setThread, same]
  · simp [fails, setThread, same]

@[simp] theorem fails_process {err : Errno} : ((fails u err n).threads t).process = (n.threads t).process := by
  by_cases same : t = u
  · simp [fails, setThread, same]
  · simp [fails, setThread, same]

end

omit [DecidableEq T] [DecidableEq P] in
theorem access_some (f : LocalStreamSocketFd T P → LocalStreamSocketFd T P) (here : n.sockets s = some x) :
    access s f n = put s (f x) n := by
  rw [access, here]

/-- Two nodes with the same sockets, whose threads wait for the same. -/
structure Alike (n v : Node T P) : Prop where
  sockets : v.sockets = n.sockets
  frame : ∀ t, (v.threads t).frame = (n.threads t).frame
  process : ∀ t, (v.threads t).process = (n.threads t).process
  fresh : v.fresh = n.fresh
  undefined : v.undefined = n.undefined

section

omit [DecidableEq P]

theorem alike_wake : Alike n (WakeWaiters s n) :=
  ⟨rfl, fun _ => WakeWaiters_frame, fun _ => WakeWaiters_process, rfl, rfl⟩

theorem alike_ret {value : Int} : Alike n (ret t value n) :=
  ⟨rfl, fun _ => ret_frame, fun _ => ret_process, rfl, rfl⟩

theorem alike_fails {err : Errno} : Alike n (fails t err n) :=
  ⟨rfl, fun _ => fails_frame, fun _ => fails_process, rfl, rfl⟩

end

section

omit [DecidableEq T] [DecidableEq P]

theorem alike_setBinder {path : Binder.Path} {o : Option Nat} : Alike n (setBinder path o n) :=
  ⟨rfl, fun _ => rfl, fun _ => rfl, rfl, rfl⟩

theorem alike_unregister : Alike n (UnRegisterBinder path n) := by
  cases path with
  | none => exact ⟨rfl, fun _ => rfl, fun _ => rfl, rfl, rfl⟩
  | some path => exact alike_setBinder

theorem Inv.alike (inv : Inv E n) (alike : Alike n v) : Inv E v := by
  have frames : (fun t => (v.threads t).frame) = fun t => (n.threads t).frame := funext alike.frame
  have processes : (fun t => (v.threads t).process) = fun t => (n.threads t).process := funext alike.process
  refine ⟨alike.undefined.trans inv.defined, ?_, ?_, ?_, ?_⟩
  · rw [alike.sockets]
    exact inv.pairs
  · rw [alike.sockets, frames]
    exact inv.queued
  · rw [alike.sockets, frames, processes]
    exact inv.waits
  · rw [alike.sockets, alike.fresh]
    exact inv.sane

end

/-- What an assignment to a socket may not change. -/
structure Steady (x x' : LocalStreamSocketFd T P) : Prop where
  queue : ∀ c ∈ x'.m_cnxQueue, c ∈ x.m_cnxQueue
  waitQueue : x'.m_waitQueue = x.m_waitQueue
  process : x'.process = x.process

omit [DecidableEq T] [DecidableEq P] in
theorem Inv.put (inv : Inv E n) (here : n.sockets s = some x) (pairs : Paired (update n.sockets s (some x')))
    (steady : Steady x x') (sane : Sane s x' n.fresh)
    (connecting : x.m_state = .CONNECTING → x'.m_state = .CONNECTING ∨ ∀ l y, n.sockets l = some y →
      s ∈ y.m_cnxQueue → E s l) :
    Inv E (put s x' n) := by
  refine ⟨inv.defined, pairs, inv.queued.put (fun z same c mem => ?_) (fun z found state l y there mem => ?_),
    inv.waits.put here steady.waitQueue steady.process, fun a z there => ?_⟩
  · cases same
    exact ⟨x, here, steady.queue c mem⟩
  · cases here.symm.trans found
    rcases connecting state with still | excepted
    · exact .inr ⟨x', rfl, still⟩
    · exact .inl (excepted l y there mem)
  · rcases update_some there with ⟨rfl, same⟩ | ⟨-, there⟩
    · cases same
      exact sane
    · exact inv.sane a z there

/-- What the peer of a socket becomes when this is closed. -/
def abandoned (y : LocalStreamSocketFd T P) : LocalStreamSocketFd T P :=
  { y with m_peer := none, m_state := .REMOTECLOSED }

/-- The socket has been closed, and its peer knows it. -/
structure Closed (s : Nat) (n v : Node T P) : Prop where
  frame : ∀ t, (v.threads t).frame = (n.threads t).frame
  process : ∀ t, (v.threads t).process = (n.threads t).process
  fresh : v.fresh = n.fresh
  here : ∀ x, n.sockets s = some x → v.sockets s = some (cleared x) ∨ x.m_state = .CLOSED ∧ v.sockets s = some x
  others : ∀ a, a ≠ s → v.sockets a = n.sockets a ∨
    ∃ y, n.sockets a = some y ∧ y.m_state = .CONNECTED ∧ v.sockets a = some (abandoned y)

/-- `m_factory` is there for the states in which `Close` uses it. -/
def Known (n : Node T P) (s : Nat) : Prop :=
  ∀ x, n.sockets s = some x → x.m_state = .BINDED ∨ x.m_state = .LISTENING ∨ x.m_state = .ACCEPTING →
  x.m_factory = true

omit [DecidableEq P] in
theorem ClearAll_alike {w : Bool} (here : n.sockets s = some x) : Alike (put s (cleared x) n) (ClearAll s w n) := by
  unfold ClearAll
  rw [access_some cleared here]
  cases w with
  | true => exact alike_wake
  | false => exact ⟨rfl, fun _ => rfl, fun _ => rfl, rfl, rfl⟩

section

omit [DecidableEq T] [DecidableEq P]

theorem cleared_sane (sane : Sane s x n.fresh) : Sane s (cleared x) n.fresh :=
  ⟨sane.fresh, fun _ => rfl, fun _ => ⟨rfl, .inl rfl⟩⟩

theorem cleared_steady : Steady x (cleared x) := ⟨nofun, rfl, rfl⟩

theorem Closed.of_alike {w : Node T P} (alike : Alike n w) (closed : Closed s w v) : Closed s n v := by
  refine ⟨fun t => (closed.frame t).trans (alike.frame t), fun t => (closed.process t).trans (alike.process t),
    closed.fresh.trans alike.fresh, ?_, ?_⟩
  · rw [← alike.sockets]
    exact closed.here
  · rw [← alike.sockets]
    exact closed.others

end

section

omit [DecidableEq P]

theorem Inv.clear (inv : Inv E n) (here : n.sockets s = some x) (apart : x.m_state ≠ .CONNECTED)
    (covered : ∀ l y, n.sockets l = some y → s ∈ y.m_cnxQueue → E s l) (w : Bool) :
    Inv E (ClearAll s w n) ∧ Closed s n (ClearAll s w n) := by
  have alike := ClearAll_alike (w := w) here
  have pairs : Paired (update n.sockets s (some (cleared x))) := by
    refine inv.pairs.clear (fun z again => ?_) fun z same => ?_
    · cases here.symm.trans again
      exact apart
    · cases same
      exact ⟨rfl, nofun⟩
  refine ⟨(inv.put here pairs cleared_steady (cleared_sane (inv.sane s x here)) fun _ =>
    .inr covered).alike alike, ?_⟩
  refine ⟨alike.frame, alike.process, alike.fresh, fun z again => .inl ?_, fun a other => .inl ?_⟩
  · cases here.symm.trans again
    rw [alike.sockets]
    exact update_self ..
  · rw [alike.sockets]
    exact update_of_ne other ..

theorem Inv.part {q : Nat} (inv : Inv E n) (here : n.sockets s = some x) (connected : x.m_state = .CONNECTED)
    (peer : x.m_peer = some q) :
    Inv E (ClearAll s true (PeerClosed q n)) ∧ Closed s n (ClearAll s true (PeerClosed q n)) := by
  obtain ⟨y, there, state, back⟩ := inv.pairs.peer s x q here peer
  have told : Alike (Connections.put q (abandoned y) n) (PeerClosed q n) := by
    unfold PeerClosed
    rw [there]
    simp only [state]
    exact alike_wake
  have still : ∃ z, update n.sockets q (some (abandoned y)) s = some z ∧ cleared z = cleared x ∧
      z.m_waitQueue = x.m_waitQueue ∧ z.process = x.process ∧ z.m_state ≠ .CONNECTING := by
    by_cases same : s = q
    · subst same
      cases here.symm.trans there
      exact ⟨abandoned x, update_self .., rfl, rfl, rfl, nofun⟩
    · exact ⟨x, (update_of_ne same ..).trans here, rfl, rfl, rfl, by rw [connected]; nofun⟩
  obtain ⟨z, now, same, waitQueue, owner, apart⟩ := still
  have alike := ClearAll_alike (w := true) (told.sockets ▸ now : (PeerClosed q n).sockets s = some z)
  rw [same] at alike
  generalize ClearAll s true (PeerClosed q n) = w at alike
  have sockets : w.sockets = update (update n.sockets q (some (abandoned y))) s (some (cleared x)) := by
    rw [alike.sockets, Connections.put, told.sockets]
    rfl
  have frames : ∀ t, (w.threads t).frame = (n.threads t).frame := fun t => (alike.frame t).trans (told.frame t)
  have processes : ∀ t, (w.threads t).process = (n.threads t).process :=
    fun t => (alike.process t).trans (told.process t)
  have fresh : w.fresh = n.fresh := alike.fresh.trans told.fresh
  refine ⟨⟨alike.undefined.trans (told.undefined.trans inv.defined), ?_, ?_, ?_, ?_⟩, frames, processes,
    fresh, ?_, ?_⟩
  · rw [sockets]
    exact inv.pairs.part here peer rfl nofun rfl nofun
  · rw [sockets, funext frames]
    refine (inv.queued.put (fun x' new c mem => ?_) fun y' found connecting => ?_).put (fun x' new c mem => ?_)
      fun y' found connecting => ?_
    · cases new
      exact ⟨y, there, mem⟩
    · cases there.symm.trans found
      rw [state] at connecting
      cases connecting
    · cases new
      cases mem
    · cases now.symm.trans found
      exact absurd connecting apart
  · rw [sockets, funext frames, funext processes]
    have first : Waits (update n.sockets q (some (abandoned y))) (fun t => (n.threads t).frame)
        fun t => (n.threads t).process := inv.waits.put there rfl rfl
    exact first.put now waitQueue.symm owner.symm
  · intro a z' found
    rw [sockets] at found
    rw [fresh]
    rcases update_some found with ⟨rfl, new⟩ | ⟨-, found⟩
    · cases new
      exact cleared_sane (inv.sane a x here)
    · rcases update_some found with ⟨rfl, new⟩ | ⟨-, found⟩
      · cases new
        have sane := inv.sane a y there
        refine ⟨sane.fresh, nofun, fun closing => ?_⟩
        rcases (sane.closing closing).2 with wrong | wrong
        · cases state.symm.trans wrong
        · cases state.symm.trans wrong
      · exact inv.sane a z' found
  · intro x₁ again
    cases here.symm.trans again
    rw [sockets]
    exact .inl (update_self ..)
  · intro a other
    rw [sockets, update_of_ne other]
    by_cases at_q : a = q
    · subst at_q
      exact .inr ⟨y, there, state, update_self ..⟩
    · exact .inl (update_of_ne at_q ..)

theorem Inv.close (inv : Inv E n) (here : n.sockets s = some x) (known : Known n s)
    (covered : ∀ l y, n.sockets l = some y → s ∈ y.m_cnxQueue → E s l) :
    Inv E (Close s n) ∧ Closed s n (Close s n) := by
  have listener : x.m_state = .BINDED ∨ x.m_state = .LISTENING ∨ x.m_state = .ACCEPTING → ∀ w,
      Inv E (if x.m_factory then ClearAll s w (UnRegisterBinder x.m_bindPath n) else crash n) ∧
        Closed s n (if x.m_factory then ClearAll s w (UnRegisterBinder x.m_bindPath n) else crash n) := by
    intro state w
    rw [if_pos (known x here state)]
    have alike : Alike n (UnRegisterBinder x.m_bindPath n) := alike_unregister
    have same : (UnRegisterBinder x.m_bindPath n).sockets = n.sockets := alike.sockets
    have apart : x.m_state ≠ .CONNECTED := by
      rintro connected
      rw [connected] at state
      rcases state with wrong | wrong | wrong <;> cases wrong
    obtain ⟨after, closed⟩ := (inv.alike alike).clear (same ▸ here) apart (same ▸ covered) w
    exact ⟨after, closed.of_alike alike⟩
  unfold Close
  rw [here]
  simp only
  cases state : x.m_state with
  | CREATED | REMOTECLOSED | CONNECTING => exact inv.clear here (by rw [state]; nofun) covered _
  | BINDED => exact listener (.inl state) _
  | LISTENING => exact listener (.inr (.inl state)) _
  | ACCEPTING => exact listener (.inr (.inr state)) _
  | CONNECTED =>
    cases peer : x.m_peer with
    | none => exact absurd peer (inv.pairs.joined s x here state)
    | some q => exact inv.part here state peer
  | CLOSED =>
    refine ⟨inv, fun _ => rfl, fun _ => rfl, rfl, fun z again => .inr ?_, fun _ _ => .inl rfl⟩
    cases here.symm.trans again
    exact ⟨state, here⟩

end

section

omit [DecidableEq T] [DecidableEq P]

theorem Inv.free (inv : Inv E n) (alone : ∀ x, n.sockets s = some x →
      (x.m_state = .CLOSED ∨ x.m_state = .ACCEPTING) ∧
    x.m_waitQueue = []) : Inv E (free s n) := by
  have apart : ∀ x state, n.sockets s = some x → x.m_state = state → state = .CLOSED ∨ state = .ACCEPTING :=
    fun x _ here same => same ▸ (alone x here).1
  refine ⟨inv.defined, inv.pairs.clear (fun x here connected => ?_) nofun,
    inv.queued.put nofun fun x here connecting => ?_, inv.waits.idle (fun x here => (alone x here).2) nofun,
    fun a z there => ?_⟩
  · rcases apart x _ here connected with wrong | wrong <;> cases wrong
  · rcases apart x _ here connecting with wrong | wrong <;> cases wrong
  · rcases update_some there with ⟨-, same⟩ | ⟨-, there⟩
    · cases same
    · exact inv.sane a z there

theorem Inv.decUsage (inv : Inv E n) : Inv E (DecUsage s n) := by
  unfold DecUsage
  split
  next x here =>
    split
    next last =>
      refine inv.free fun z again => ?_
      cases here.symm.trans again
      exact ⟨((inv.sane s x here).closing last.1).2, last.2⟩
    · exact inv
  · exact inv

end

omit [DecidableEq T] [DecidableEq P] in
theorem Closed.after (closed : Closed s n v) (inv : Inv E n) (here : n.sockets s = some x) :
    ∃ x', v.sockets s = some x' ∧ x'.m_state = .CLOSED ∧ x'.m_cnxQueue = [] ∧ x'.m_waitQueue = x.m_waitQueue ∧
      x'.process = x.process := by
  rcases closed.here x here with now | ⟨state, now⟩
  · exact ⟨cleared x, now, rfl, rfl, rfl, rfl⟩
  · exact ⟨x, now, state, (inv.sane s x here).closed state, rfl, rfl⟩

omit [DecidableEq P] in
theorem Inv.dce_close (inv : Inv E n) (here : n.sockets s = some x) (known : Known n s)
    (covered : ∀ l y, n.sockets l = some y → s ∈ y.m_cnxQueue → E s l) : Inv E (dce_close t s n) := by
  obtain ⟨after, closed⟩ := inv.close here known covered
  obtain ⟨x', now, state, queue, -, -⟩ := closed.after inv here
  have after : Inv E (ret t 0 (Close s n)) := after.alike alike_ret
  have now : (ret t 0 (Close s n)).sockets s = some x' := now
  unfold Connections.dce_close
  simp only [now]
  split
  next nobody =>
    refine after.free fun z again => ?_
    cases now.symm.trans again
    exact ⟨.inl state, nobody⟩
  · have sane := after.sane s x' now
    refine after.put now (after.pairs.keep now rfl .rfl) ⟨fun _ => id, rfl, rfl⟩ ⟨sane.fresh, sane.closed,
      fun _ => ?_⟩ ?_
    · exact ⟨queue, .inl state⟩
    · exact .inl

end Dce.Connections
