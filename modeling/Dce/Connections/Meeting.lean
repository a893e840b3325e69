import Dce.Connections.Calls

/- What `Connect` and `Accept` do to the links, before and after their waits. -/

namespace Dce.Connections

open Function

open LocalStream (State)

variable {T P : Type*} [DecidableEq T] [DecidableEq P] {E : Nat → Nat → Prop} {n v w : Node T P}
    {s a c l : Nat} {t : T}
  {x x' y : LocalStreamSocketFd T P} {path : Binder.Path}

/-- The socket is in no queue. -/
def Unqueued (n : Node T P) (c : Nat) : Prop := ∀ l, ¬ Entry n c l

section

omit [DecidableEq P]

theorem Inv.connectionCreated (inv : Inv Nowhere n) (here : n.sockets l = some y) (lasting : Lasting y) :
    Keeps (fun a b => a = c ∧ b = l) n (ConnectionCreated l c n) := by
  unfold ConnectionCreated
  rw [access_some _ here]
  have lasting' : Lasting { y with m_cnxQueue := y.m_cnxQueue ++ [c] } := ⟨lasting.state, lasting.closing⟩
  have keeps : Keeps (fun a b => a = c ∧ b = l) n
      (Connections.put l { y with m_cnxQueue := y.m_cnxQueue ++ [c] } n) := by
    refine ⟨⟨inv.defined, inv.pairs.keep here rfl .rfl, inv.queued.enqueue here rfl rfl, inv.waits.put here rfl rfl,
      fun a z there => ?_⟩, fun _ => .put here fun _ => lasting'⟩
    rcases update_some there with ⟨rfl, same⟩ | ⟨-, there⟩
    · cases same
      exact (inv.sane a y here).lasting lasting'
    · exact inv.sane a z there
  exact keeps.alike alike_wake

omit [DecidableEq T] in
theorem ConnectionCreated_some [DecidableEq T] (here : n.sockets c = some x) (there : n.sockets l = some y) :
    ∃ z, (ConnectionCreated l a n).sockets c = some z ∧ z.m_state = x.m_state ∧ z.process = x.process := by
  unfold ConnectionCreated
  rw [access_some _ there]
  by_cases same : c = l
  · subst same
    cases here.symm.trans there
    exact ⟨_, update_self .., rfl, rfl⟩
  · exact ⟨x, (update_of_ne same ..).trans here, rfl, rfl⟩

theorem Inv.enqueue (inv : Inv Nowhere n) (here : n.sockets c = some x) (state : x.m_state = .CONNECTING)
    (own : x.process = (n.threads t).process) (free : (n.threads t).frame = none) (there : n.sockets l = some y)
    (lasting : Lasting y) : Keeps Nowhere n (Connections.sleep t (.connect c l) (ConnectionCreated l c n)) := by
  have first := inv.connectionCreated (c := c) there lasting
  obtain ⟨z, now, still, owner⟩ := ConnectionCreated_some (a := c) here there
  have threads : (access l (fun y => { y with m_cnxQueue := y.m_cnxQueue ++ [c] }) n).threads = n.threads := by
    rw [access_some _ there]
    rfl
  have frame : ((ConnectionCreated l c n).threads t).frame = none := by
    rw [ConnectionCreated, WakeWaiters_frame, threads]
    exact free
  have process : ((ConnectionCreated l c n).threads t).process = (n.threads t).process := by
    rw [ConnectionCreated, WakeWaiters_process, threads]
  generalize ConnectionCreated l c n = v at first now frame process
  have all := first.trans (first.inv.sleep (f := .connect c l) now frame ((owner.trans own).trans process.symm))
  have sleeps : Connections.sleep t (.connect c l) v =
      setThread t { v.threads t with frame := some (.connect c l), woken := false }
        (Connections.put c { z with m_waitQueue := z.m_waitQueue ++ [t] } v) := by
    exact congrArg _ (access_some _ now)
  refine ⟨all.inv.weaken ?_, all.lasts⟩
  rintro b u _ a _ ⟨rfl, rfl⟩
  refine .inr ⟨⟨{ z with m_waitQueue := z.m_waitQueue ++ [t] }, ?_, still.trans state⟩, t, ?_⟩
  · rw [sleeps]
    exact update_self ..
  · rw [sleeps]
    simp [setThread]

/-- What a connect needs: the socket that is bound to the path is there, and if it takes the connector it is not
being closed, and the connector has no peer yet. -/
def Connectable (n : Node T P) (x : LocalStreamSocketFd T P) (path : Binder.Path) : Prop :=
  ∀ l, x.m_factory = true → n.m_bindByPath path = some l →
    ∃ y, n.sockets l = some y ∧ (Proceeds x y → y.m_closing = false ∧ x.m_state ≠ .CONNECTED)

theorem Inv.connect (inv : Inv Nowhere n) (here : n.sockets c = some x) (own : x.process = (n.threads t).process)
    (free : (n.threads t).frame = none) (open_ : x.m_closing = false) (connectable : Connectable n x path) :
    Keeps Nowhere n (Connect t c path x n) := by
  unfold Connect
  split
  · exact inv.keeps alike_fails
  next factory =>
    split
    · exact inv.keeps alike_fails
    next l bound =>
      obtain ⟨y, there, fine⟩ := connectable l (by simpa using factory) bound
      rw [there]
      simp only
      split
      next proceeds =>
        obtain ⟨takes, apart⟩ := fine proceeds
        have lasting : Lasting { x with m_state := .CONNECTING } := ⟨(by rintro ⟨⟩), open_⟩
        have first : Keeps Nowhere n (Connections.put c { x with m_state := .CONNECTING } n) :=
          inv.set here ⟨fun _ => id, rfl, rfl⟩ rfl ⟨(by rintro ⟨⟩), fun wrong => absurd wrong apart⟩
            ((inv.sane c x here).lasting lasting) (fun _ => .inl rfl) fun _ => lasting
        obtain ⟨y', there', lasting'⟩ : ∃ y', (Connections.put c { x with m_state := .CONNECTING } n).sockets l =
          some y' ∧
            Lasting y' := by
          refine first.lasts l y there ⟨?_, takes⟩
          rcases proceeds with state | ⟨state, -⟩ <;> simp [state]
        exact first.trans (first.inv.enqueue (update_self ..) rfl own free there' lasting')
      · split
        · exact inv.keeps alike_fails
        · exact inv.keeps alike_ret

end

section

omit [DecidableEq T] [DecidableEq P]

theorem Inv.removeFromQueue (inv : Inv (fun a b => a = c ∧ b = l) n) (here : n.sockets l = some y) :
    Keeps Nowhere n (RemoveFromQueue l c n) := by
  unfold RemoveFromQueue
  rw [access_some _ here]
  have sane := inv.sane l y here
  have keeps : Keeps (fun a b => a = c ∧ b = l) n
      (Connections.put l { y with m_cnxQueue := y.m_cnxQueue.filter (· ≠ c) } n) := by
    refine inv.set here ⟨fun a mem => (List.mem_filter.mp mem).1, rfl, rfl⟩ rfl .rfl
      ⟨sane.fresh, fun closed => ?_, fun closing => ⟨?_, (sane.closing closing).2⟩⟩ .inl
      fun lasting => ⟨lasting.state, lasting.closing⟩
    · simp [sane.closed closed]
    · simp [(sane.closing closing).1]
  refine ⟨keeps.inv.weaken ?_, keeps.lasts⟩
  rintro b z there a mem ⟨rfl, rfl⟩
  cases (update_self ..).symm.trans there
  simp at mem

end

omit [DecidableEq P] in
theorem Inv.connectOn (inv : Inv (fun a b => a = c ∧ b = l) n) (settled : x.m_state ≠ .CONNECTING → ¬ Entry n c l)
    (live : x.m_state = .CONNECTED ∨ x.m_state = .REMOTECLOSED ∨ ∃ y, n.sockets l = some y) :
    Keeps Nowhere n (connectOn t c l x n) := by
  unfold Connections.connectOn
  split
  next good =>
    have out : ¬ Entry n c l := settled (by rcases good with state | state <;> rw [state] <;> nofun)
    have after : Inv Nowhere n := by
      refine inv.weaken ?_
      rintro b z there a mem ⟨rfl, rfl⟩
      exact absurd ⟨z, there, mem⟩ out
    exact after.keeps alike_ret
  next bad =>
    obtain ⟨y, there⟩ : ∃ y, n.sockets l = some y := by
      rcases live with state | state | live
      · exact absurd (.inl state) bad
      · exact absurd (.inr state) bad
      · exact live
    exact (inv.removeFromQueue there).alike alike_fails

section

omit [DecidableEq P]

theorem Inv.join {bindPath : Option Binder.Path} (inv : Inv E n) (here : n.sockets c = some y)
    (state : y.m_state = .CONNECTING)
    (out : Unqueued n c) : Keeps E n (join t bindPath c y n) := by
  have absent := inv.absent
  have ne : c ≠ n.fresh := by
    rintro rfl
    cases absent.symm.trans here
  let new : LocalStreamSocketFd T P :=
    ⟨.CONNECTED, some c, false, bindPath, [], false, false, false, [], false, (n.threads t).process⟩
  let joined : LocalStreamSocketFd T P := { y with m_state := .CONNECTED, m_peer := some n.fresh }
  let after : Node T P :=
    { n with sockets := update (update n.sockets n.fresh (some new)) c (some joined), fresh := n.fresh + 1 }
  have still : update n.sockets n.fresh (some new) c = some y := (update_of_ne ne ..).trans here
  have keeps : Keeps E n after := by
    refine ⟨⟨inv.defined, inv.pairs.join absent here (by rw [state]; nofun) rfl rfl rfl rfl, ?_, ?_,
      fun a z there => ?_⟩,
      fun b z there lasting => ?_⟩
    · refine (inv.queued.put (fun x' same a mem => ?_) fun x found => ?_).put (fun x' same a mem => ?_)
        fun x found connecting l z there mem => ?_
      · cases same
        cases mem
      · cases absent.symm.trans found
      · cases same
        exact ⟨y, still, mem⟩
      · rcases update_some there with ⟨-, same⟩ | ⟨-, there⟩
        · cases same
          cases mem
        · exact absurd ⟨z, there, mem⟩ (out l)
    · have first : Waits (update n.sockets n.fresh (some new)) (fun t => (n.threads t).frame) fun t =>
          (n.threads t).process := by
        refine inv.waits.idle (fun x found => ?_) fun x' same => ?_
        · cases absent.symm.trans found
        · cases same
          rfl
      exact first.put still rfl rfl
    · rcases update_some there with ⟨rfl, same⟩ | ⟨-, there⟩
      · cases same
        have sane := inv.sane a y here
        refine ⟨sane.next.fresh, nofun, fun closing => ?_⟩
        rcases (sane.closing closing).2 with wrong | wrong <;> cases state.symm.trans wrong
      · rcases update_some there with ⟨rfl, same⟩ | ⟨-, there⟩
        · cases same
          exact ⟨Nat.lt_succ_self _, nofun, nofun⟩
        · exact (inv.sane a z there).next
    · by_cases same : b = c
      · subst same
        cases here.symm.trans there
        exact ⟨joined, update_self .., nofun, lasting.closing⟩
      · have other : b ≠ n.fresh := by
          rintro rfl
          cases absent.symm.trans there
        exact ⟨z, (update_of_ne same ..).trans ((update_of_ne other ..).trans there), lasting⟩
  have told : Alike (Connections.put c { y with m_state := .CONNECTED } n) (InternalConnect c y n) := alike_wake
  unfold Connections.join
  generalize InternalConnect c y n = v at told
  have connected : v.sockets c = some { y with m_state := .CONNECTED } := told.sockets ▸ update_self ..
  have owner : (v.threads t).process = (n.threads t).process := told.process t
  simp only [owner]
  rw [access_some _ ((update_of_ne ne ..).trans connected : update v.sockets n.fresh (some new) c = _)]
  refine Keeps.alike (keeps.alike ?_) alike_ret
  refine ⟨?_, told.frame, told.process, rfl, told.undefined⟩
  show update (update v.sockets n.fresh (some new)) c (some joined) =
    update (update n.sockets n.fresh (some new)) c (some joined)
  rw [told.sockets, Connections.put, update_comm ne, update_idem]

theorem Inv.acceptFirst {rest : List Nat} (inv : Inv Nowhere n) (t : T) (bindPath : Option Binder.Path) (noFd : Bool)
    (here : n.sockets l = some x) (queue : x.m_cnxQueue = c :: rest) (once : c ∉ rest)
    (only : ∀ l', Entry n c l' → l' = l) :
    Inv Nowhere (acceptFirst t l noFd bindPath (c :: rest) n) ∧
      ∀ a, (noFd = true → a ≠ c) → Lasts n (acceptFirst t l noFd bindPath (c :: rest) n) a := by
  unfold Connections.acceptFirst
  rw [access_some _ here]
  have entry : c ∈ x.m_cnxQueue := queue ▸ List.mem_cons_self
  obtain ⟨⟨y, found, state⟩, -⟩ := (inv.queued l x here c entry).resolve_left id
  have sane := inv.sane l x here
  have first : Keeps Nowhere n (Connections.put l { x with m_cnxQueue := rest } n) := by
    refine inv.set here ⟨fun a mem => queue ▸ List.mem_cons_of_mem c mem, rfl, rfl⟩ rfl .rfl
      ⟨sane.fresh, fun closed => ?_, fun closing => ?_⟩ .inl fun lasting => ⟨lasting.state, lasting.closing⟩
    · cases queue.symm.trans (sane.closed closed)
    · cases queue.symm.trans (sane.closing closing).1
  obtain ⟨z, now, connecting⟩ : ∃ z, (Connections.put l { x with m_cnxQueue := rest } n).sockets c = some z ∧
      z.m_state = .CONNECTING := by
    by_cases same : c = l
    · subst same
      cases here.symm.trans found
      exact ⟨_, update_self .., state⟩
    · exact ⟨y, (update_of_ne same ..).trans found, state⟩
  have out : Unqueued (Connections.put l { x with m_cnxQueue := rest } n) c := by
    rintro l' ⟨w, there, mem⟩
    rcases update_some there with ⟨rfl, same⟩ | ⟨other, there⟩
    · cases same
      exact once mem
    · exact other (only l' ⟨w, there, mem⟩)
  generalize Connections.put l { x with m_cnxQueue := rest } n = v at first now out
  cases noFd with
  | true =>
    have known : Known v c := by
      intro w again listener
      cases now.symm.trans again
      rw [connecting] at listener
      rcases listener with wrong | wrong | wrong <;> cases wrong
    obtain ⟨after, closed⟩ := first.inv.close now known fun l' w there mem => absurd ⟨w, there, mem⟩ (out l')
    refine ⟨after.alike alike_fails, fun a other => (first.lasts a).trans ?_⟩
    have lasts : Lasts v (Close c v) a := by
      intro w there lasting
      rcases closed.others a (other rfl) with same | ⟨w', before, -, same⟩
      · exact ⟨w, same.trans there, lasting⟩
      · cases there.symm.trans before
        exact ⟨abandoned w, same, nofun, lasting.closing⟩
    exact lasts.trans alike_fails.lasts
  | false =>
    rw [if_neg nofun, now]
    simp only [connecting]
    have joined : Keeps Nowhere n (Connections.join t bindPath c z v) :=
      first.trans (first.inv.join now connecting out)
    exact ⟨joined.inv, fun a _ => joined.lasts a⟩

/-- What an accept needs to take its socket to a new state, and of the queue: its first entry is the only one of the
connector, which has no connectors itself where it is closed for want of a descriptor. -/
structure Acceptable (n : Node T P) (l : Nat) (noFd : Bool) (x : LocalStreamSocketFd T P) : Prop where
  apart : x.m_state ≠ .CONNECTED
  out : Unqueued n l
  once : ∀ c rest, x.m_cnxQueue = c :: rest → c ∉ rest ∧ ∀ l', Entry n c l' → l' = l
  nobody : noFd = true → ∀ c y, x.m_cnxQueue.head? = some c → n.sockets c = some y → y.m_cnxQueue = []

theorem Inv.acceptLoop {noFd : Bool} (inv : Inv Nowhere n) (here : n.sockets l = some x)
    (own : x.process = (n.threads t).process)
    (free : (n.threads t).frame = none) (fine : x.m_cnxQueue = [] ∧ x.nonblock = true ∨ Acceptable n l noFd x) :
    Inv Nowhere (acceptLoop t l noFd x n) ∧
      ∀ a, (noFd = true → x.m_cnxQueue.head? ≠ some a) → Lasts n (acceptLoop t l noFd x n) a := by
  have sane := inv.sane l x here
  unfold Connections.acceptLoop
  split
  next queue =>
    split
    · have keeps : Keeps Nowhere n (fails t .EAGAIN n) := inv.keeps alike_fails
      exact ⟨keeps.inv, fun a _ => keeps.lasts a⟩
    next blocking =>
      have fine : Acceptable n l noFd x := fine.resolve_left fun wrong => blocking wrong.2
      have first : Keeps Nowhere n (Connections.put l { x with m_state := .ACCEPTING } n) :=
        inv.set here ⟨fun _ => id, rfl, rfl⟩ rfl ⟨nofun, fun wrong => absurd wrong fine.apart⟩
          ⟨sane.fresh, nofun, fun _ => ⟨queue, .inr rfl⟩⟩
          (fun _ => .inr fun l' y there mem => absurd ⟨y, there, mem⟩ (fine.out l')) fun lasting =>
            ⟨nofun, lasting.closing⟩
      have all := first.trans (first.inv.sleep (f := .accept l) (update_self ..) free own)
      exact ⟨all.inv, fun a _ => all.lasts a⟩
  next full =>
    obtain ⟨c, rest, queue⟩ : ∃ c rest, x.m_cnxQueue = c :: rest := List.exists_cons_of_ne_nil full
    have fine : Acceptable n l noFd x := fine.resolve_left fun wrong => full wrong.1
    have first : Keeps Nowhere n (Connections.put l { x with m_state := .LISTENING } n) := by
      refine inv.set here ⟨fun _ => id, rfl, rfl⟩ rfl ⟨nofun, fun wrong => absurd wrong fine.apart⟩
        ⟨sane.fresh, nofun, fun closing => ?_⟩
        (fun _ => .inr fun l' y there mem => absurd ⟨y, there, mem⟩ (fine.out l')) fun lasting =>
          ⟨nofun, lasting.closing⟩
      cases queue.symm.trans (sane.closing closing).1
    obtain ⟨once, only⟩ := fine.once c rest queue
    have only' : ∀ l', Entry (Connections.put l { x with m_state := .LISTENING } n) c l' → l' = l := by
      rintro l' ⟨y, there, mem⟩
      rcases update_some there with ⟨same, -⟩ | ⟨-, there⟩
      · exact same
      · exact only l' ⟨y, there, mem⟩
    obtain ⟨after, lasts⟩ := first.inv.acceptFirst t x.m_bindPath noFd (update_self ..) queue once only'
    rw [← queue] at after lasts
    refine ⟨after, fun a other => (first.lasts a).trans (lasts a fun none same => other none ?_)⟩
    rw [queue, same]
    rfl

end

end Dce.Connections
