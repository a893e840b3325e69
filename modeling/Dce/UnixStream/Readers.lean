import Dce.Lib.Machine
import Mathlib.Logic.Function.Basic

/- The threads that receive on one socket, `WaitRecvDoSignal` and what the calls of a datagram socket and of a
connected stream socket do after it. -/

namespace Dce.UnixStream.Readers

open Function

inductive Kind
  | datagram | stream
  deriving DecidableEq

/-- The call of a thread that waits: whether it peeks, and whether its entry was woken. -/
structure Wait where
  peek : Bool
  woken : Bool
  deriving DecidableEq

/-- `rx` holds what came to the ns-3 socket. `ended` says that `m_state` of a stream socket is not `CONNECTED` any
more. -/
structure World (T : Type*) where
  kind : Kind
  rx : List (List UInt8)
  m_peekedData : List UInt8
  ended : Bool
  m_waitQueueList : T → Option Wait

inductive Result
  | data (bytes : List UInt8) | eof | EAGAIN | EINTR | waits
  deriving DecidableEq

variable {T : Type*} [DecidableEq T]

/-- Some bytes have come. -/
def canRecv (w : World T) : Bool := w.rx.flatten ≠ [] || w.kind = .stream && w.ended

/-- A packet exactly when one is queued: the first datagram, or the next `n` bytes of a stream. -/
def RecvFrom (n : Nat) (w : World T) : Option (List UInt8 × World T) :=
  match w.kind with
  | .datagram =>
    match w.rx with
    | [] => none
    | packet :: rest => some (packet, { w with rx := rest })
  | .stream =>
    if w.rx.flatten = [] then none else some (w.rx.flatten.take n, { w with rx := [w.rx.flatten.drop n] })

/-- From `RecvFrom` on. -/
def receive (n : Nat) (peek : Bool) (w : World T) : Result × World T :=
  if w.m_peekedData ≠ [] then
    (.data (w.m_peekedData.take n), if peek then w else { w with m_peekedData := w.m_peekedData.drop n })
  else
    match RecvFrom n w with
    | none => (.EAGAIN, w)
    | some (packet, v) =>
      (.data packet, if peek ∧ w.kind = .stream then { v with m_peekedData := v.m_peekedData ++ packet } else v)

/-- After `WaitRecvDoSignal`; the switch over `m_state` is that of a stream socket. -/
def afterWait (n : Nat) (peek : Bool) (w : World T) : Result × World T :=
  if w.kind = .stream ∧ w.ended = true ∧ w.rx.flatten = [] then (.eof, w) else receive n peek w

/-- `DoRecvmsg`, which does not wait for more where bytes were peeked. -/
def DoRecvmsg (t : T) (n : Nat) (peek : Bool) (w : World T) : Result × World T :=
  if w.m_peekedData ≠ [] then receive n peek w
  else if canRecv w then afterWait n peek w
  else (.waits, { w with m_waitQueueList := update w.m_waitQueueList t (some ⟨peek, false⟩) })

/-- `WakeWaiters`, with POLLIN or POLLHUP -/
def WakeWaiters (w : World T) : World T :=
  { w with m_waitQueueList := fun t => (w.m_waitQueueList t).map fun wait => { wait with woken := true } }

/-- A thread that was woken goes on in a step of its own: its wait is OK, also where the handler of the signal that
woke it ran in the switch, or it finds a signal pending. `n` is how many bytes a call asks for. -/
inductive Label (T : Type*)
  | recvmsg (t : T) (n : Nat) (peek : Bool)
  | resume (t : T) (n : Nat)
  | interrupt (t : T)
  | UtilsSendSignal (t : T)
  | RecvSocketData (bytes : List UInt8)
  | CloseSuccess
  | Shutdown

def respond (w : World T) : Label T → Option (Result × World T)
  | .recvmsg t n peek => if w.m_waitQueueList t = none ∧ 0 < n then some (DoRecvmsg t n peek w) else none
  | .resume t n =>
    match w.m_waitQueueList t with
    | some ⟨peek, true⟩ =>
      if 0 < n then some (afterWait n peek { w with m_waitQueueList := update w.m_waitQueueList t none }) else none
    | _ => none
  | .interrupt t =>
    match w.m_waitQueueList t with
    | some ⟨_, true⟩ => some (.EINTR, { w with m_waitQueueList := update w.m_waitQueueList t none })
    | _ => none
  | .UtilsSendSignal t =>
    some (.waits, { w with m_waitQueueList := update w.m_waitQueueList t ((w.m_waitQueueList t).map fun wait =>
      { wait with woken := true }) })
  | .RecvSocketData bytes => some (.waits, WakeWaiters { w with rx := w.rx ++ [bytes] })
  | .CloseSuccess => if w.kind = .stream then some (.waits, WakeWaiters { w with ended := true }) else none
  | .Shutdown => if w.kind = .stream then some (.waits, { w with ended := true }) else none

def machine (T : Type*) [DecidableEq T] : Machine (World T) (Label T) where
  init w := ∃ kind, w = ⟨kind, [], [], false, fun _ => none⟩
  step w l := (respond w l).map Prod.snd

/-- No receive fails with EAGAIN. -/
def Waits (w : World T) (l : Label T) : Prop := ∀ out, respond w l = some out → out.1 ≠ .EAGAIN

/-- There is something to receive, or the end of the stream. -/
def Finds (w : World T) : Prop :=
  match w.kind with
  | .datagram => w.rx ≠ []
  | .stream => w.rx.flatten ≠ [] ∨ w.ended = true ∨ w.m_peekedData ≠ []

/-- When a reader that was woken goes on, the others have left something for it. -/
def Left (w : World T) : Label T → Prop
  | .resume .. => Finds w
  | _ => True

/-- Nothing is peeked at a datagram socket. -/
def Whole (w : World T) : Prop := w.kind = .datagram → w.m_peekedData = []

section

variable {w v : World T} {t : T} {n : Nat} {peek : Bool}

omit [DecidableEq T] in
theorem afterWait_again_iff (whole : Whole w) : (afterWait n peek w).1 = .EAGAIN ↔ ¬ Finds w := by
  unfold afterWait receive RecvFrom Finds
  cases kind : w.kind with
  | datagram =>
    cases w.rx <;> simp [whole kind]
  | stream =>
    by_cases peeked : w.m_peekedData = [] <;> by_cases none : w.rx.flatten =
      [] <;> cases w.ended <;> simp [peeked, none]

theorem recvmsg_waits (whole : Whole w) : (DoRecvmsg t n peek w).1 ≠ .EAGAIN := by
  unfold DoRecvmsg
  split
  next peeked => simp [receive, peeked]
  next =>
    split
    next some_bytes =>
      rw [Ne, afterWait_again_iff whole, not_not]
      unfold Finds
      cases kind : w.kind with
      | datagram =>
        intro none
        simp [canRecv, kind, none] at some_bytes
      | stream =>
        simp only [canRecv, kind, Bool.or_eq_true, decide_eq_true_eq] at some_bytes
        exact some_bytes.imp_right .inl
    · simp

theorem waits_iff (whole : Whole w) (l : Label T) (enabled : (respond w l).isSome) : Waits w l ↔ Left w l := by
  obtain ⟨out, run⟩ := Option.isSome_iff_exists.mp enabled
  have same : Waits w l ↔ out.1 ≠ .EAGAIN :=
    ⟨fun good => good out run, fun good other again => by cases run.symm.trans again; exact good⟩
  rw [same]
  cases l with
  | recvmsg t n peek =>
    obtain ⟨-, calls⟩ := Option.ite_none_right_eq_some.mp run
    cases calls
    exact iff_of_true (recvmsg_waits whole) trivial
  | resume t n =>
    simp only [respond] at run
    split at run
    · obtain ⟨-, goes⟩ := Option.ite_none_right_eq_some.mp run
      cases goes
      have woken : Whole { w with m_waitQueueList := update w.m_waitQueueList t none } := whole
      exact (not_congr (afterWait_again_iff woken)).trans not_not
    · cases run
  | interrupt t =>
    simp only [respond] at run
    split at run
    · cases run
      exact iff_of_true nofun trivial
    · cases run
  | UtilsSendSignal | RecvSocketData =>
    cases run
    exact iff_of_true nofun trivial
  | CloseSuccess | Shutdown =>
    obtain ⟨-, ends⟩ := Option.ite_none_right_eq_some.mp run
    cases ends
    exact iff_of_true nofun trivial

section

omit [DecidableEq T]

theorem receive_whole (whole : Whole w) : Whole (receive n peek w).2 := by
  unfold receive RecvFrom
  cases kind : w.kind with
  | datagram => cases w.rx <;> simp [Whole, whole kind]
  | stream =>
    by_cases peeked : w.m_peekedData = [] <;> by_cases none : w.rx.flatten = [] <;> cases peek <;> simp [Whole,
      kind, peeked, none]

theorem afterWait_whole (whole : Whole w) : Whole (afterWait n peek w).2 := by
  unfold afterWait
  split
  · exact whole
  · exact receive_whole whole

end

theorem respond_whole (whole : Whole w) {l : Label T} {out : Result × World T} (run : respond w l = some out) :
    Whole out.2 := by
  cases l with
  | recvmsg t n peek =>
    obtain ⟨-, calls⟩ := Option.ite_none_right_eq_some.mp run
    cases calls
    unfold DoRecvmsg
    split
    · exact receive_whole whole
    · split
      · exact afterWait_whole whole
      · exact whole
  | resume t n =>
    simp only [respond] at run
    split at run
    · obtain ⟨-, goes⟩ := Option.ite_none_right_eq_some.mp run
      cases goes
      exact afterWait_whole (w := { w with m_waitQueueList := update w.m_waitQueueList t none }) whole
    · cases run
  | interrupt t =>
    simp only [respond] at run
    split at run
    · cases run
      exact whole
    · cases run
  | UtilsSendSignal | RecvSocketData =>
    cases run
    exact whole
  | CloseSuccess | Shutdown =>
    obtain ⟨-, ends⟩ := Option.ite_none_right_eq_some.mp run
    cases ends
    exact whole

end

/-- No receive of a run fails with EAGAIN exactly if whoever goes on after a wake-up finds something. -/
theorem receives_wait_iff (w : World T) (k : Machine.Verdict)
    (reach : ((machine T).judged Left Waits).Reach (w, k)) :
    k.good ↔ k.careful := by
  refine Machine.judged_iff Whole (fun w first => ?_) (fun w l v whole step => ?_) reach
  · obtain ⟨kind, rfl⟩ := first
    exact fun _ => rfl
  · obtain ⟨out, run, rfl⟩ := Option.map_eq_some_iff.mp step
    exact ⟨waits_iff whole l (Option.isSome_iff_exists.mpr ⟨out, run⟩), fun _ => respond_whole whole run⟩

/-- Two readers of a datagram socket were woken by one packet, which the first of them has taken. -/
def robbed : World Bool :=
  ⟨.datagram, [], [], false, update (update (fun _ => none) false none) true (some ⟨false, true⟩)⟩

/-- The two wait, the packet comes, and the first takes it. -/
theorem robbed_reach : (machine Bool).ReachBy Left robbed := by
  have first : (machine Bool).ReachBy Left ⟨.datagram, [], [], false, fun _ => none⟩ := .start ⟨.datagram, rfl⟩
  have one := first.next (a := Label.recvmsg false 1 false) trivial rfl
  have both := one.next (a := Label.recvmsg true 1 false) trivial rfl
  have came := both.next (a := Label.RecvSocketData [1]) trivial rfl
  have found : [[1]] ≠ ([] : List (List UInt8)) := List.cons_ne_nil [1] []
  refine came.next (a := Label.resume false 1) found
    (congrArg some (congrArg (World.mk Kind.datagram [] [] false) (funext fun t => ?_)))
  cases t <;> rfl

theorem receives_wait_robbed : ∃ k, ((machine Bool).judged Left Waits).Reach (robbed, k) ∧ k.good := by
  obtain ⟨k, judged, careful⟩ := robbed_reach.judged
  exact ⟨k, judged, (receives_wait_iff _ _ judged).mpr careful⟩

/-- The other one gets EAGAIN. -/
theorem not_waits : ¬ ∀ w k, ((machine Bool).judged Left Waits).Reach (w, k) → k.good := by
  intro all
  have good : Waits robbed (.resume true 1) := Machine.good_of_judged all robbed_reach.reach rfl
  exact good _ rfl rfl

end Dce.UnixStream.Readers
