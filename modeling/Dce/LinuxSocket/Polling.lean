import Dce.Lib.Machine
import Mathlib.Logic.Function.Basic

/- A socket of ns-3 over one of the kernel, `linux-socket-impl.cc`: its polling task, and an application that
connects it. -/

namespace Dce.LinuxSocket

open Function

section Model

/-- `block` is `manager->Wait ()`, and `crash` is the use of a null `FileUsage`. -/
inductive Action
  | EnterFakeTask | LeaveFakeTask | Wait | block | crash
  | NotifyNewConnectionCreated (fd : Nat)
  | NotifyConnectionSucceeded | NotifyConnectionFailed | NotifyDataRecv | scheduleNotifySend
  deriving DecidableEq

/-- `openFiles` says for each entry whether its pointer is not null. The last fields are not in the source: whether
the polling task waits and nobody wakes it, or has crashed; the callbacks since `Connect` was last called; whether
the kernel has established a connection. -/
structure World where
  m_listening : Bool
  m_conn_inprogress : Bool
  openFiles : Int → Option Bool
  m_running : Bool
  m_connected : Bool
  blocked : Bool
  crashed : Bool
  callbacks : Nat
  established : Bool

/-- Whether `sock_accept` and `sock_getpeername` succeed. -/
structure Accepted where
  accepted : Bool
  named : Bool

def MAX_FDS : Nat := 1024

def UtilsAllocateFd (openFiles : Int → Option Bool) : Option Nat :=
  (List.range' 0 MAX_FDS).find? fun fd => (openFiles fd).isNone

/-- `KernelSocketFdFactory::Accept`; `none` is -1. -/
def Accept (a : Accepted) (openFiles : Int → Option Bool) : Option Nat × (Int → Option Bool) :=
  if !a.accepted then (none, openFiles)
  else if !a.named then (none, openFiles)
  else
    match UtilsAllocateFd openFiles with
    | none => (none, openFiles)
    | some fd => (some fd, update openFiles fd (some true))

def POLLIN : Nat := 0x1

def POLLOUT : Nat := 0x4

def POLLERR : Nat := 0x8

def POLLHUP : Nat := 0x10

def POLLRDHUP : Nat := 0x2000

/-- What is notified of a mask. -/
def notify (mask : Nat) (a : Accepted) (w : World) : List Action × World :=
  if mask = 0 then ([.Wait], w)
  else if w.m_listening then
    match Accept a w.openFiles with
    | (some sock, openFiles) =>
      ([.EnterFakeTask, .LeaveFakeTask, .NotifyNewConnectionCreated sock], { w with openFiles := openFiles })
    -- no entry has the number -1, so `openFiles[sock]` makes one, of a null pointer
    | (none, openFiles) => ([.EnterFakeTask, .crash], { w with openFiles := update openFiles (-1) (some false) })
  else if w.m_conn_inprogress then ([.NotifyConnectionSucceeded, .Wait], { w with m_conn_inprogress := false })
  else if mask &&& (POLLRDHUP ||| POLLHUP ||| POLLERR) ≠ 0 then ([.block], w)
  else if mask &&& (POLLIN ||| POLLERR) ≠ 0 then ([.NotifyDataRecv], w)
  else if mask &&& POLLOUT ≠ 0 then ([.scheduleNotifySend, .Wait], w)
  else ([], w)

def masked (mask : Int) : Nat := mask.toNat &&& (POLLIN ||| POLLOUT ||| POLLERR ||| POLLHUP ||| POLLRDHUP)

/-- An iteration of the loop of `Poll`. -/
def iteration (mask : Int) (a : Accepted) (w : World) : List Action × World :=
  if mask < 0 then ([.EnterFakeTask], w)
  else (.EnterFakeTask :: .LeaveFakeTask :: (notify (masked mask) a w).1, (notify (masked mask) a w).2)

/-- What the application does in its callbacks, `ConnectionSucceeded` and `ConnectionFailed`. -/
def World.hears (w : World) : Action → World
  | .NotifyConnectionSucceeded =>
      { w with m_connected := w.m_connected || w.m_running, callbacks := w.callbacks + 1 }
  | .NotifyConnectionFailed => { w with m_connected := false, callbacks := w.callbacks + 1 }
  | .block => { w with blocked := true }
  | .crash => { w with crashed := true }
  | _ => w

/-- What the `Connect` of the kernel socket answers. -/
inductive Answer
  | success | EINPROGRESS | error (err : Nat)
  deriving DecidableEq

def Connect (answer : Answer) (w : World) : List Action × World :=
  ([.EnterFakeTask, .LeaveFakeTask],
    { w with m_conn_inprogress := w.m_conn_inprogress || answer = .EINPROGRESS, callbacks := 0 })

/-- How the connection stands that the kernel makes. -/
inductive Kernel
  | pending | established | failed
  deriving DecidableEq

/-- The polling task finds a mask, while the connection stands so. -/
inductive Label
  | start
  | stop
  | Connect (answer : Answer)
  | Listen (ret : Int)
  | poll (mask : Int) (a : Accepted) (kernel : Kernel)

def Label.polls : Label → Bool
  | .poll .. => true
  | _ => false

def perform (w : World) : Label → List Action × World
  | .start => ([], { w with m_running := true })
  | .stop => ([], { w with m_running := false, m_connected := false })
  | .Connect answer => Connect answer w
  | .Listen ret => ([.EnterFakeTask, .LeaveFakeTask], { w with m_listening := w.m_listening || ret = 0 })
  | .poll mask a kernel => iteration mask a { w with established := w.established || kernel = .established }

def machine : Machine World Label where
  init w := ∃ openFiles : Int → Option Bool, (∀ fd < 0, openFiles fd = none) ∧
    w = ⟨false, false, openFiles, false, false, false, false, 0, false⟩
  step w a := if w.crashed || w.blocked && a.polls then none
    else some ((perform w a).1.foldl World.hears (perform w a).2)

end Model

variable {w v : World} {a : Accepted} {mask : Int}

/-- The mask is reported, not an error of `Poll` and not empty. -/
def Reported (mask : Int) : Prop := 0 ≤ mask ∧ masked mask ≠ 0

section Brackets

/-- Each `EnterFakeTask` is matched by one `LeaveFakeTask` before the next one, a wait and the end. `inside` says
whether one is open. -/
def bracketed : Bool → List Action → Bool
  | inside, [] => !inside
  | inside, .EnterFakeTask :: rest => !inside && bracketed true rest
  | inside, .LeaveFakeTask :: rest => inside && bracketed false rest
  | inside, .Wait :: rest | inside, .block :: rest => !inside && bracketed inside rest
  | inside, _ :: rest => bracketed inside rest

def announced (actions : List Action) : List Nat :=
  actions.filterMap fun | .NotifyNewConnectionCreated fd => some fd | _ => none

/-- The iteration calls `Accept`. -/
def Accepts (mask : Int) (w : World) : Prop := Reported mask ∧ w.m_listening = true

def Accepted.Succeeds (a : Accepted) (w : World) : Prop :=
  a.accepted = true ∧ a.named = true ∧ (UtilsAllocateFd w.openFiles).isSome

/-- An iteration keeps its brackets. Where `Accept` fails there is no null pointer used, and nothing new for the
process and the application, and where it succeeds one connection is announced. -/
def Survives (w : World) : Label → Prop
  | .poll mask a _ =>
    let (actions, v) := iteration mask a w
    bracketed false actions = true ∧
      (Accepts mask w → ¬ a.Succeeds w → .crash ∉ actions ∧ v.openFiles = w.openFiles ∧ announced actions = []) ∧
      (Accepts mask w → a.Succeeds w → ∃ fd, announced actions = [fd])
  | _ => True

/-- `Poll` does not fail, nor does `Accept` where it is called. -/
def Smooth (w : World) : Label → Prop
  | .poll mask a _ => 0 ≤ mask ∧ (Accepts mask w → a.Succeeds w)
  | _ => True

theorem accept_succeeds (good : a.Succeeds w) :
    ∃ fd : Nat, Accept a w.openFiles = (some fd, update w.openFiles fd (some true)) := by
  obtain ⟨accepted, named, some_fd⟩ := good
  obtain ⟨fd, there⟩ := Option.isSome_iff_exists.mp some_fd
  exact ⟨fd, by simp [Accept, accepted, named, there]⟩

theorem accept_fails (bad : ¬ a.Succeeds w) : Accept a w.openFiles = (none, w.openFiles) := by
  unfold Accept
  cases accepted : a.accepted
  · rfl
  · cases named : a.named
    · rfl
    · cases there : UtilsAllocateFd w.openFiles with
      | none => rfl
      | some fd => exact absurd ⟨accepted, named, by rw [there]; rfl⟩ bad

/-- The branch of a listening socket. -/
theorem notify_listening (accepts : Accepts mask w) :
    (a.Succeeds w → ∃ fd : Nat, (notify (masked mask) a w).1 =
      [.EnterFakeTask, .LeaveFakeTask, .NotifyNewConnectionCreated fd]) ∧
    (¬ a.Succeeds w → (notify (masked mask) a w).1 = [.EnterFakeTask, .crash]) := by
  obtain ⟨⟨-, some_event⟩, listening⟩ := accepts
  unfold notify
  rw [if_neg some_event, if_pos listening]
  constructor
  · intro good
    obtain ⟨fd, accept⟩ := accept_succeeds good (w := w)
    exact ⟨fd, by simp [accept]⟩
  · intro bad
    simp [accept_fails bad]

/-- The other branches have no brackets. -/
theorem notify_other (other : w.m_listening = false ∨ masked mask = 0) :
    bracketed false (notify (masked mask) a w).1 = true := by
  fun_cases notify (masked mask) a w with
  | case2 some_event listening => rcases other with silent | none <;> simp_all
  | case3 some_event listening => rcases other with silent | none <;> simp_all
  | _ => rfl

theorem survives_iff {l : Label} : Survives w l ↔ Smooth w l := by
  cases l with
  | poll mask a kernel =>
    by_cases fails : mask < 0
    · refine iff_of_false (fun good => ?_) fun smooth => absurd smooth.1 (not_le.mpr fails)
      simp [Survives, iteration, fails, bracketed] at good
    · by_cases accepts : Accepts mask w
      · obtain ⟨succeeds, crashes⟩ := notify_listening (a := a) accepts
        by_cases good : a.Succeeds w
        · obtain ⟨fd, same⟩ := succeeds good
          refine iff_of_true ?_ ⟨not_lt.mp fails, fun _ => good⟩
          simp [Survives, iteration, fails, same, bracketed, announced, good]
        · refine iff_of_false (fun survives => ?_) fun smooth => good (smooth.2 accepts)
          simp [Survives, iteration, fails, crashes good, accepts, good] at survives
      · have other : w.m_listening = false ∨ masked mask = 0 := by
          by_contra both
          push Not at both
          exact accepts ⟨⟨not_lt.mp fails, both.2⟩, by simpa using both.1⟩
        have kept := notify_other (a := a) other
        refine iff_of_true ?_ ⟨not_lt.mp fails, fun wrong => absurd wrong accepts⟩
        simp [Survives, iteration, fails, accepts, bracketed, kept]
  | _ => exact Iff.rfl

theorem step_eq {l : Label} (step : machine.step w l = some v) :
    (perform w l).1.foldl World.hears (perform w l).2 = v :=
  Option.some.inj (Option.ite_none_left_eq_some.mp step).2

theorem hears_keeps (actions : List Action) (w : World) :
    (actions.foldl World.hears w).m_conn_inprogress = w.m_conn_inprogress ∧
      (actions.foldl World.hears w).established = w.established := by
  induction actions generalizing w with
  | nil => exact ⟨rfl, rfl⟩
  | cons action rest ih =>
    rw [List.foldl_cons, (ih _).1, (ih _).2]
    cases action <;> exact ⟨rfl, rfl⟩

end Brackets

/-- All iterations of a run survive what they are answered exactly if `Poll` does not fail and neither does an
`Accept`. -/
theorem polls_survive_iff (w : World) (k : Machine.Verdict) (reach : (machine.judged Smooth Survives).Reach (w, k)) :
    k.good ↔ k.careful := by
  exact Machine.judged_iff (fun _ => True) (fun _ _ => trivial) (fun _ _ _ _ _ =>
    ⟨survives_iff, fun _ => trivial⟩) reach

def fresh : World := ⟨false, false, fun _ => none, false, false, false, false, 0, false⟩

theorem fresh_first : machine.init fresh := ⟨_, fun _ _ => rfl, rfl⟩

/-- `Poll` reports a connection, which is accepted as descriptor 0. -/
def accepting : Label := .poll POLLIN ⟨true, true⟩ .pending

theorem polls_survive_accepted : ∃ w k, (machine.judged Smooth Survives).Reach (w, k) ∧
    w.openFiles 0 = some true ∧ k.good := by
  have listens := (Machine.ReachBy.start (C := Smooth) fresh_first).next (a := Label.Listen 0) trivial rfl
  obtain ⟨k, judged, careful⟩ :=
    (listens.next (a := accepting) ⟨Int.natCast_nonneg _, fun _ => ⟨rfl, rfl, rfl⟩⟩ rfl).judged
  exact ⟨_, k, judged, rfl, (polls_survive_iff _ _ judged).mpr careful⟩

/-- After an error of `Poll`, the next iteration enters the fake task again. -/
theorem not_survive : ¬ ∀ w k, (machine.judged Smooth Survives).Reach (w, k) → k.good := by
  intro all
  have good : Survives fresh (.poll (-1) ⟨true, true⟩ .pending) :=
    Machine.good_of_judged all (.start fresh_first) rfl
  exact absurd good.1 (by decide)

section Outcomes

/-- No attempt fails at once, and no mask is reported of one that is not established (of a socket that listens: that
has failed). -/
def Sure (w : World) : Label → Prop
  | .Connect answer => ∀ err, answer ≠ .error err
  | .poll mask _ kernel =>
    w.m_conn_inprogress = true → Reported mask → kernel = .established ∨ w.m_listening = true ∧ kernel = .pending
  | _ => True

/-- The mask ends an attempt. -/
def Ends (mask : Int) (w : World) : Prop := Reported mask ∧ w.m_listening = false ∧ w.m_conn_inprogress = true

theorem failure_unnotified : .NotifyConnectionFailed ∉ (iteration mask a w).1 := by
  unfold iteration
  split
  · simp
  · fun_cases notify (masked mask) a w <;> simp

/-- An iteration that ends an attempt notifies of a success. -/
theorem iteration_ends (ends : Ends mask w) : iteration mask a w =
    ([.EnterFakeTask, .LeaveFakeTask, .NotifyConnectionSucceeded, .Wait],
      { w with m_conn_inprogress := false }) := by
  obtain ⟨⟨positive, some_event⟩, silent, attempt⟩ := ends
  simp [iteration, not_lt.mpr positive, notify, some_event, silent, attempt]

/-- Another one notifies of nothing. -/
theorem iteration_quiet (quiet : ¬ Ends mask w) : .NotifyConnectionSucceeded ∉ (iteration mask a w).1 ∧
    (iteration mask a w).2 = { w with openFiles := (iteration mask a w).2.openFiles } := by
  unfold iteration
  split
  · simp
  next positive =>
    fun_cases notify (masked mask) a w with
    | case4 some_event silent attempt =>
      exact absurd ⟨⟨not_lt.mp positive, some_event⟩, by simpa using silent, attempt⟩ quiet
    | _ => simp

/-- One callback for a call of `Connect`, while it is under way still to come. -/
def World.Counted (w : World) : Prop := w.callbacks + w.m_conn_inprogress.toNat ≤ 1

theorem hears_unnotified {actions : List Action}
    (quiet : .NotifyConnectionSucceeded ∉ actions ∧ .NotifyConnectionFailed ∉ actions) :
    (actions.foldl World.hears w).callbacks = w.callbacks ∧
    (actions.foldl World.hears w).m_connected = w.m_connected := by
  induction actions generalizing w with
  | nil => exact ⟨rfl, rfl⟩
  | cons action rest ih =>
    simp only [List.mem_cons, not_or] at quiet
    rw [List.foldl_cons, (ih ⟨quiet.1.2, quiet.2.2⟩).1, (ih ⟨quiet.1.2, quiet.2.2⟩).2]
    cases action <;> simp_all [World.hears]

/-- The application is connected only over a connection that was established. -/
def World.Sound (w : World) : Prop := w.m_connected = true → w.established = true

theorem sound_poll (sound : w.Sound) (told : Ends mask w → w.established = true) :
    ((iteration mask a w).1.foldl World.hears (iteration mask a w).2).Sound := by
  unfold World.Sound at sound ⊢
  rw [(hears_keeps ..).2]
  by_cases ends : Ends mask w
  · rw [iteration_ends ends]
    exact fun _ => told ends
  · obtain ⟨quiet, same⟩ := iteration_quiet (a := a) ends
    rw [(hears_unnotified ⟨quiet, failure_unnotified⟩).2, same]
    exact sound

theorem sound_step (sound : w.Sound) {l : Label} (sure : Sure w l) (step : machine.step w l = some v) : v.Sound := by
  cases step_eq step
  cases l with
  | start | Listen ret | Connect answer => exact sound
  | stop => exact nofun
  | poll mask a kernel =>
    refine sound_poll (fun connected => ?_) fun ends => ?_
    · exact Bool.or_eq_true_iff.mpr (.inl (sound connected))
    · obtain ⟨reported, silent, attempt⟩ := ends
      have silent : w.m_listening = false := silent
      rcases sure attempt reported with same | ⟨listening, -⟩
      · simp [same]
      · simp [silent] at listening

end Outcomes

/-- A socket that connects, for an application that runs. -/
def connecting : World := ⟨false, true, fun _ => none, true, false, false, false, 0, false⟩

end Dce.LinuxSocket
