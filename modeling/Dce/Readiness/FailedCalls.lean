import Dce.Readiness.Calls

/- What a failed `Accept` or `Connect` of a stream socket leaves behind. Both overwrite the state of their socket
before they wait, and none of their exits puts it back. -/

namespace Dce.Readiness

open Coroutine
open Binder (Path)
open LocalStream (waitResult)
open Pipe (pipeCapacity)

variable {T β : Type*}

/-- The state of the socket of its last `Connect` when the thread called it. -/
abbrev Begun (T : Type*) := T → Option LocalStream.State

def noteConnects [DecidableEq T] (w : W T β) (act : Act T (Op β) Answer) (k : Begun T) : Begun T :=
  match act with
  | .call t (.connect (.socket .stream a) _) => Function.update k t (some (w.shared.streams a).m_state)
  | _ => k

/-- The files and threads with the begun `Connect`s beside them. -/
def connecting (T β : Type*) [DecidableEq T] : Machine (W T β × Begun T) (Act T (Op β) Answer) :=
  (machine T β).ledgered (fun _ => none) noteConnects

def Failed (w : W T β) (t : T) : Prop := w.place t = .own (some (.done (-1)))

/-- The socket `a` can be accepted from. -/
structure Listens (n n' : Node T β) (a : Nat) : Prop where
  state : (n'.streams a).m_state = .LISTENING
  queue : (n'.streams a).m_cnxQueue = (n.streams a).m_cnxQueue

/-- What a step that leads to `v` owes to the sockets. A `Connect` of a connected socket fails, and one that fails at
once changes no socket; a listener whose `Accept` ends by the time or by a signal listens on; and a `Connect` that
fails after its wait gives its socket the state back that it had and is in the queue of the listener no more. -/
def Restores (p : W T β × Begun T) (act : Act T (Op β) Answer) (v : W T β) : Prop :=
  match act with
  | .call t (.connect (.socket .stream a) _) =>
    ((p.1.shared.streams a).m_state = .CONNECTED → Failed v t) ∧ (Failed v t → v.shared.streams = p.1.shared.streams)
  | .dispatch t e =>
    match p.1.place t with
    | .inside (.accept a last) =>
      waitResult e.interrupted last p.1.now ≠ .OK →
        (p.1.shared.streams a).m_state = .LISTENING ∨ (p.1.shared.streams a).m_state = .ACCEPTING →
        Listens p.1.shared v.shared a
    | .inside (.connect a l _) =>
      Failed v t → p.2 t = some (v.shared.streams a).m_state ∧ a ∉ (v.shared.streams l).m_cnxQueue
    | _ => True
  | _ => True

def RestoresAll [DecidableEq T] (p : W T β × Begun T) (act : Act T (Op β) Answer) : Prop :=
  ∀ v, (machine T β).step p.1 act = some v → Restores p act v

/-- A `Connect` of `a` finds a listener that it waits for. -/
def Waits (n : Node T β) (a : Nat) (path : Path) : Prop :=
  Open n (.socket .stream a) ∧ (n.streams a).m_factory = true ∧ ∃ l, findBinder .stream path n = some l ∧
    ((n.streams l).m_state = .ACCEPTING ∨ (n.streams l).m_state = .LISTENING ∧
      (n.sockets .stream a).nonblock = false)

/-- No connected socket connects to a listener, no `Accept` that waits ends by the time or by a signal, and no
`Connect` that waits ends without its connection. -/
def Undisturbed (p : W T β × Begun T) (act : Act T (Op β) Answer) : Prop :=
  match act with
  | .call _ (.connect (.socket .stream a) path) =>
    (p.1.shared.streams a).m_state = .CONNECTED → ¬ Waits p.1.shared a path
  | .dispatch t e =>
    match p.1.place t with
    | .inside (.accept a last) =>
      waitResult e.interrupted last p.1.now = .OK ∨ (p.1.shared.streams a).m_state ≠ .ACCEPTING
    | .inside (.connect a _ _) =>
      let state := (p.1.shared.streams a).m_state
      (state = .CONNECTED ∨ state = .REMOTECLOSED) ∨ p.2 t = some state
    | _ => True
  | _ => True

variable [DecidableEq T] {w v : W T β} {t : T} {a l : Nat} {path : Path} {k : Begun T}

theorem streamConnect_cases : (Waits w.shared a path ∧ ¬ Failed (enter t (.connect (.socket .stream a) path) w) t) ∨
      (¬ Waits w.shared a path ∧ Failed (enter t (.connect (.socket .stream a) path) w) t ∧
        (enter t (.connect (.socket .stream a) path) w).shared.streams = w.shared.streams) := by
  have failing : ∀ err, Failed (fails t err w) t ∧ (fails t err w).shared.streams = w.shared.streams := fun err =>
    ⟨by simp [Failed, fails], rfl⟩
  unfold enter
  have finds : Op.Finds w.shared (.connect (.socket .stream a) path) ↔ Open w.shared (.socket .stream a) :=
    List.forall_mem_singleton
  by_cases made : Open w.shared (.socket .stream a)
  · rw [if_pos (finds.mpr made)]
    change (Waits w.shared a path ∧ ¬ Failed (streamConnect t a path w) t) ∨ (¬ Waits w.shared a path ∧
      Failed (streamConnect t a path w) t ∧ (streamConnect t a path w).shared.streams = w.shared.streams)
    unfold streamConnect
    split
    next factory => exact .inr ⟨fun waits => by simp [waits.2.1] at factory, failing .EINVAL⟩
    next factory =>
      split
      next missing =>
        refine .inr ⟨fun waits => ?_, failing .ENOENT⟩
        obtain ⟨l, found, -⟩ := waits.2.2
        cases missing.symm.trans found
      next l found =>
        have listener : Waits w.shared a path ↔ (w.shared.streams l).m_state = .ACCEPTING ∨
            (w.shared.streams l).m_state = .LISTENING ∧ (w.shared.sockets .stream a).nonblock = false := by
          refine ⟨fun waits => ?_, fun listens => ⟨made, by simpa using factory, l, found, listens⟩⟩
          obtain ⟨l', found', listens⟩ := waits.2.2
          cases found.symm.trans found'
          exact listens
        dsimp only
        split
        next deaf =>
          refine .inr ⟨fun waits => ?_, by simp [Failed], rfl⟩
          rcases listener.mp waits with accepting | listening
          · exact deaf.1 accepting
          · exact deaf.2 listening.1
        · split
          next busy =>
            refine .inr ⟨fun waits => ?_, failing .EAGAIN⟩
            rcases listener.mp waits with accepting | listening
            · exact busy.1 accepting
            · simp [busy.2] at listening
          next ready =>
            refine .inl ⟨listener.mpr ?_, ?_⟩
            · rw [not_and_or, Bool.not_eq_true] at ready
              tauto
            · split <;> simp [Failed]
  · rw [if_neg (fun there => made (finds.mp there))]
    exact .inr ⟨fun waits => made waits.1, failing .EBADF⟩

theorem acceptOn_broken {last : Option Nat} {e : Answer} (off : waitResult e.interrupted last w.now ≠ .OK) :
    (acceptOn t a last e w).shared.streams = w.shared.streams := by
  have now : (removeWaitQueue t (.socket .stream a) w).now = w.now := rfl
  unfold acceptOn
  dsimp only
  rw [now]
  cases result : waitResult e.interrupted last w.now with
  | OK => exact absurd result off
  | INTERRUPTED => rfl
  | TIMEOUT => rfl

/-- A `Connect` fails after its wait where its socket has no connection; then the socket keeps its state and leaves
the queue. -/
theorem connectOn_cases :
    (((w.shared.streams a).m_state = .CONNECTED ∨ (w.shared.streams a).m_state = .REMOTECLOSED) ∧
        ¬ Failed (connectOn t a l w) t) ∨
      (¬ ((w.shared.streams a).m_state = .CONNECTED ∨ (w.shared.streams a).m_state = .REMOTECLOSED) ∧
        Failed (connectOn t a l w) t ∧ ((connectOn t a l w).shared.streams a).m_state =
        (w.shared.streams a).m_state ∧
          a ∉ ((connectOn t a l w).shared.streams l).m_cnxQueue) := by
  have same : (removeWaitQueue t (.socket .stream a) w).shared.streams = w.shared.streams := rfl
  unfold connectOn
  dsimp only
  rw [same]
  split
  next joined => exact .inl ⟨joined, by simp [Failed]⟩
  next alone =>
    refine .inr ⟨alone, by simp [Failed, fails], ?_, by simp [fails, setErr, setStream]⟩
    by_cases mine : a = l
    · subst mine
      simp [fails, setErr, setStream]
    · simp [fails, setErr, setStream, mine, same]

/-- One step restores what it owes exactly if it is undisturbed. -/
theorem restores_iff {act : Act T (Op β) Answer} (run : (machine T β).step w act = some v) :
    Restores (w, k) act v ↔ Undisturbed (w, k) act := by
  cases act with
  | call t op =>
    obtain ⟨-, -, rfl⟩ := Program.step_call run
    cases op with
    | connect f path =>
      cases f with
      | socket kind a =>
        cases kind with
        | stream =>
          rcases streamConnect_cases (t := t) (w := w) (a := a) with
            ⟨waits, returns⟩ | ⟨refused, failed, same⟩
          · exact ⟨fun owes connected => absurd (owes.1 connected) returns,
              fun careful => ⟨fun connected => absurd waits (careful connected), fun failed =>
                absurd failed returns⟩⟩
          · exact ⟨fun _ _ => refused, fun _ => ⟨fun _ => failed, fun _ => same⟩⟩
        | datagram => exact .rfl
      | _ => exact .rfl
    | _ => exact .rfl
  | dispatch t e =>
    unfold Restores Undisturbed
    dsimp only
    split
    next a last inside =>
      rw [Program.step_resume inside run]
      refine ⟨fun owes => ?_, fun careful off listener => ?_⟩
      · by_contra disturbed
        rw [not_or, not_not] at disturbed
        have restored := (owes disturbed.1 (.inr disturbed.2)).state
        have same : (acceptOn t a last e (w.give t)).shared.streams = w.shared.streams :=
          acceptOn_broken (w := w.give t) disturbed.1
        have kept : ((acceptOn t a last e (w.give t)).shared.streams a).m_state = .ACCEPTING := by
          rw [same]
          exact disturbed.2
        cases restored.symm.trans kept
      · have same : ((program T β).resume t (.accept a last) e (w.give t)).shared.streams = w.shared.streams :=
          acceptOn_broken (w := w.give t) off
        refine ⟨?_, by rw [same]⟩
        rw [same]
        exact listener.resolve_right (careful.resolve_left off)
    next a l last inside =>
      rw [Program.step_resume inside run]
      rcases connectOn_cases (t := t) (w := w.give t) (a := a) (l := l) with
        ⟨joined, returns⟩ | ⟨alone, failed, state, gone⟩
      · exact iff_of_true (fun failed => absurd failed returns) (.inl joined)
      · have now : ((w.give t).shared.streams a).m_state = (w.shared.streams a).m_state := rfl
        rw [now] at state alone
        refine ⟨fun owes => ?_, fun careful _ => ⟨?_, gone⟩⟩
        · have restored : k t = some ((connectOn t a l (w.give t)).shared.streams a).m_state := (owes failed).1
          rw [state] at restored
          exact .inr restored
        · have begun : k t = some (w.shared.streams a).m_state := careful.resolve_left alone
          rw [← state] at begun
          exact begun
    next => exact .rfl
  | _ => exact .rfl

/-- Every failed call of a run restores what it owes exactly if all its steps are undisturbed. -/
theorem restores_iff_undisturbed {p : W T β × Begun T} {verdict : Machine.Verdict}
    (reach : ((connecting T β).judged Undisturbed RestoresAll).Reach (p, verdict)) :
    verdict.good ↔ verdict.careful := by
  refine Machine.judged_iff (fun _ => True) (fun _ _ => trivial) (fun p act q _ run => ⟨?_, fun _ => trivial⟩) reach
  have step := (Machine.ledgered_step run).1
  refine ⟨fun good => (restores_iff step).mp (good q.1 step), fun careful v run' => ?_⟩
  exact (restores_iff run').mpr careful

/-- Two threads with sockets that nobody has used. -/
def twoThreads : W Bool Nat where
  current := none
  status _ := .active
  place _ := .own none
  now := 0
  wakeAt _ := none
  shared :=
    { pipes := fun _ => ⟨none, true, false, .new pipeCapacity Nat⟩
      sockets := fun _ _ => ⟨[], 0, 0, 0, none, false, false, false⟩
      streams := fun _ => ⟨.CREATED, none, true, []⟩
      datagrams := fun _ => ⟨.CREATED, none, []⟩
      timers := fun _ => ⟨none, 0⟩
      m_waitQueueList := fun _ => []
      m_closing := fun _ => false
      m_bindByPath := fun _ => none
      err := fun _ => none
      fresh := 3 }

theorem twoThreads_start : (machine Bool Nat).init twoThreads where
  main := rfl
  ready _ := .inl rfl
  own _ := rfl
  shared := ⟨fun _ => rfl, fun _ _ => nofun, fun _ _ => rfl, fun _ => rfl, fun _ => rfl, fun _ => rfl, fun _ => rfl,
    fun _ => rfl, fun _ => rfl⟩

/-- The socket 0 listens, with one tick for each of its `Accept`s, and the first of these waits. -/
def listening : List (Act Bool (Op Nat) Answer) :=
  [.dispatch false ⟨false, false⟩, .call false (.bind (.socket .stream 0) true ['a'] none),
    .call false (.listen (.socket .stream 0)), .call false (.setTimeouts .stream 0 0 1),
    .call false (.accept (.socket .stream 0) false)]

/-- The tick is over before anyone connects. -/
def late : W Bool Nat := ((machine Bool Nat).replay twoThreads (listening ++ [.tick, .expire false])).getD twoThreads

def timedOut : W Bool Nat := ((machine Bool Nat).step late (.dispatch false ⟨false, false⟩)).getD late

/-- The socket 1 connects in time, once it has failed to connect to a path that nothing is bound to. -/
def connected : W Bool Nat :=
  ((machine Bool Nat).replay twoThreads
    (listening ++ [.dispatch true ⟨false, false⟩, .call true (.connect (.socket .stream 1) ['b']),
      .call true (.connect (.socket .stream 1) ['a']), .dispatch false ⟨false, false⟩])).getD twoThreads

example : (enter false (.accept (.socket .stream 0) false) timedOut).shared.err false = some .EINVAL := rfl

example : (connected.shared.streams 1).m_state = .CONNECTED ∧
    ((enter false (.connect (.socket .stream 1) ['a']) connected).shared.streams 1).m_state = .CONNECTING :=
  ⟨rfl, rfl⟩

/-- The end of the time leaves the socket of an `Accept` `ACCEPTING`. -/
theorem not_restores : ¬ ∀ p verdict, ((connecting Bool Nat).judged Undisturbed RestoresAll).Reach (p, verdict) →
    verdict.good := by
  intro restores
  have first : (machine Bool Nat).Reach late := by
    have run : (machine Bool Nat).replay twoThreads (listening ++ [.tick, .expire false]) = some late := rfl
    exact (Machine.ReachBy.start twoThreads_start).replay (fun _ _ => trivial) run
  obtain ⟨k, beside⟩ := first.ledgered
  obtain ⟨verdict, reach⟩ := beside.ledgered
  have last := reach.next (a := .dispatch false ⟨false, false⟩) trivial rfl
  have owes : Restores (late, k) (.dispatch false ⟨false, false⟩) timedOut := (restores _ _ last).2 timedOut rfl
  have listens : Listens late.shared timedOut.shared 0 := owes nofun (.inr rfl)
  cases listens.state

theorem restores_iff_undisturbed_connected : connected.shared.err true = some .ENOENT ∧ ∃ k verdict,
    ((connecting Bool Nat).judged Undisturbed RestoresAll).Reach ((connected, k), verdict) ∧ verdict.good := by
  have first : (connecting Bool Nat).ReachBy Undisturbed (twoThreads, fun _ => none) :=
    .start ⟨twoThreads_start, rfl⟩
  have runs := first.next (a := Act.dispatch false ⟨false, false⟩) (by trivial) rfl
  have binds := runs.next (a := Act.call false (.bind (.socket .stream 0) true ['a'] none)) (by trivial) rfl
  have listens := binds.next (a := Act.call false (.listen (.socket .stream 0))) (by trivial) rfl
  have sets := listens.next (a := Act.call false (.setTimeouts .stream 0 0 1)) (by trivial) rfl
  have accepts := sets.next (a := Act.call false (.accept (.socket .stream 0) false)) (by trivial) rfl
  have switches := accepts.next (a := Act.dispatch true ⟨false, false⟩) (by trivial) rfl
  have fails := switches.next (a := Act.call true (.connect (.socket .stream 1) ['b'])) (by nofun) rfl
  have waits := fails.next (a := Act.call true (.connect (.socket .stream 1) ['a'])) (by nofun) rfl
  have accepted := waits.next (a := Act.dispatch false ⟨false, false⟩) (by exact .inl rfl) rfl
  obtain ⟨verdict, judged, careful⟩ := accepted.judged
  exact ⟨rfl, _, verdict, judged, (restores_iff_undisturbed judged).mpr careful⟩

end Dce.Readiness
