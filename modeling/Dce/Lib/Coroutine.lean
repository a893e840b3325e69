import Dce.Lib.Machine

namespace Coroutine

open Function Option

/-- What a scheduler of cooperative threads knows of one of them. -/
inductive Status
  | running | active | blocked | dead
  deriving DecidableEq, Repr

/-- Where a thread stands: in its own code, with the result of the last operation
it called, or inside an operation, suspended at the point `k` of it. -/
inductive Place (K R : Type*)
  | own (last : Option R)
  | inside (k : K)
  deriving DecidableEq, Repr

/-- Threads `T` over a shared state `S`. Control moves only where a thread gives it
up; `wakeAt` is the end of a sleep that has a time limit. -/
structure World (T K R S : Type*) where
  current : Option T
  status : T → Status
  place : T → Place K R
  now : Nat
  wakeAt : T → Option Nat
  shared : S

namespace World

variable {T K R S : Type*} [DecidableEq T]

def give (w : World T K R S) (t : T) : World T K R S :=
  { w with current := some t, status := update w.status t .running }

def wake (w : World T K R S) (t : T) : World T K R S :=
  if w.status t = .blocked then { w with status := update w.status t .active } else w

/-- Wake every thread of a list, in its order. -/
def wakeAll (w : World T K R S) (ts : List T) : World T K R S := ts.foldl wake w

/-- The running thread returns from the operation it is in. -/
def ret (w : World T K R S) (t : T) (r : R) : World T K R S :=
  { w with place := update w.place t (.own (some r)) }

def sleep (w : World T K R S) (t : T) (k : K) : World T K R S :=
  { w with
    current := none
    status := update w.status t .blocked
    place := update w.place t (.inside k)
    wakeAt := update w.wakeAt t none }

def sleepUntil (w : World T K R S) (t : T) (k : K) (e : Nat) : World T K R S :=
  { w.sleep t k with wakeAt := update w.wakeAt t (some e) }

/-- The running thread stays runnable and lets the others go first. -/
def yieldAt (w : World T K R S) (t : T) (k : K) : World T K R S :=
  { w with
    current := none
    status := update w.status t .active
    place := update w.place t (.inside k) }

/-- What is left of the time limit of the sleep of `t`; none is left without a limit. -/
def timeLeft (w : World T K R S) (t : T) : Nat :=
  match w.wakeAt t with
  | some e => e - w.now
  | none => 0

variable (w : World T K R S) (t u : T) (k : K) (r : R) (e : Nat)

@[simp] theorem give_current : (w.give t).current = some t := rfl
@[simp] theorem give_place : (w.give t).place = w.place := rfl
@[simp] theorem give_shared : (w.give t).shared = w.shared := rfl
@[simp] theorem give_now : (w.give t).now = w.now := rfl
@[simp] theorem give_wakeAt : (w.give t).wakeAt = w.wakeAt := rfl
@[simp] theorem give_status : (w.give t).status = update w.status t .running := rfl
@[simp] theorem give_timeLeft : (w.give t).timeLeft u = w.timeLeft u := rfl

@[simp] theorem wake_current : (w.wake t).current = w.current := by unfold wake; split <;> rfl
@[simp] theorem wake_place : (w.wake t).place = w.place := by unfold wake; split <;> rfl
@[simp] theorem wake_shared : (w.wake t).shared = w.shared := by unfold wake; split <;> rfl
@[simp] theorem wake_now : (w.wake t).now = w.now := by unfold wake; split <;> rfl
@[simp] theorem wake_wakeAt : (w.wake t).wakeAt = w.wakeAt := by unfold wake; split <;> rfl

@[simp] theorem wakeAll_nil : w.wakeAll [] = w := rfl
section

variable (ts : List T)

@[simp] theorem wakeAll_cons : w.wakeAll (t :: ts) = (w.wake t).wakeAll ts := rfl

@[simp] theorem wakeAll_current : (w.wakeAll ts).current = w.current := by
  induction ts generalizing w with
  | nil => rfl
  | cons t ts ih => simp [ih]

@[simp] theorem wakeAll_place : (w.wakeAll ts).place = w.place := by
  induction ts generalizing w with
  | nil => rfl
  | cons t ts ih => simp [ih]

@[simp] theorem wakeAll_shared : (w.wakeAll ts).shared = w.shared := by
  induction ts generalizing w with
  | nil => rfl
  | cons t ts ih => simp [ih]

@[simp] theorem wakeAll_now : (w.wakeAll ts).now = w.now := by
  induction ts generalizing w with
  | nil => rfl
  | cons t ts ih => simp [ih]

@[simp] theorem wakeAll_wakeAt : (w.wakeAll ts).wakeAt = w.wakeAt := by
  induction ts generalizing w with
  | nil => rfl
  | cons t ts ih => simp [ih]

@[simp] theorem ret_current : (w.ret t r).current = w.current := rfl
@[simp] theorem ret_status : (w.ret t r).status = w.status := rfl
@[simp] theorem ret_shared : (w.ret t r).shared = w.shared := rfl
@[simp] theorem ret_now : (w.ret t r).now = w.now := rfl
@[simp] theorem ret_place : (w.ret t r).place = update w.place t (.own (some r)) := rfl

@[simp] theorem sleep_current : (w.sleep t k).current = none := rfl
@[simp] theorem sleep_status : (w.sleep t k).status = update w.status t .blocked := rfl
@[simp] theorem sleep_shared : (w.sleep t k).shared = w.shared := rfl
@[simp] theorem sleep_now : (w.sleep t k).now = w.now := rfl
@[simp] theorem sleep_place : (w.sleep t k).place = update w.place t (.inside k) := rfl

@[simp] theorem sleepUntil_current : (w.sleepUntil t k e).current = none := rfl
@[simp] theorem sleepUntil_status : (w.sleepUntil t k e).status = update w.status t .blocked := rfl
@[simp] theorem sleepUntil_shared : (w.sleepUntil t k e).shared = w.shared := rfl
@[simp] theorem sleepUntil_now : (w.sleepUntil t k e).now = w.now := rfl
@[simp] theorem sleepUntil_place : (w.sleepUntil t k e).place = update w.place t (.inside k) := rfl

@[simp] theorem yieldAt_current : (w.yieldAt t k).current = none := rfl
@[simp] theorem yieldAt_status : (w.yieldAt t k).status = update w.status t .active := rfl
@[simp] theorem yieldAt_shared : (w.yieldAt t k).shared = w.shared := rfl
@[simp] theorem yieldAt_now : (w.yieldAt t k).now = w.now := rfl
@[simp] theorem yieldAt_place : (w.yieldAt t k).place = update w.place t (.inside k) := rfl

theorem wake_status_blocked : (w.wake t).status u = .blocked ↔ u ≠ t ∧ w.status u = .blocked := by
  unfold wake
  split
  · by_cases same : u = t
    · subst same; simp
    · simp [same]
  next awake =>
    constructor
    · exact fun h => ⟨fun same => awake (same ▸ h), h⟩
    · exact fun h => h.2

theorem wakeAll_status_blocked : (w.wakeAll ts).status u = .blocked ↔ u ∉ ts ∧ w.status u = .blocked := by
  induction ts generalizing w with
  | nil => simp
  | cons t ts ih =>
    rw [wakeAll_cons, ih, wake_status_blocked, List.mem_cons]
    tauto

end

/-- The thread in control, and it alone, is running. -/
def Controlled (w : World T K R S) : Prop := ∀ t, w.status t = .running ↔ w.current = some t

variable {w t u k r e}

theorem Controlled.wake (one : Controlled w) : Controlled (w.wake u) := by
  intro t
  unfold World.wake
  split
  next asleep =>
    by_cases same : t = u
    · subst same
      have other : w.current ≠ some t := fun here => by simp [(one t).mpr here] at asleep
      simp [other]
    · simpa [same] using one t
  next => exact one t

variable {v x : World T K R S}

theorem Controlled.leave (one : Controlled w) (here : w.current = some t)
    (none : v.current = none) (others : ∀ u, u ≠ t → v.status u = w.status u)
    (stops : v.status t ≠ .running) : Controlled v := by
  intro u
  by_cases same : u = t
  · subst same; simp [none, stops]
  · rw [others u same, none, one u, here]
    simpa using fun h => same h.symm

theorem Controlled.give (one : Controlled w) (nobody : w.current = none) : Controlled (w.give t) := by
  intro u
  by_cases same : u = t
  · subst same; simp
  · have idle : w.status u ≠ .running := fun h => by simp [(one u).mp h] at nobody
    simpa [same, idle] using fun h => same h.symm

/-- A thread that will run again without being woken. -/
def Runnable (w : World T K R S) (t : T) : Prop := w.status t ≠ .blocked ∧ w.status t ≠ .dead

/-- What a step of `t` can do to the threads: it moves `t` alone, kills none, and puts
none but `t` to sleep. -/
structure Spares (t : T) (w v : World T K R S) : Prop where
  place : ∀ u, u ≠ t → v.place u = w.place u
  dead : ∀ u, v.status u = .dead → w.status u = .dead
  asleep : ∀ u, u ≠ t → v.status u = .blocked → w.status u = .blocked

/-- What the code that `t` runs can do besides: it keeps control or gives it up. -/
structure Moves (t : T) (w v : World T K R S) : Prop extends Spares t w v where
  others : ∀ u, u ≠ t → (v.status u = .running ↔ w.status u = .running)
  control : (v.current = w.current ∧ (v.status t = .running ↔ w.status t = .running)) ∨
    (v.current = none ∧ v.status t ≠ .running)

section

omit [DecidableEq T]

theorem Spares.trans (first : Spares t w v) (second : Spares t v x) : Spares t w x where
  place u other := (second.place u other).trans (first.place u other)
  dead u h := first.dead u (second.dead u h)
  asleep u other h := first.asleep u other (second.asleep u other h)

theorem Spares.runnable (spares : Spares t w v) (other : u ≠ t) (ready : w.Runnable u) : v.Runnable u :=
  ⟨fun h => ready.1 (spares.asleep u other h), fun h => ready.2 (spares.dead u h)⟩

end

theorem Spares.give (w : World T K R S) (t : T) : Spares t w (w.give t) where
  place _ _ := rfl
  dead u h := by
    by_cases same : u = t
    · subst same; simp at h
    · simpa [same] using h
  asleep u other h := by simpa [other] using h

section

omit [DecidableEq T]

theorem Moves.of_eq (place : v.place = w.place) (status : v.status = w.status)
    (current : v.current = w.current) : Moves t w v where
  place _ _ := by rw [place]
  dead _ h := status ▸ h
  asleep _ _ h := status ▸ h
  others _ _ := by rw [status]
  control := .inl ⟨current, by rw [status]⟩

theorem Moves.refl (t : T) (w : World T K R S) : Moves t w w := .of_eq rfl rfl rfl

theorem Moves.trans (first : Moves t w v) (second : Moves t v x) : Moves t w x where
  toSpares := first.toSpares.trans second.toSpares
  others u other := (second.others u other).trans (first.others u other)
  control := by
    rcases second.control with ⟨kept, same⟩ | left
    · rcases first.control with ⟨kept', same'⟩ | ⟨nobody, stopped⟩
      · exact .inl ⟨kept.trans kept', same.trans same'⟩
      · exact .inr ⟨kept.trans nobody, fun h => stopped (same.mp h)⟩
    · exact .inr left

end

theorem wake_status_dead : (w.wake t).status u = .dead ↔ w.status u = .dead := by
  unfold wake
  split
  next asleep =>
    by_cases same : u = t
    · subst same; simp [asleep]
    · simp [same]
  next => rfl

theorem wake_status_running : (w.wake t).status u = .running ↔ w.status u = .running := by
  unfold wake
  split
  next asleep =>
    by_cases same : u = t
    · subst same; simp [asleep]
    · simp [same]
  next => rfl

section

variable (w : World T K R S)

theorem Moves.wake (t u : T) : Moves t w (w.wake u) where
  place _ _ := by simp
  dead _ h := wake_status_dead.mp h
  asleep x _ h := ((w.wake_status_blocked u x).mp h).2
  others _ _ := wake_status_running
  control := .inl ⟨by simp, wake_status_running⟩

theorem Moves.wakeAll (t : T) (us : List T) : Moves t w (w.wakeAll us) := by
  induction us generalizing w with
  | nil => exact .refl t w
  | cons u us ih => exact (Moves.wake w t u).trans (ih _)

theorem Moves.ret (t : T) (r : R) : Moves t w (w.ret t r) where
  place u other := by simp [other]
  dead _ := id
  asleep _ _ := id
  others _ _ := .rfl
  control := .inl ⟨rfl, .rfl⟩

end

theorem Moves.of_stop (st : Status) (lives : st ≠ .dead) (stops : st ≠ .running)
    (place : ∀ u, u ≠ t → v.place u = w.place u) (status : v.status = update w.status t st)
    (current : v.current = none) : Moves t w v where
  place := place
  dead u h := by
    by_cases same : u = t
    · subst same; exact absurd (by simpa [status] using h) lives
    · simpa [status, same] using h
  asleep u other h := by simpa [status, other] using h
  others u other := by simp [status, other]
  control := .inr ⟨current, by simpa [status] using stops⟩

section

variable (w : World T K R S)

theorem Moves.sleep (t : T) (k : K) : Moves t w (w.sleep t k) :=
  .of_stop .blocked (by simp) (by simp) (fun u other => by simp [other]) rfl rfl

theorem Moves.sleepUntil (t : T) (k : K) (e : Nat) : Moves t w (w.sleepUntil t k e) :=
  .of_stop .blocked (by simp) (by simp) (fun u other => by simp [other]) rfl rfl

theorem Moves.yieldAt (t : T) (k : K) : Moves t w (w.yieldAt t k) :=
  .of_stop .active (by simp) (by simp) (fun u other => by simp [other]) rfl rfl

end

omit [DecidableEq T] in
theorem Moves.controlled (moves : Moves t w v) (here : w.current = some t) (one : w.Controlled) : v.Controlled := by
  have mine : w.status t = .running := (one t).mpr here
  intro u
  by_cases same : u = t
  · subst same
    rcases moves.control with ⟨kept, running⟩ | ⟨nobody, stopped⟩
    · simp [kept, here, running, mine]
    · simp [nobody, stopped]
  · have idle : v.status u ≠ .running := fun h => by
      have also := (one u).mp ((moves.others u same).mp h)
      exact same (some.inj (also.symm.trans here))
    have away : v.current ≠ some u := by
      rcases moves.control with ⟨kept, -⟩ | ⟨nobody, -⟩
      · rw [kept, here]; exact fun h => same (some.inj h).symm
      · simp [nobody]
    simp [idle, away]

theorem wake_runnable (lives : w.status t ≠ .dead) : (w.wake t).Runnable t :=
  ⟨fun h => ((w.wake_status_blocked t t).mp h).1 rfl, fun h => lives (wake_status_dead.mp h)⟩

end World

/-- The operations of a shared state as threads run them: `enter` runs an operation
from its call to its first switch of control or its return, `resume` runs it on from
the point `k`, with what the environment `E` answers there. -/
structure Program (T K R S O E : Type*) where
  start : S → Prop
  enter : T → O → World T K R S → World T K R S
  resume : T → K → E → World T K R S → World T K R S

/-- `yield`, `park` and `exit` stand for whatever else a thread's own code does that
gives control up, `wake` for a wake that comes from outside these operations. -/
inductive Act (T O E : Type*)
  | dispatch (t : T) (e : E)
  | call (t : T) (o : O)
  | yield (t : T)
  | park (t : T)
  | exit (t : T)
  | wake (t : T)
  | expire (t : T)
  | tick
  deriving DecidableEq, Repr

namespace Program

variable {T K R S O E : Type*} [DecidableEq T] (P : Program T K R S O E)

/-- A thread gives control up in its own code and becomes `st`. -/
def leave (w : World T K R S) (t : T) (st : Status) : Option (World T K R S) :=
  match w.place t with
  | .own _ =>
    if w.current = some t then
      some { w with current := none, status := update w.status t st }
    else none
  | .inside _ => none

def step (w : World T K R S) : Act T O E → Option (World T K R S)
  | .dispatch t e =>
    if w.current = none ∧ w.status t = .active then
      match w.place t with
      | .own _ => some (w.give t)
      | .inside k => some (P.resume t k e (w.give t))
    else none
  | .call t o =>
    match w.place t with
    | .own _ => if w.current = some t then some (P.enter t o w) else none
    | .inside _ => none
  | .yield t => leave w t .active
  | .park t => leave w t .blocked
  | .exit t => leave w t .dead
  | .wake t => if w.status t = .blocked then some (w.wake t) else none
  | .expire t =>
    match w.wakeAt t with
    | some e =>
      if w.current = none ∧ w.status t = .blocked ∧ e ≤ w.now then some (w.wake t) else none
    | none => none
  | .tick => if w.current = none then some { w with now := w.now + 1 } else none

/-- A run starts on the main context; the threads there are in their own code. -/
structure Start (w : World T K R S) : Prop where
  main : w.current = none
  ready : ∀ t, w.status t = .active ∨ w.status t = .dead
  own : ∀ t, w.place t = .own none
  shared : P.start w.shared

def machine : Machine (World T K R S) (Act T O E) where
  init := P.Start
  step := P.step

/-- What a step outside the operations can do: the shared state and every place stay,
and only a thread in its own code goes to sleep or dies. -/
structure Idle (w v : World T K R S) : Prop where
  shared : v.shared = w.shared
  place : v.place = w.place
  asleep : ∀ t, v.status t = .blocked → w.status t = .blocked ∨ ∃ r, w.place t = .own r
  dead : ∀ t, v.status t = .dead → w.status t = .dead ∨ ∃ r, w.place t = .own r
  controlled : w.Controlled → v.Controlled

variable {P}

variable {w v s : World T K R S} {st : Status} {t : T} {k : K} {a : Act T O E}

theorem Idle.of_wake (t : T) : Idle w (w.wake t) where
  shared := by simp
  place := by simp
  asleep u h := .inl ((w.wake_status_blocked t u).mp h).2
  dead u h := .inl (World.wake_status_dead.mp h)
  controlled one := one.wake

theorem Idle.of_leave (stops : st ≠ .running) (run : leave w t st = some v) : Idle w v := by
  unfold leave at run
  split at run
  next r own =>
    split at run
    next here =>
      cases some.inj run
      have mine : ∀ u x, update w.status t st u = x → w.status u = x ∨ ∃ r, w.place u = .own r := by
        intro u x h
        by_cases same : u = t
        · exact .inr ⟨r, same ▸ own⟩
        · exact .inl (by simpa [same] using h)
      exact ⟨rfl, rfl, fun u => mine u _, fun u => mine u _, fun one =>
        one.leave here rfl (by simp +contextual [update]) (by simpa using stops)⟩
    next => cases run
  next => cases run

theorem leave_asleep {u : T} (run : leave w t st = some v) (inside : w.place u = .inside k)
    (asleep : w.status u = .blocked) : v.status u = .blocked := by
  unfold leave at run
  split at run
  next r own =>
    split at run
    · cases some.inj run
      have other : u ≠ t := fun same => by simp [same, own] at inside
      simpa [other] using asleep
    next => cases run
  next => cases run

theorem step_call {o : O} (run : P.step w (.call t o : Act T O E) = some v) :
    (∃ r, w.place t = .own r) ∧ w.current = some t ∧ v = P.enter t o w := by
  simp only [step] at run
  split at run
  next r own =>
    split at run
    next here => exact ⟨⟨r, own⟩, here, (some.inj run).symm⟩
    next => cases run
  next => cases run

theorem step_resume {e : E} (inside : w.place t = .inside k)
    (run : P.step w (.dispatch t e : Act T O E) = some v) : v = P.resume t k e (w.give t) := by
  simp only [step, inside] at run
  split at run
  next => exact (some.inj run).symm
  next => cases run

/-- Everything a step can be, and who can be woken by one that is not of the code of an operation. -/
theorem step_kinds (run : P.step w a = some v) :
    (∃ t o r, a = .call t o ∧ w.current = some t ∧ w.place t = .own r ∧ v = P.enter t o w) ∨
    (∃ t e k, a = .dispatch t e ∧ w.current = none ∧ w.status t = .active ∧
      w.place t = .inside k ∧ v = P.resume t k e (w.give t)) ∨
    (Idle w v ∧ ∀ t k, w.place t = .inside k → w.status t = .blocked →
      v.status t = .blocked ∨ a = .wake t ∨ a = .expire t) := by
  cases a with
  | dispatch t e =>
    simp only [step] at run
    split at run
    next ready =>
      split at run
      next r own =>
        cases some.inj run
        have spares := World.Spares.give w t
        refine .inr (.inr ⟨⟨rfl, rfl, fun u h => ?_, fun u h => .inl (spares.dead u h),
          fun one => one.give ready.1⟩, fun u k inside asleep => .inl ?_⟩)
        · by_cases same : u = t
          · exact .inr ⟨r, same ▸ own⟩
          · exact .inl (spares.asleep u same h)
        · have other : u ≠ t := fun same => by simp [same, ready.2] at asleep
          simpa [other] using asleep
      next k inside =>
        cases some.inj run
        exact .inr (.inl ⟨t, e, k, rfl, ready.1, ready.2, inside, rfl⟩)
    next => cases run
  | call t o =>
    obtain ⟨⟨r, own⟩, here, rfl⟩ := step_call run
    exact .inl ⟨t, o, r, rfl, here, own, rfl⟩
  | yield t =>
    exact .inr (.inr ⟨.of_leave (by simp) run, fun _ _ inside asleep => .inl (leave_asleep run inside asleep)⟩)
  | park t =>
    exact .inr (.inr ⟨.of_leave (by simp) run, fun _ _ inside asleep => .inl (leave_asleep run inside asleep)⟩)
  | exit t =>
    exact .inr (.inr ⟨.of_leave (by simp) run, fun _ _ inside asleep => .inl (leave_asleep run inside asleep)⟩)
  | wake t =>
    simp only [step] at run
    split at run
    next =>
      cases some.inj run
      refine .inr (.inr ⟨.of_wake t, fun u k _ asleep => ?_⟩)
      by_cases same : u = t
      · exact .inr (.inl (by rw [same]))
      · exact .inl ((w.wake_status_blocked t u).mpr ⟨same, asleep⟩)
    next => cases run
  | expire t =>
    simp only [step] at run
    split at run
    next =>
      split at run
      next =>
        cases some.inj run
        refine .inr (.inr ⟨.of_wake t, fun u k _ asleep => ?_⟩)
        by_cases same : u = t
        · exact .inr (.inr (by rw [same]))
        · exact .inl ((w.wake_status_blocked t u).mpr ⟨same, asleep⟩)
      next => cases run
    next => cases run
  | tick =>
    simp only [step] at run
    split at run
    next =>
      cases some.inj run
      exact .inr (.inr ⟨⟨rfl, rfl, fun _ => .inl, fun _ => .inl, id⟩, fun _ _ _ => .inl⟩)
    next => cases run

theorem step_cases (run : P.step w a = some v) :
    (∃ t o r, a = .call t o ∧ w.current = some t ∧ w.place t = .own r ∧ v = P.enter t o w) ∨
    (∃ t e k, a = .dispatch t e ∧ w.current = none ∧ w.status t = .active ∧
      w.place t = .inside k ∧ v = P.resume t k e (w.give t)) ∨
    Idle w v := by
  rcases step_kinds run with call | resume | idle
  · exact .inl call
  · exact .inr (.inl resume)
  · exact .inr (.inr idle.1)

omit [DecidableEq T] in
theorem Start.controlled (first : P.Start w) : w.Controlled := by
  intro t
  rcases first.ready t with h | h <;> simp [h, first.main]

/-- The code of every operation moves the thread that runs it. -/
structure Cooperative (P : Program T K R S O E) : Prop where
  enter : ∀ t o w, World.Moves t w (P.enter t o w)
  resume : ∀ t k e w, World.Moves t w (P.resume t k e w)

variable {C : World T K R S → Act T O E → Prop}

theorem Cooperative.controlled (moves : P.Cooperative) (reach : P.machine.ReachBy C s) : s.Controlled := by
  refine reach.invariant (I := World.Controlled) (fun _ first => Start.controlled first) fun s a v one _ run => ?_
  rcases step_cases run with ⟨t, o, r, rfl, here, -, rfl⟩ | ⟨t, e, k, rfl, nobody, -, -, rfl⟩ | idle
  · exact (moves.enter t o s).controlled here one
  · exact (moves.resume t k e (s.give t)).controlled rfl (one.give nobody)
  · exact idle.controlled one

theorem Cooperative.inside_alive (moves : P.Cooperative) (reach : P.machine.ReachBy C s)
    (inside : s.place t = .inside k) :
    s.status t ≠ .dead := by
  have alive : ∀ t k, s.place t = .inside k → s.status t ≠ .dead := by
    refine reach.invariant' (I := fun s => ∀ t k, s.place t = .inside k → s.status t ≠ .dead)
      (fun s first t k inside => by simp [first.own t] at inside) fun s a v before ih _ run => ?_
    intro u k inside dead
    rcases step_cases run with ⟨t, o, r, rfl, here, -, rfl⟩ | ⟨t, e, k', rfl, -, ready, -, rfl⟩ | idle
    · have still := (moves.enter t o s).dead u dead
      by_cases same : u = t
      · have running := (moves.controlled before u).mpr (same ▸ here)
        simp [running] at still
      · exact ih u k ((moves.enter t o s).place u same ▸ inside) still
    · have spares := (World.Spares.give s t).trans (moves.resume t k' e (s.give t)).toSpares
      have still := spares.dead u dead
      by_cases same : u = t
      · simp [same, ready] at still
      · exact ih u k (spares.place u same ▸ inside) still
    · rcases idle.dead u dead with still | ⟨r, own⟩
      · exact ih u k (idle.place ▸ inside) still
      · rw [idle.place, own] at inside
        cases inside
  exact alive t k inside

end Program

end Coroutine
