import Dce.Lib.Machine

/- The exit handlers of a process: `dce_atexit`, `dce___cxa_atexit` and `dce___cxa_finalize`, called by any of its
threads and by the handlers themselves. -/

namespace Dce.Processes.AtExit

/-- Functions, arguments and objects are numbers, and zero is the null pointer. -/
inductive AtExitHandler
  | NORMAL (normal : Nat)
  | CXA (fn arg d : Nat)
  deriving DecidableEq, Repr

/-- The back of the vector comes first. `finalizing` tells the calls of `dce___cxa_finalize` that a thread is in,
the innermost one first, by their argument: each of them is running a handler. -/
structure Process (T : Type*) where
  atExitHandlers : List AtExitHandler
  finalizing : T → List Nat

inductive Label (T : Type*)
  | atexit (t : T) (function : Nat)
  | cxa_atexit (t : T) (func arg d : Nat)
  | finalize (t : T) (d : Nat)
  | handlerReturns (t : T)
  deriving DecidableEq, Repr

/-- What a step comes to. -/
inductive Outcome
  | registered (handler : AtExitHandler)
  | runs (d : Nat) (handler : AtExitHandler)
  | returned (d : Nat)
  deriving DecidableEq, Repr

/-- `dce___cxa_finalize (d)` runs the handler when it comes to it. -/
def RunsFor (d : Nat) : AtExitHandler → Prop
  | .CXA _ _ object => d = 0 ∨ object = d
  | .NORMAL _ => d = 0

instance (d : Nat) : DecidablePred (RunsFor d)
  | .CXA _ _ _ => inferInstanceAs (Decidable (_ ∨ _))
  | .NORMAL _ => inferInstanceAs (Decidable (_ = _))

/-- The loop, up to the next handler that it runs. -/
def takeNext (d : Nat) : List AtExitHandler → Option AtExitHandler × List AtExitHandler
  | [] => (none, [])
  | handler :: rest => if RunsFor d handler then (some handler, rest) else takeNext d rest

variable {T : Type*} [DecidableEq T]

def dce_atexit (function : Nat) (s : Process T) : Process T × Outcome :=
  ({ s with atExitHandlers := .NORMAL function :: s.atExitHandlers }, .registered (.NORMAL function))

def dce___cxa_atexit (func arg d : Nat) (s : Process T) : Process T × Outcome :=
  ({ s with atExitHandlers := .CXA func arg d :: s.atExitHandlers }, .registered (.CXA func arg d))

/-- From the head of the loop on; `outer` are the calls that this one is inside of. -/
def finalize (t : T) (d : Nat) (outer : List Nat) (s : Process T) : Process T × Outcome :=
  match takeNext d s.atExitHandlers with
  | (some handler, rest) => (⟨rest, Function.update s.finalizing t (d :: outer)⟩, .runs d handler)
  | (none, rest) => (⟨rest, Function.update s.finalizing t outer⟩, .returned d)

def respond (s : Process T) : Label T → Option (Process T × Outcome)
  | .atexit _ function => some (dce_atexit function s)
  | .cxa_atexit _ func arg d => some (dce___cxa_atexit func arg d s)
  | .finalize t d => some (finalize t d (s.finalizing t) s)
  | .handlerReturns t =>
    match s.finalizing t with
    | [] => none
    | d :: outer => some (finalize t d outer s)

def machine : Machine (Process T) (Label T) where
  init s := s = ⟨[], fun _ => []⟩
  step s a := (respond s a).map Prod.fst

/-- The handlers that are registered and have not run, the last one first. The outcome of a step leads from
`registered` to `registered'` in the way that is wanted: a handler is run that is the last one of the object, and
a call returns when none of the object is left. -/
inductive Follows : List AtExitHandler → Outcome → List AtExitHandler → Prop
  | registered {handlers handler} : Follows handlers (.registered handler) (handler :: handlers)
  | runs {later handler earlier d} : RunsFor d handler → (∀ other ∈ later, ¬ RunsFor d other) →
      Follows (later ++ handler :: earlier) (.runs d handler) (later ++ earlier)
  | returned {handlers d} : (∀ handler ∈ handlers, ¬ RunsFor d handler) → Follows handlers (.returned d) handlers

/-- The step does what is wanted with the handlers of the process. -/
def Lawful (s : Process T) (a : Label T) : Prop :=
  ∃ s' outcome, respond s a = some (s', outcome) ∧ Follows s.atExitHandlers outcome s'.atExitHandlers

/-- Where the loop goes on, the last handler is one that it runs. -/
def LastRuns (d : Nat) (handlers : List AtExitHandler) : Prop :=
  ∀ handler, handlers.head? = some handler → RunsFor d handler

def Careful (s : Process T) : Label T → Prop
  | .finalize _ d => LastRuns d s.atExitHandlers
  | .handlerReturns t => ∀ d, (s.finalizing t).head? = some d → LastRuns d s.atExitHandlers
  | _ => True

section

variable {s : Process T} {d : Nat} {t : T} {a : Label T} {outer : List Nat} {handler : AtExitHandler}
  {handlers rest : List AtExitHandler}

theorem Follows.length_of_runs (follows : Follows handlers (.runs d handler) rest) :
    handlers.length = rest.length + 1 := by
  cases follows with
  | runs => simp only [List.length_append, List.length_cons]; omega

theorem Follows.eq_of_returned (follows : Follows handlers (.returned d) rest) : rest = handlers := by
  cases follows with
  | returned => rfl

theorem length_takeNext_some (found : takeNext d handlers = (some handler, rest)) :
    rest.length < handlers.length := by
  induction handlers with
  | nil => cases found
  | cons first handlers ih =>
    rw [takeNext] at found
    split at found
    · cases found
      exact Nat.lt_succ_self _
    · exact (ih found).trans (Nat.lt_succ_self _)

theorem takeNext_none (found : takeNext d handlers = (none, rest)) : rest = [] := by
  induction handlers with
  | nil => cases found; rfl
  | cons first handlers ih =>
    rw [takeNext] at found
    split at found
    · cases found
    · exact ih found

/-- A loop that passes a handler loses it. -/
theorem finalize_follows_iff (s : Process T) (t : T) (d : Nat) (outer : List Nat) :
    Follows s.atExitHandlers (finalize t d outer s).2 (finalize t d outer s).1.atExitHandlers ↔
    LastRuns d s.atExitHandlers := by
  obtain ⟨handlers, finalizing⟩ := s
  cases handlers with
  | nil => exact iff_of_true (.returned fun _ wrong => by cases wrong) fun _ wrong => by cases wrong
  | cons first handlers =>
    by_cases here : RunsFor d first
    · have taken : takeNext d (first :: handlers) = (some first, handlers) := if_pos here
      simp only [finalize, taken]
      have follows : Follows ([] ++ first :: handlers) (.runs d first) ([] ++ handlers) :=
        .runs here fun _ wrong => by cases wrong
      exact iff_of_true follows fun _ same => by cases same; exact here
    · have passed : takeNext d (first :: handlers) = takeNext d handlers := if_neg here
      simp only [finalize, passed]
      refine iff_of_false (fun follows => ?_) fun last => here (last first rfl)
      cases found : takeNext d handlers with
      | mk next rest =>
        rw [found] at follows
        cases next with
        | none =>
          have same : rest = first :: handlers := follows.eq_of_returned
          rw [takeNext_none found] at same
          cases same
        | some handler =>
          have counted : (first :: handlers).length = rest.length + 1 := follows.length_of_runs
          have fewer := length_takeNext_some found
          rw [List.length_cons] at counted
          omega

/-- A step that the process can take is lawful exactly if it is careful. -/
theorem lawful_iff {s' : Process T} {outcome : Outcome} (does : respond s a = some (s', outcome)) :
    Lawful s a ↔ Careful s a := by
  have lawful_iff : Lawful s a ↔ Follows s.atExitHandlers outcome s'.atExitHandlers := by
    constructor
    · rintro ⟨s₁, outcome₁, same, follows⟩
      cases does.symm.trans same
      exact follows
    · exact fun follows => ⟨s', outcome, does, follows⟩
  rw [lawful_iff]
  cases a with
  | atexit t function => cases does; exact iff_of_true .registered trivial
  | cxa_atexit t func arg d => cases does; exact iff_of_true .registered trivial
  | finalize t d =>
    have exactly := finalize_follows_iff s t d (s.finalizing t)
    rwa [show finalize t d (s.finalizing t) s = (s', outcome) from Option.some.inj does] at exactly
  | handlerReturns t =>
    cases inside : s.finalizing t with
    | nil => simp only [respond, inside] at does; cases does
    | cons d outer =>
      simp only [respond, inside] at does
      have exactly := finalize_follows_iff s t d outer
      rw [Option.some.inj does] at exactly
      refine exactly.trans ⟨fun last d' same => ?_, fun careful => careful d (by rw [inside]; rfl)⟩
      rw [inside] at same
      cases same
      exact last

end

/-- All calls of a run run and leave the handlers that they should exactly if each time that a call goes on to its
next handler the last one of the list is one that it runs. -/
theorem finalize_lawful_iff {s : Process T} {k : Machine.Verdict}
    (reach : (machine.judged Careful Lawful).Reach (s, k)) :
    k.good ↔ k.careful :=
  Machine.judged_iff (fun _ => True) (fun _ _ => trivial) (fun _ _ _ _ run => by
      obtain ⟨r, does, -⟩ := Option.map_eq_some_iff.mp run
      exact ⟨lawful_iff does, fun _ => trivial⟩) reach

/-- A handler of the object 7 registers another one while it runs. -/
theorem finalize_lawful_with_register : ∃ p : Process Bool × Machine.Verdict, (machine.judged Careful Lawful).replay
    (⟨[], fun _ => []⟩, ⟨True, True⟩) [.cxa_atexit true 1 0 7, .finalize true 7, .cxa_atexit true 2 0 7,
      .handlerReturns true, .handlerReturns true] = some p ∧ p.2.good := by
  let M := (machine (T := Bool)).judged Careful Lawful
  have run : M.replay (⟨[], fun _ => []⟩, ⟨True, True⟩) [.cxa_atexit true 1 0 7, .finalize true 7,
    .cxa_atexit true 2 0 7,
    .handlerReturns true, .handlerReturns true] = some _ := rfl
  have first : M.Reach (⟨[], fun _ => []⟩, ⟨True, True⟩) := .start ⟨rfl, rfl⟩
  have reach := first.replay (fun _ _ => trivial) run
  refine ⟨_, run, (finalize_lawful_iff reach).mpr ⟨⟨⟨⟨⟨trivial, trivial⟩, ?_⟩, trivial⟩, ?_⟩, ?_⟩⟩
  · intro handler last
    cases last
    exact .inr rfl
  · intro d same handler last
    cases same
    cases last
    exact .inr rfl
  · intro d same handler last
    cases last

/-- The handler of the object 8 is lost when the object 7 is finalized. -/
theorem not_lawful_finalize : ¬ ∀ (s : Process Bool) (a : Label Bool) s', machine.Reach s →
    machine.step s a = some s' →
    Lawful s a := by
  intro lawful
  have run : (machine (T := Bool)).replay ⟨[], fun _ => []⟩ [.cxa_atexit true 1 0 7,
    .cxa_atexit true 2 0 8] = some _ := rfl
  have first : (machine (T := Bool)).Reach ⟨[], fun _ => []⟩ := .start rfl
  have reach := first.replay (fun _ _ => trivial) run
  obtain ⟨s', outcome, same, follows⟩ := lawful _ (.finalize true 7) _ reach rfl
  cases same
  exact absurd follows.length_of_runs (by decide)

end Dce.Processes.AtExit
