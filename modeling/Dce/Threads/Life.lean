import Dce.Threads.Model

/- What the records of the threads go through, and that the calls do nothing else with them. -/

namespace Dce.Threads

open Function List Option

open Processes (Handler)

open Signals (sigaddset)

/-- A thread, without its signals. `calls` are the joins and the waits that it is in. -/
structure Record where
  tid : Nat
  exited : Bool
  asleep : Bool
  isDetached : Bool
  hasExitValue : Bool
  exitValue : Nat
  joinWaiter : Option Nat
  calls : List Frame

structure Life where
  threads : List Nat
  records : Nat → Option Record
  next : Nat
  waiting : Nat → Option Nat
  deleted : Bool

def Frame.blocks : Frame → Bool
  | .join _ => true
  | .wait _ => true
  | .signals _ _ _ => false

def Thread.record (thread : Thread) : Record where
  tid := thread.tid
  exited := thread.task.isNone
  asleep := thread.task = some .BLOCKED
  isDetached := thread.isDetached
  hasExitValue := thread.hasExitValue
  exitValue := thread.exitValue
  joinWaiter := thread.joinWaiter
  calls := thread.frames.filter Frame.blocks

def Process.life (s : Process) : Life where
  threads := s.threads
  records a := (s.heap a).map Thread.record
  next := s.nextThread
  waiting := s.m_waiting
  deleted := s.deleted

namespace Life

def set (a : Nat) (r : Record) (l : Life) : Life := { l with records := update l.records a (some r) }

def delete (a : Nat) (l : Life) : Life :=
  { l with threads := l.threads.erase a, records := update l.records a none }

def wake (a : Nat) (l : Life) : Life :=
  { l with records := update l.records a ((l.records a).map fun r => { r with asleep := false }) }

def wakeJoiner (joinWaiter : Option Nat) (l : Life) : Life :=
  match joinWaiter with
  | some a => l.wake a
  | none => l

def born (tid : Nat) (l : Life) : Life :=
  { l.set l.next ⟨tid, false, false, false, false, 0, none, []⟩ with
    threads := l.threads ++ [l.next], next := l.next + 1 }

def torn (l : Life) : Life :=
  { l with threads := [], records := fun a => if a ∈ l.threads then none else l.records a, deleted := true }

/-- What a label does to the records where it meets no fault. -/
inductive Step (l : Life) : Label → Outcome → Life → Prop
  | same {label : Label} {outcome : Outcome} (quiet : ∀ a v, outcome ≠ .joined a v)
      (goesOn : ∀ a v, label ≠ .exit a v) :
      Step l label outcome l
  | wakes {label : Label} (a : Nat) (goesOn : ∀ b v, label ≠ .exit b v) : Step l label .done (l.wake a)
  | creates {a tid : Nat} (unused : ∀ b ∈ l.threads, ∀ r, l.records b = some r → r.tid ≠ tid) :
      Step l (.create a) .done (l.born tid)
  | tears {label : Label} (alone : ∀ a v, label = .exit a v → l.threads.length = 1 ∧ l.records a ≠ none) :
      Step l label .done l.torn
  | exits {a v : Nat} {r : Record} (known : l.records a = some r) (alive : r.exited = false)
      (joinable : r.isDetached = false) (others : l.threads.length ≠ 1) :
      Step l (.exit a v) .done ((l.wakeJoiner r.joinWaiter).set a
        { r with exited := true, asleep := false, hasExitValue := true, exitValue := v, calls := [] })
  | vanishes {a v : Nat} {r : Record} (known : l.records a = some r) (alive : r.exited = false)
      (detached : r.isDetached = true) (others : l.threads.length ≠ 1) : Step l (.exit a v) .done (l.delete a)
  | joins {a tid t : Nat} {u r : Record} (known : l.records a = some u) (alive : u.exited = false) (differ : t ≠ a)
      (target : l.records t = some r) (free : r.joinWaiter = none) (joinable : r.isDetached = false)
      (lives : r.hasExitValue = false) :
      Step l (.join a tid) .sleeps ((l.set t { r with joinWaiter := some a }).set a
        { u with asleep := true, calls := .join t :: u.calls })
  | reaps {a tid t : Nat} {r : Record} (target : l.records t = some r) (free : r.joinWaiter = none)
      (joinable : r.isDetached = false) (ended : r.hasExitValue = true) :
      Step l (.join a tid) (.joined t r.exitValue) (l.delete t)
  | sleepsAgain {a t : Nat} {u r : Record} {rest : List Frame} (known : l.records a = some u)
      (alive : u.exited = false)
      (inside : u.calls = .join t :: rest) (target : l.records t = some r) (lives : r.hasExitValue = false) :
      Step l (.proceed a) .sleeps ((l.set t { r with joinWaiter := some a }).set a { u with asleep := true })
  | returns {a t : Nat} {u r : Record} {rest : List Frame} (known : l.records a = some u) (alive : u.exited = false)
      (runs : u.asleep = false) (inside : u.calls = .join t :: rest) (target : l.records t = some r)
      (joinable : r.isDetached = false)
      (ended : r.hasExitValue = true) :
      Step l (.proceed a) (.joined t r.exitValue) ((l.set a { u with calls := rest }).delete t)
  | detaches {a tid t : Nat} {r : Record} (target : l.records t = some r) (htid : r.tid = tid)
      (free : r.joinWaiter = none)
      (joinable : r.isDetached = false) : Step l (.detach a tid) .done (l.set t { r with isDetached := true })
  | waits {a : Nat} {u : Record} (w : Nat) (known : l.records a = some u) (alive : u.exited = false) :
      Step l (.wait a) .sleeps { l.set a { u with asleep := true, calls := .wait w :: u.calls } with
        waiting := update l.waiting w (some a) }
  | waited {a w : Nat} {u : Record} {rest : List Frame} {outcome : Outcome} (known : l.records a = some u)
      (alive : u.exited = false) (runs : u.asleep = false) (inside : u.calls = .wait w :: rest)
      (quiet : ∀ b v, outcome ≠ .joined b v) :
      Step l (.proceed a) outcome { l.set a { u with calls := rest } with
        waiting := update l.waiting w none }

end Life

section

variable {s s' : Process} {a : Nat} {thread : Thread} {l : Life}

theorem bind_ok {α β : Type} {x : Except Fault α} {f : α → Except Fault β} {r : β} (h : x >>= f = .ok r) :
    ∃ v, x = .ok v ∧ f v = .ok r := by
  cases x with
  | error fault => exact absurd h (by simp [bind, Except.bind])
  | ok v => exact ⟨v, rfl, h⟩

theorem ok_bind {α β : Type} {v : α} {f : α → Except Fault β} : (Except.ok v >>= f) = f v := rfl

theorem deref_eq (h : s.heap a = some thread) : deref a s = .ok thread := by
  rw [deref, h]

theorem deref_ok (h : deref a s = .ok thread) : s.heap a = some thread := by
  rw [deref] at h
  split at h
  case h_1 found heq => exact heq.trans (congrArg some (Except.ok.inj h))
  case h_2 => cases h

theorem orFatal_ok {α : Type} {x : Option α} {v : α} (h : orFatal x = .ok v) : x = some v := by
  cases x with
  | none => exact absurd h (by simp [orFatal])
  | some w => exact congrArg some (Except.ok.inj h)

theorem m_state_ok {state : TaskState} (h : m_state thread = .ok state) : thread.task = some state := by
  rw [m_state] at h
  split at h
  case h_1 found heq => exact heq.trans (congrArg some (Except.ok.inj h))
  case h_2 => cases h

theorem life_records (h : s.heap a = some thread) : s.life.records a = some thread.record :=
  congrArg (Option.map Thread.record) h

@[simp]
theorem life_put : (s.put a thread).life = s.life.set a thread.record := by
  have hrecords : (fun b => (update s.heap a (some thread) b).map Thread.record) =
      update (fun b => (s.heap b).map Thread.record) a (some thread.record) := by
    funext b
    by_cases hb : b = a
    · rw [hb, update_self, update_self, map_some]
    · rw [update_of_ne hb, update_of_ne hb]
  rw [Process.life, Process.put, hrecords]
  rfl

theorem Life.set_known {r : Record} (h : l.records a = some r) : l.set a r = l := by
  rw [Life.set, ← h, update_eq_self]

theorem life_put_same {new : Thread} (h : s.heap a = some thread) (same : new.record = thread.record) :
    (s.put a new).life = s.life := by
  rw [life_put, same, Life.set_known (life_records h)]

theorem Life.wake_known {r : Record} (h : l.records a = some r) : l.wake a = l.set a { r with asleep := false } := by
  rw [Life.wake, Life.set, h, map_some]

theorem Wakeup_life (h : Wakeup a s = .ok s') : s'.life = s.life.wake a := by
  obtain ⟨thread, hthread, h⟩ := bind_ok h
  obtain ⟨state, hstate, h⟩ := bind_ok h
  have hrecord := life_records (deref_ok hthread)
  have htask := m_state_ok hstate
  rw [Life.wake_known hrecord]
  obtain rfl := Except.ok.inj h
  split
  · rw [life_put]
    refine congrArg (s.life.set a) ?_
    simp [Thread.record, htask]
  next hblocked =>
    have hasleep : thread.record.asleep = false := by simpa [Thread.record, htask] using hblocked
    rw [← hasleep, Life.set_known hrecord]

theorem DeleteThread_life (h : DeleteThread a s = .ok s') : s'.life = s.life.delete a := by
  obtain ⟨thread, -, h⟩ := bind_ok h
  obtain rfl := Except.ok.inj h
  have hrecords : (fun b => (update s.heap a none b).map Thread.record) =
      update (fun b => (s.heap b).map Thread.record) a none := by
    funext b
    by_cases hb : b = a
    · rw [hb, update_self, update_self, map_none]
    · rw [update_of_ne hb, update_of_ne hb]
  rw [Process.life, hrecords]
  rfl

theorem teardown_life : (teardown s).life = s.life.torn := by
  have hrecords : (fun a => (if a ∈ s.threads then none else s.heap a).map Thread.record) =
      fun a => if a ∈ s.threads then none else (s.heap a).map Thread.record := by
    funext a
    split <;> rfl
  rw [Process.life, teardown, hrecords]
  rfl

theorem wakeCandidate_life {signum : Nat} {l : List Nat} (h : wakeCandidate signum l s = .ok s') :
    s'.life = s.life ∨ ∃ a, s'.life = s.life.wake a := by
  induction l with
  | nil => exact .inl (congrArg Process.life (Except.ok.inj h).symm)
  | cons i rest ih =>
    obtain ⟨thread, -, h⟩ := bind_ok h
    split at h
    · exact ih h
    · obtain ⟨state, -, h⟩ := bind_ok h
      split at h
      · exact .inr ⟨i, Wakeup_life h⟩
      · exact ih h

theorem UtilsSendSignal_life {signum : Nat} (h : UtilsSendSignal signum s = .ok s') :
    s'.life = s.life ∨ ∃ a, s'.life = s.life.wake a := by
  have hlife := wakeCandidate_life h
  exact hlife

theorem caller_some (h : caller a s = some thread) :
    s.heap a = some thread ∧ thread.task = some .RUNNING ∧ thread.inProgram = true := by
  obtain ⟨hrunning, hprogram⟩ := filter_eq_some_iff.mp h
  obtain ⟨hthread, htask⟩ := filter_eq_some_iff.mp hrunning
  exact ⟨hthread, by simpa using htask, hprogram⟩

theorem record_awake {state : TaskState} (htask : thread.task = some state) (hstate : state ≠ .BLOCKED) :
    thread.record.exited = false ∧ thread.record.asleep = false := by
  simp [Thread.record, htask, hstate]

theorem mem_calls {t : Nat} : .join t ∈ thread.record.calls ↔ .join t ∈ thread.frames := by
  simp [Thread.record, Frame.blocks]

theorem record_exited : thread.record.exited = false ↔ thread.task ≠ none := by
  rw [ne_eq, ← isNone_iff_eq_none, Bool.not_eq_true]
  rfl

theorem Life.set_set (r r' : Record) : (l.set a r).set a r' = l.set a r' := by
  rw [Life.set, Life.set, Life.set, update_idem]

theorem Life.set_delete (r : Record) : (l.set a r).delete a = l.delete a := by
  rw [Life.set, Life.delete, Life.delete, update_idem]

theorem Life.set_comm {b : Nat} (ne : a ≠ b) (r r' : Record) : (l.set a r).set b r' = (l.set b r').set a r := by
  rw [Life.set, Life.set, Life.set, Life.set, update_comm ne.symm]

theorem CreateThread_ok {a : Nat} (h : CreateThread s = .ok (a, s')) : ∃ tid,
    (∀ b ∈ s.threads, ∀ other, s.heap b = some other → other.tid ≠ tid) ∧ a = s.nextThread ∧
      s'.heap = update s.heap s.nextThread (some (.new tid)) ∧
      s'.threads = s.threads ++ [s.nextThread] ∧ s'.nextThread = s.nextThread + 1 ∧ s'.m_waiting = s.m_waiting ∧
      s'.deleted = s.deleted := by
  obtain ⟨tid, htid, h⟩ := bind_ok h
  obtain ⟨rfl, rfl⟩ := Prod.mk.inj (Except.ok.inj h)
  refine ⟨tid, fun b hb other hother => ?_, rfl, rfl, rfl, rfl, rfl, rfl⟩
  have hfind := orFatal_ok htid
  have hall := find?_some hfind
  simp only [List.all_eq_true] at hall
  have hdiffer := hall b hb
  rw [hother] at hdiffer
  simpa using hdiffer

theorem dce_pthread_create_life (h : dce_pthread_create a s = .ok s') (hcaller : s.heap a = some thread)
    (htask : thread.task = some .RUNNING) :
    ∃ tid, (∀ b ∈ s.life.threads, ∀ r, s.life.records b = some r → r.tid ≠ tid) ∧ s'.life = s.life.born tid := by
  obtain ⟨⟨new, s₁⟩, hcreate, h⟩ := bind_ok h
  obtain ⟨first, -, h⟩ := bind_ok h
  obtain ⟨state, -, h⟩ := bind_ok h
  obtain ⟨fresh, hfresh, h⟩ := bind_ok h
  obtain ⟨self, hself, h⟩ := bind_ok h
  obtain ⟨tid, hunused, rfl, hheap, hthreads, hnext, hwaiting, hover⟩ := CreateThread_ok hcreate
  obtain rfl := Except.ok.inj h
  refine ⟨tid, fun b hb r hr => ?_, ?_⟩
  · obtain ⟨other, hother, rfl⟩ := map_eq_some_iff.mp hr
    exact hunused b hb other hother
  · have hnew := deref_ok hfresh
    rw [hheap, update_self] at hnew
    cases hnew
    have hself := deref_ok hself
    have hawake : self.task = some .ACTIVE ∨ self.task = some .RUNNING := by
      by_cases heq : a = s.nextThread
      · rw [heq, put_self] at hself
        exact .inl (congrArg Thread.task (some.inj hself)).symm
      · rw [put_other heq, hheap, update_of_ne heq, hcaller] at hself
        exact .inr ((congrArg Thread.task (some.inj hself)).symm.trans htask)
    have hsame : ({ self with task := some .ACTIVE } : Thread).record = self.record := by
      rcases hawake with hactive | hrunning
      · simp [Thread.record, hactive]
      · simp [Thread.record, hrunning]
    have hlife : s₁.life = { s.life.set s.nextThread (Thread.new tid).record with
        threads := s.threads ++ [s.nextThread], next := s.nextThread + 1 } := by
      rw [← life_put, Process.life, hheap, hthreads, hnext, hwaiting, hover]
      rfl
    rw [life_put_same hself hsame, life_put, hlife, Life.born, Life.set, Life.set]
    simp only [update_idem]
    rfl

theorem wakeJoiner_life {joinWaiter : Option Nat} (h : wakeJoiner joinWaiter s = .ok s') :
    s'.life = s.life.wakeJoiner joinWaiter := by
  cases joinWaiter with
  | none => exact congrArg Process.life (Except.ok.inj h).symm
  | some j => exact Wakeup_life h

theorem Life.set_wakeJoiner_records {r : Record} (joinWaiter : Option Nat) (hawake : r.asleep = false) :
    ((l.set a r).wakeJoiner joinWaiter).records a = some r := by
  cases joinWaiter with
  | none => exact update_self ..
  | some j =>
    by_cases hja : j = a
    · rw [hja, Life.wakeJoiner, Life.wake_known (update_self ..), ← hawake]
      exact update_self ..
    · exact (update_of_ne (Ne.symm hja) ..).trans (update_self ..)

theorem Life.set_wakeJoiner_set (joinWaiter : Option Nat) (r r' : Record) :
    ((l.set a r).wakeJoiner joinWaiter).set a r' = (l.wakeJoiner joinWaiter).set a r' := by
  cases joinWaiter with
  | none => exact Life.set_set r r'
  | some j =>
    by_cases hja : j = a
    · simp [hja, Life.wakeJoiner, Life.wake, Life.set]
    · simp only [Life.wakeJoiner, Life.wake, Life.set, update_of_ne hja, update_comm (Ne.symm hja), update_idem]

theorem dce_pthread_exit_life {v : Nat} (h : dce_pthread_exit a v s = .ok s') (hcaller : s.heap a = some thread)
    (htask : thread.task = some .RUNNING) : Life.Step s.life (.exit a v) .done s'.life := by
  have hknown := life_records hcaller
  obtain ⟨halive, hawake⟩ := record_awake htask (by decide)
  rw [dce_pthread_exit] at h
  split at h
  next hlength =>
    obtain rfl := Except.ok.inj h
    rw [teardown_life]
    refine .tears fun b w heq => ⟨hlength, ?_⟩
    obtain ⟨rfl, rfl⟩ := Label.exit.inj heq
    rw [hknown]
    simp
  next hlength =>
    obtain ⟨self, hself, h⟩ := bind_ok h
    obtain rfl := some.inj ((deref_ok hself).symm.trans hcaller)
    split at h
    next hdetached =>
      rw [DeleteThread_life h]
      exact .vanishes hknown halive hdetached hlength
    next hdetached =>
      obtain ⟨s₁, hwake, h⟩ := bind_ok h
      obtain ⟨last, hlast, h⟩ := bind_ok h
      obtain rfl := Except.ok.inj h
      have hwoken := wakeJoiner_life hwake
      have hsame := life_records (deref_ok hlast)
      have hended : ({ self with hasExitValue := true, exitValue := v } : Thread).record.asleep = false := hawake
      rw [hwoken, life_put, Life.set_wakeJoiner_records _ hended] at hsame
      have hrecord : ({ last with task := none, frames := [] } : Thread).record =
          { self.record with
            exited := true, asleep := false, hasExitValue := true, exitValue := v, calls := [] } := by
        have hlast : ({ last with task := none, frames := [] } : Thread).record =
            { last.record with exited := true, asleep := false, calls := [] } := rfl
        rw [hlast, ← some.inj hsame]
        rfl
      rw [life_put, hrecord, hwoken, life_put, Life.set_wakeJoiner_set]
      exact .exits hknown halive (by simpa [Thread.record] using hdetached) hlength

theorem joinLoop_life {t : Nat} {outcome : Outcome} (h : joinLoop a t s = .ok (s', outcome)) (ne : t ≠ a)
    (hcaller : s.heap a = some thread) :
    ∃ target, s.heap t = some target ∧
      ((target.hasExitValue = true ∧ target.isDetached = false ∧ outcome = .joined t target.exitValue ∧
        s'.life = s.life.delete t) ∨
      (target.hasExitValue = false ∧ outcome = .sleeps ∧
        s'.life = (s.life.set t { target.record with joinWaiter := some a }).set a
          { thread.record with exited := false, asleep := true, calls := .join t :: thread.record.calls })) := by
  obtain ⟨target, htarget, h⟩ := bind_ok h
  refine ⟨target, deref_ok htarget, ?_⟩
  split at h
  next hended =>
    split at h
    · cases h
    next hdetached =>
      obtain ⟨s₁, hdelete, h⟩ := bind_ok h
      obtain ⟨rfl, rfl⟩ := Prod.mk.inj (Except.ok.inj h)
      refine .inl ⟨hended, by simpa using hdetached, rfl, ?_⟩
      rw [DeleteThread_life hdelete, life_put, Life.set_delete]
  next hlives =>
    obtain ⟨self, hself, h⟩ := bind_ok h
    obtain ⟨rfl, rfl⟩ := Prod.mk.inj (Except.ok.inj h)
    have hsame := deref_ok hself
    rw [put_other ne.symm, hcaller] at hsame
    cases hsame
    refine .inr ⟨by simpa using hlives, rfl, ?_⟩
    rw [life_put, life_put]
    rfl

theorem SearchThread_some {tid t : Nat} (h : SearchThread tid s = some t) :
    t ∈ s.threads ∧ ∃ target, s.heap t = some target ∧ target.tid = tid := by
  refine ⟨mem_of_find?_eq_some h, ?_⟩
  have hany := find?_some h
  cases htarget : s.heap t with
  | none =>
    rw [htarget] at hany
    cases hany
  | some target =>
    rw [htarget] at hany
    exact ⟨target, rfl, by simpa using hany⟩

theorem dce_pthread_join_life {tid : Nat} {outcome : Outcome} (h : dce_pthread_join a tid s = .ok (s', outcome))
    (hcaller : s.heap a = some thread) (htask : thread.task = some .RUNNING) :
    Life.Step s.life (.join a tid) outcome s'.life := by
  obtain ⟨halive, -⟩ := record_awake htask (by decide)
  have failed : ∀ err, (.ok (s, .failed err) : Except Fault (Process × Outcome)) = .ok (s', outcome) →
      Life.Step s.life (.join a tid) outcome s'.life := by
    intro err heq
    obtain ⟨rfl, rfl⟩ := Prod.mk.inj (Except.ok.inj heq)
    exact .same nofun nofun
  obtain ⟨self, hself, h⟩ := bind_ok h
  cases (deref_ok hself).symm.trans hcaller
  split at h
  · exact failed _ h
  next hother =>
    split at h
    case h_1 => exact failed _ h
    case h_2 t hsearch =>
      obtain ⟨target, htarget, h⟩ := bind_ok h
      split at h
      · exact failed _ h
      next hfree =>
        obtain ⟨-, found, hfound, htid⟩ := SearchThread_some hsearch
        have hdiffer : t ≠ a := by
          rintro rfl
          cases hfound.symm.trans hcaller
          exact hother htid
        obtain ⟨r, hr, hloop⟩ := joinLoop_life h hdiffer hcaller
        cases hr.symm.trans (deref_ok htarget)
        simp only [not_or, not_not, Bool.not_eq_true] at hfree
        rcases hloop with ⟨hended, -, rfl, hlife⟩ | ⟨hlives, rfl, hlife⟩
        · rw [hlife]
          exact .reaps (life_records hr) hfree.2 hfree.1 hended
        · rw [hlife, ← halive]
          exact .joins (life_records hcaller) halive hdiffer (life_records hr) hfree.2 hfree.1 hlives

theorem dce_pthread_detach_life {tid : Nat} {outcome : Outcome} (h : dce_pthread_detach tid s = .ok (s', outcome)) :
    Life.Step s.life (.detach a tid) outcome s'.life := by
  have same : ∀ o, (∀ b v, o ≠ .joined b v) → (.ok (s, o) : Except Fault (Process × Outcome)) = .ok (s', outcome) →
      Life.Step s.life (.detach a tid) outcome s'.life := by
    intro o quiet heq
    obtain ⟨rfl, rfl⟩ := Prod.mk.inj (Except.ok.inj heq)
    exact .same quiet nofun
  rw [dce_pthread_detach] at h
  split at h
  case h_1 => exact same _ (by simp) h
  case h_2 t hsearch =>
    obtain ⟨target, htarget, h⟩ := bind_ok h
    obtain ⟨-, found, hfound, htid⟩ := SearchThread_some hsearch
    cases hfound.symm.trans (deref_ok htarget)
    split at h
    · exact same _ (by simp) h
    next hjoinable =>
      split at h
      · exact same _ (by simp) h
      next hfree =>
        obtain ⟨rfl, rfl⟩ := Prod.mk.inj (Except.ok.inj h)
        rw [life_put]
        exact .detaches (life_records hfound) htid (not_not.mp hfree) (Bool.eq_false_of_not_eq_true hjoinable)

theorem wakeIfBlocked_life (h : wakeIfBlocked a s = .ok s') : s'.life = s.life ∨ s'.life = s.life.wake a := by
  obtain ⟨thread, -, h⟩ := bind_ok h
  obtain ⟨state, -, h⟩ := bind_ok h
  split at h
  · exact .inr (Wakeup_life h)
  · exact .inl (congrArg Process.life (Except.ok.inj h).symm)

theorem dce_pthread_kill_life {tid sig : Nat} {outcome : Outcome}
    (h : dce_pthread_kill tid sig s = .ok (s', outcome)) :
    (∀ b v, outcome ≠ .joined b v) ∧ (s'.life = s.life ∨ outcome = .done ∧ ∃ b, s'.life = s.life.wake b) := by
  rw [dce_pthread_kill] at h
  split at h
  case h_1 =>
    obtain ⟨rfl, rfl⟩ := Prod.mk.inj (Except.ok.inj h)
    exact ⟨by simp, .inl rfl⟩
  case h_2 t hsearch =>
    obtain ⟨target, htarget, h⟩ := bind_ok h
    have hput : (s.put t { target with pendingSignals := sigaddset target.pendingSignals sig }).life = s.life :=
      life_put_same (deref_ok htarget) rfl
    split at h
    · obtain ⟨rfl, rfl⟩ := Prod.mk.inj (Except.ok.inj h)
      exact ⟨by simp, .inl hput⟩
    · obtain ⟨s₁, hwake, h⟩ := bind_ok h
      obtain ⟨rfl, rfl⟩ := Prod.mk.inj (Except.ok.inj h)
      refine ⟨by simp, ?_⟩
      rw [← hput]
      exact (wakeIfBlocked_life hwake).imp_right fun hlife => ⟨rfl, t, hlife⟩

theorem goto_life {self : Thread} {frames : List Frame} (h : goto a self frames s = .ok s') :
    s'.life = s.life.set a { self.record with calls := frames.filter Frame.blocks } := by
  obtain rfl := Except.ok.inj h
  exact life_put

theorem UtilsDoSignal_life {self : Thread} {rest : List Frame} {storage i : Nat} {stage : Stage}
    (h : UtilsDoSignal a self rest storage i stage s = .ok s') (hself : s.heap a = some self)
    (inside : self.frames = .signals storage i stage :: rest) : s'.life = s.life ∨ s'.life = s.life.torn := by
  have hcalls : self.record.calls = rest.filter Frame.blocks := by
    rw [Thread.record, inside, filter_cons_of_neg (by simp [Frame.blocks])]
  have goes : ∀ (p : Process) (new : Thread) (frames : List Frame), p.life = s.life → new.record = self.record →
      frames.filter Frame.blocks = rest.filter Frame.blocks → goto a new frames p = .ok s' → s'.life = s.life := by
    intro p new frames hp hnew hframes hgoto
    rw [goto_life hgoto, hp, hnew, hframes, ← hcalls]
    exact Life.set_known (life_records hself)
  have next : ∀ j st, ((Frame.signals storage j st :: rest).filter Frame.blocks) = rest.filter Frame.blocks :=
    fun j st => filter_cons_of_neg (by simp [Frame.blocks])
  have calls : ∀ (st : Stage) (handler : Handler), invoke a self (.signals storage i st :: rest) s handler = .ok s' →
      s'.life = s.life ∨ s'.life = s.life.torn := by
    intro st handler hinvoke
    cases handler with
    | SigkillHandler => exact .inr (Except.ok.inj hinvoke ▸ teardown_life)
    | SigabrtHandler => exact .inr (Except.ok.inj hinvoke ▸ teardown_life)
    | function address =>
      rw [invoke] at hinvoke
      split at hinvoke
      · cases hinvoke
      · exact .inl (goes s self _ rfl rfl (next ..) hinvoke)
  rw [UtilsDoSignal] at h
  split at h
  · cases h
  · split at h
    case h_1 => exact .inl (goes s self rest rfl rfl rfl h)
    case h_2 entry _ =>
      cases stage with
      | mask =>
        rw [deliver] at h
        split at h
        · exact .inl (goes s self _ rfl rfl (next ..) h)
        · exact .inl (goes s self _ rfl rfl (next ..) h)
      | thread =>
        rw [deliver] at h
        split at h
        · exact calls _ _ h
        · exact .inl (goes s self _ rfl rfl (next ..) h)
      | inThread =>
        exact .inl (goes _ _ _ (by rfl) (by rfl) (next ..) h)
      | process =>
        rw [deliver] at h
        split at h
        · exact calls _ _ h
        · exact .inl (goes s self _ rfl rfl (next ..) h)
      | inProcess =>
        exact .inl (goes _ _ _ (by rfl) (by rfl) (next ..) h)

theorem silently_ok {r : Except Fault Process} {outcome : Outcome} (h : silently r = .ok (s', outcome)) :
    r = .ok s' ∧ outcome = .done := by
  cases r with
  | error => exact absurd h (by simp [silently, Except.map])
  | ok s₁ =>
    obtain ⟨rfl, rfl⟩ := Prod.mk.inj (Except.ok.inj h)
    exact ⟨rfl, rfl⟩

theorem running_some (h : running a s = some thread) : s.heap a = some thread ∧ thread.task = some .RUNNING := by
  obtain ⟨hthread, htask⟩ := filter_eq_some_iff.mp h
  exact ⟨hthread, by simpa using htask⟩

theorem wakes_or_same {label : Label} (goesOn : ∀ a v, label ≠ .exit a v)
    (h : s'.life = s.life ∨ ∃ a, s'.life = s.life.wake a) :
    Life.Step s.life label .done s'.life := by
  rcases h with hsame | ⟨a, hwake⟩
  · rw [hsame]
    exact .same nofun goesOn
  · rw [hwake]
    exact .wakes a goesOn

theorem proceed_life {outcome : Outcome} (hcaller : s.heap a = some thread) (htask : thread.task = some .RUNNING)
    (noself : .join a ∉ thread.record.calls) (h : proceed a thread s thread.frames = some (.ok (s', outcome))) :
    Life.Step s.life (.proceed a) outcome s'.life := by
  have hknown := life_records hcaller
  obtain ⟨halive, hawake⟩ := record_awake htask (by decide)
  cases hframes : thread.frames with
  | nil =>
    rw [hframes] at h
    exact absurd h (by simp [proceed])
  | cons frame rest =>
    rw [hframes] at h
    cases frame with
    | join t =>
      have hcalls : thread.record.calls = .join t :: rest.filter Frame.blocks := by
        rw [Thread.record, hframes, filter_cons_of_pos (by simp [Frame.blocks])]
      have hdiffer : t ≠ a := by
        rintro rfl
        exact noself (hcalls ▸ mem_cons_self)
      obtain ⟨target, htarget, hloop⟩ := bind_ok (some.inj h)
      have htarget := deref_ok htarget
      rw [put_other hdiffer] at htarget
      have hleft : ((s.put a { thread with frames := rest }).put t { target with joinWaiter := none }).heap a =
          some { thread with frames := rest } := by
        rw [put_other hdiffer.symm, put_self]
      obtain ⟨r, hr, hends⟩ := joinLoop_life hloop hdiffer hleft
      rw [put_self] at hr
      cases hr
      rcases hends with ⟨hended, hdetached, rfl, hlife⟩ | ⟨hlives, rfl, hlife⟩
      · rw [hlife, life_put, life_put, Life.set_delete]
        exact .returns hknown halive hawake hcalls (life_records htarget) hdetached hended
      · have hinside : .join t :: ({ thread with frames := rest } : Thread).record.calls = thread.record.calls :=
          hcalls.symm
        have step : Life.Step s.life (.proceed a) .sleeps
          ((s.life.set t { target.record with joinWaiter := some a }).set a
            { thread.record with asleep := true }) :=
          .sleepsAgain hknown halive hcalls (life_records htarget) hlives
        rw [hlife, hinside, ← halive, life_put, life_put, Life.set_set, Life.set_comm hdiffer.symm, Life.set_set]
        exact step
    | wait w =>
      have hcalls : thread.record.calls = .wait w :: rest.filter Frame.blocks := by
        rw [Thread.record, hframes, filter_cons_of_pos (by simp [Frame.blocks])]
      have hreturn := Except.ok.inj (some.inj h)
      rw [waitReturns] at hreturn
      split at hreturn
      · obtain ⟨rfl, rfl⟩ := Prod.mk.inj hreturn
        rw [life_put]
        exact .waited hknown halive hawake hcalls nofun
      · obtain ⟨rfl, rfl⟩ := Prod.mk.inj hreturn
        rw [life_put]
        exact .waited hknown halive hawake hcalls nofun
    | signals storage i stage =>
      obtain ⟨s₁, hscan, hdone⟩ := bind_ok (some.inj h)
      obtain ⟨rfl, rfl⟩ := Prod.mk.inj (Except.ok.inj hdone)
      rcases UtilsDoSignal_life hscan hcaller hframes with hsame | htorn
      · rw [hsame]
        exact .same nofun nofun
      · rw [htorn]
        exact .tears nofun

theorem record_turn {task : TaskState} {state : TaskState} {started : Bool} {frames : List Frame}
    (htask : thread.task = some task) (hold : task ≠ .BLOCKED) (hnew : state ≠ .BLOCKED)
    (hframes : frames.filter Frame.blocks = thread.frames.filter Frame.blocks) :
    ({ thread with task := some state, started := started, frames := frames } : Thread).record = thread.record := by
  simp [Thread.record, htask, hold, hnew, hframes]

variable (noself : ∀ a u, s.life.records a = some u → .join a ∉ u.calls)
include noself

theorem call_life {label : Label} {outcome : Outcome}
    (h : call s label = some (.ok (s', outcome))) : Life.Step s.life label outcome s'.life := by
  cases label with
  | schedule a =>
    obtain ⟨thread, hthread, h⟩ := bind_eq_some_iff.mp h
    split at h
    case isFalse => cases h
    case isTrue hturn =>
      obtain ⟨rfl, rfl⟩ := Prod.mk.inj (Except.ok.inj (some.inj h))
      rw [life_put_same hthread (record_turn hturn.1 (by simp) (by simp) ?_)]
      · exact .same (by rintro _ _ ⟨⟩) (by rintro _ _ ⟨⟩)
      · split
        case isTrue => exact filter_cons_of_neg (by simp [scan, Frame.blocks])
        case isFalse => rfl
  | proceed a =>
    obtain ⟨thread, hthread, h⟩ := bind_eq_some_iff.mp h
    obtain ⟨hheap, htask⟩ := running_some hthread
    exact proceed_life hheap htask (noself a _ (life_records hheap)) h
  | create a =>
    obtain ⟨self, hself, h⟩ := map_eq_some_iff.mp h
    obtain ⟨hheap, htask, -⟩ := caller_some hself
    obtain ⟨hcreate, rfl⟩ := silently_ok h
    obtain ⟨tid, hunused, hlife⟩ := dce_pthread_create_life hcreate hheap htask
    rw [hlife]
    exact .creates hunused
  | exit a value =>
    obtain ⟨self, hself, h⟩ := map_eq_some_iff.mp h
    obtain ⟨hheap, htask, -⟩ := caller_some hself
    obtain ⟨hexit, rfl⟩ := silently_ok h
    exact dce_pthread_exit_life hexit hheap htask
  | dce_exit a =>
    obtain ⟨self, -, h⟩ := map_eq_some_iff.mp h
    obtain ⟨rfl, rfl⟩ := Prod.mk.inj (Except.ok.inj h)
    rw [teardown_life]
    exact .tears (by rintro _ _ ⟨⟩)
  | join a tid =>
    obtain ⟨self, hself, h⟩ := map_eq_some_iff.mp h
    obtain ⟨hheap, htask, -⟩ := caller_some hself
    exact dce_pthread_join_life h hheap htask
  | detach a tid =>
    obtain ⟨self, -, h⟩ := map_eq_some_iff.mp h
    exact dce_pthread_detach_life h
  | kill a tid sig =>
    obtain ⟨self, -, h⟩ := map_eq_some_iff.mp h
    obtain ⟨quiet, hsame | ⟨rfl, b, hwake⟩⟩ := dce_pthread_kill_life h
    · rw [hsame]
      exact .same quiet (by rintro _ _ ⟨⟩)
    · exact wakes_or_same (by rintro _ _ ⟨⟩) (.inr ⟨b, hwake⟩)
  | sigprocmask a how set =>
    obtain ⟨self, hself, h⟩ := map_eq_some_iff.mp h
    obtain ⟨current, hcurrent, h⟩ := bind_ok h
    split at h
    case isTrue =>
      obtain ⟨rfl, rfl⟩ := Prod.mk.inj (Except.ok.inj h)
      exact .same (by rintro _ _ ⟨⟩) (by rintro _ _ ⟨⟩)
    case isFalse =>
      split at h
      case h_1 =>
        obtain ⟨rfl, rfl⟩ := Prod.mk.inj (Except.ok.inj h)
        exact .same (by rintro _ _ ⟨⟩) (by rintro _ _ ⟨⟩)
      case h_2 set _ _ =>
        obtain ⟨rfl, rfl⟩ := Prod.mk.inj (Except.ok.inj h)
        have hput : (s.put a { current with signalMask := Signals.newMask how set current.signalMask }).life =
            s.life :=
          life_put_same (deref_ok hcurrent) rfl
        rw [hput]
        exact .same (by rintro _ _ ⟨⟩) (by rintro _ _ ⟨⟩)
  | sigaction a signum flags mask handler moves =>
    obtain ⟨self, -, h⟩ := map_eq_some_iff.mp h
    obtain ⟨rfl, rfl⟩ := Prod.mk.inj (Except.ok.inj h)
    exact .same (by rintro _ _ ⟨⟩) (by rintro _ _ ⟨⟩)
  | sigpipe a =>
    obtain ⟨self, -, h⟩ := map_eq_some_iff.mp h
    obtain ⟨s₁, hsend, h⟩ := bind_ok h
    obtain ⟨current, hcurrent, h⟩ := bind_ok h
    obtain ⟨hgoto, rfl⟩ := silently_ok h
    have hscan : s'.life = s₁.life := by
      rw [goto_life hgoto]
      exact Life.set_known (life_records (deref_ok hcurrent))
    rw [hscan]
    exact wakes_or_same (by rintro _ _ ⟨⟩) (UtilsSendSignal_life hsend)
  | wait a =>
    obtain ⟨self, hself, h⟩ := map_eq_some_iff.mp h
    obtain ⟨hheap, htask, -⟩ := caller_some hself
    cases hwait : wait a s with
    | error =>
      rw [hwait] at h
      exact absurd h (by simp [Except.map])
    | ok s₁ =>
      rw [hwait] at h
      obtain ⟨rfl, rfl⟩ := Prod.mk.inj (Except.ok.inj h)
      obtain ⟨current, hcurrent, hput⟩ := bind_ok hwait
      obtain rfl := some.inj ((deref_ok hcurrent).symm.trans hheap)
      obtain rfl := Except.ok.inj hput
      obtain ⟨halive, -⟩ := record_awake htask (by decide)
      have step := Life.Step.waits s.nextWaiter (life_records hheap) halive
      have hrecord : ({ current with task := some .BLOCKED, frames := .wait s.nextWaiter :: current.frames } :
        Thread).record =
          { current.record with asleep := true, calls := .wait s.nextWaiter :: current.record.calls } := by
        rw [Thread.record, filter_cons_of_pos (by simp [Frame.blocks])]
        simp [Thread.record, htask]
      rw [← hrecord] at step
      rw [life_put]
      exact step
  | yield a =>
    obtain ⟨self, hself, h⟩ := map_eq_some_iff.mp h
    obtain ⟨hheap, htask, -⟩ := caller_some hself
    obtain ⟨rfl, rfl⟩ := Prod.mk.inj (Except.ok.inj h)
    rw [life_put_same hheap (record_turn htask (by simp) (by simp) rfl)]
    exact .same (by rintro _ _ ⟨⟩) (by rintro _ _ ⟨⟩)
  | signal signum =>
    rw [call] at h
    split at h
    case isFalse => cases h
    case isTrue =>
      obtain ⟨hsend, rfl⟩ := silently_ok (some.inj h)
      exact wakes_or_same (by rintro _ _ ⟨⟩) (UtilsSendSignal_life hsend)
  | wakeup waiter =>
    rw [call] at h
    split at h
    case isFalse => cases h
    case isTrue =>
      obtain ⟨hwake, rfl⟩ := silently_ok (some.inj h)
      rw [wakeupWaiter] at hwake
      split at hwake
      case h_1 =>
        obtain rfl := Except.ok.inj hwake
        exact .same (by rintro _ _ ⟨⟩) (by rintro _ _ ⟨⟩)
      case h_2 b _ => exact wakes_or_same (by rintro _ _ ⟨⟩) ((wakeIfBlocked_life hwake).imp_right fun hlife =>
        ⟨b, hlife⟩)
  | timeout a =>
    obtain ⟨thread, -, h⟩ := bind_eq_some_iff.mp h
    split at h
    case isFalse => cases h
    case isTrue =>
      obtain ⟨hwake, rfl⟩ := silently_ok (some.inj h)
      rw [Wakeup_life hwake]
      exact .wakes a (by rintro _ _ ⟨⟩)

theorem respond_life {label : Label} {outcome : Outcome} (h : respond s label = some (s', outcome)) :
    (s'.life = s.life ∧ outcome = .crashed ∧ ∃ fault, call s label = some (.error fault) ∧ s'.fault = some fault) ∨
      call s label = some (.ok (s', outcome)) ∧ Life.Step s.life label outcome s'.life := by
  rw [respond] at h
  split at h
  · cases h
  · obtain ⟨r, hcall, hsettle⟩ := map_eq_some_iff.mp h
    cases r with
    | error fault =>
      obtain ⟨rfl, rfl⟩ := Prod.mk.inj hsettle
      exact .inl ⟨rfl, rfl, fault, hcall, rfl⟩
    | ok result =>
      obtain rfl : result = (s', outcome) := hsettle
      exact .inr ⟨hcall, call_life noself hcall⟩

end

/-- The first thread runs. -/
def oneThread : Process := start.put 0 { Thread.new 0 with task := some .RUNNING, started := true }

/-- It has made a second one, and both are to run. -/
def twoThreads : Process :=
  let created : Process := { oneThread.put 1 (.new 1) with threads := [0, 1], nextThread := 2 }
  (created.put 1 { Thread.new 1 with task := some .ACTIVE }).put 0
  { Thread.new 0 with task := some .ACTIVE, started := true }

theorem step_of_respond {s t : Process} {label : Label} {outcome : Outcome}
    (h : respond s label = some (t, outcome)) :
    machine.step s label = some t :=
  congrArg (Option.map Prod.fst) h

theorem AllocateTid_one {s : Process}
    (hused : (s.threads.all fun a => (s.heap a).all fun thread => thread.tid ≠ 0) = false)
    (hunused : (s.threads.all fun a => (s.heap a).all fun thread => thread.tid ≠ 1) = true) :
    AllocateTid s = some 1 := by
  rw [AllocateTid, range_succ_eq_map, find?_cons, hused, range_succ_eq_map, map_cons, find?_cons, hunused]

section

variable {C : Process → Label → Prop} (schedule : ∀ s a, C s (.schedule a)) (create : C oneThread (.create 0))
include schedule create

theorem reach_twoThreads : machine.ReachBy C twoThreads := by
  have hfirst : respond start (.schedule 0) = some (oneThread, .done) := rfl
  have reach : machine.ReachBy C oneThread := .next (.start rfl) (schedule start 0) (step_of_respond hfirst)
  have htid : AllocateTid oneThread = some 1 := AllocateTid_one rfl rfl
  have hcreate : dce_pthread_create 0 oneThread = .ok twoThreads := by
    rw [dce_pthread_create, CreateThread, htid]
    rfl
  have hsecond : respond oneThread (.create 0) = some (twoThreads, .done) := by
    have hcaller : caller 0 oneThread = some { Thread.new 0 with task := some .RUNNING, started := true } := rfl
    rw [respond, call, hcaller, hcreate]
    rfl
  exact .next reach create (step_of_respond hsecond)

/-- The second thread runs, exits with no one to join it, and the first one comes back. -/
def scheduled : Process := (machine.step twoThreads (.schedule 1)).getD start

def exits : List Label := [.schedule 1, .exit 1 7, .schedule 0] ++ replicate 7 (.proceed 0)

def oneExited : Process := (machine.replay twoThreads exits).getD start

theorem reach_oneExited (exit : C scheduled (.exit 1 7)) (proceed : ∀ s a, C s (.proceed a)) :
    machine.ReachBy C oneExited := by
  obtain ⟨s, hexit⟩ : ∃ s, machine.step scheduled (.exit 1 7) = some s := ⟨_, rfl⟩
  have hrest : machine.replay s (.schedule 0 :: replicate 7 (.proceed 0)) = some oneExited := by
    cases hexit
    rfl
  have reach : machine.ReachBy C scheduled := .next (reach_twoThreads schedule create) (schedule _ 1) rfl
  refine (Machine.ReachBy.next reach exit hexit).replay_of_mem (fun label hmem s => ?_) hrest
  rcases mem_cons.mp hmem with rfl | hmem
  · exact schedule s 0
  · rw [eq_of_mem_replicate hmem]
    exact proceed s 0

/-- The first thread has joined it. -/
def joined : Process := (machine.step oneExited (.join 0 1)).getD start

end

end Dce.Threads
