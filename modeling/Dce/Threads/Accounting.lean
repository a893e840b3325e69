import Dce.Threads.Sound

/- Every thread that ends is accounted for once: by a join, or by its own end where it is detached. -/

namespace Dce.Threads

open List Option

/-- What has become of each record: the values that joins were given, how often it was released, the
value that its thread exited with, and whether it was detached. -/
structure Ledger where
  joins : Nat → List Nat
  releases : Nat → Nat
  exits : Nat → Option Nat
  detached : Nat → Bool

def Ledger.empty : Ledger := ⟨fun _ => [], fun _ => 0, fun _ => none, fun _ => false⟩

def Outcome.value (a : Nat) : Outcome → List Nat
  | .joined t v => if t = a then [v] else []
  | _ => []

def Label.value (a : Nat) : Label → Option Nat
  | .exit b v => if b = a then some v else none
  | _ => none

def Ledger.enter (l : Life) (label : Label) (l' : Life) (outcome : Outcome) (k : Ledger) : Ledger where
  joins a := k.joins a ++ outcome.value a
  releases a := if l.records a ≠ none ∧ l'.records a = none then k.releases a + 1 else k.releases a
  exits a := if outcome = .done then (label.value a).or (k.exits a) else k.exits a
  detached a := k.detached a || (l'.records a).any Record.isDetached

def Ledger.note (s : Process) (label : Label) (k : Ledger) : Ledger :=
  match respond s label with
  | none => k
  | some (s', outcome) => k.enter s.life label s'.life outcome

namespace Life

/-- What the ledger says of a record that there is, or of one that is gone. -/
def Entry (deleted : Bool) (k : Ledger) (a : Nat) : Option Record → Prop
  | some r => k.releases a = 0 ∧ k.joins a = [] ∧ k.detached a = r.isDetached ∧
    (r.exited = true → r.isDetached = false ∧ k.exits a = some r.exitValue)
  | none => k.releases a = 1 ∧
    ((k.joins a = [] ∧ (k.detached a = true ∨ deleted = true)) ∨
      (k.detached a = false ∧ ∃ v, k.exits a = some v ∧ k.joins a = [v]))

/-- The ledger agrees with the records. -/
structure Booked (l : Life) (k : Ledger) : Prop where
  entry : ∀ a, a < l.next → Entry l.deleted k a (l.records a)
  unused : ∀ a, l.next ≤ a → k.releases a = 0 ∧ k.joins a = [] ∧ k.detached a = false
  live : l.deleted = false → ∃ a r, l.records a = some r ∧ r.exited = false

/-- The last thread that has not exited exits as the only one of the list, and none is detached that
has exited, where no thread joins it. -/
structure Orderly (l : Life) (label : Label) : Prop where
  leaves : Leaves l label
  last : ∀ a v, label = .exit a v → l.threads.length ≠ 1 → ∃ b r, b ≠ a ∧ l.records b = some r ∧ r.exited = false
  detaches : ∀ a tid, label = .detach a tid → ∀ t r, l.records t = some r → r.tid = tid → r.exited = true →
    r.joinWaiter ≠ none

/-- What the ledger keeps of a record. -/
def fate (r : Record) : Bool × Bool × Nat := (r.isDetached, r.exited, r.exitValue)

/-- What a step does to the record at `a`. -/
inductive Moves (label : Label) (outcome : Outcome) (deleted : Bool) (a : Nat) : Option Record → Option Record → Prop
  | stays {x y : Option Record} (same : y.map fate = x.map fate) (quiet : outcome.value a = [])
      (goesOn : label.value a = none) : Moves label outcome deleted a x y
  | exits {r r' : Record} {v : Nat} (joinable : r.isDetached = false) (value : label.value a = some v)
      (done : outcome = .done) (ended : fate r' = (false, true, v)) :
      Moves label outcome deleted a (some r) (some r')
  | vanishes {r : Record} (detached : r.isDetached = true) (quiet : outcome.value a = []) :
      Moves label outcome deleted a (some r) none
  | joined {r : Record} (ended : r.exited = true) (value : outcome.value a = [r.exitValue])
      (goesOn : label.value a = none) : Moves label outcome deleted a (some r) none
  | detaches {r r' : Record} (alive : r.exited = false) (detached : fate r' = (true, false, r.exitValue))
      (quiet : outcome.value a = []) : Moves label outcome deleted a (some r) (some r')
  | torn {x : Option Record} (quiet : outcome.value a = []) (goesOn : x = none →
      label.value a = none) (hover : deleted = true) :
      Moves label outcome deleted a x none

variable {l l' : Life} {k : Ledger} {label : Label} {outcome : Outcome} {a : Nat}

theorem Entry.moves {deleted : Bool} {x y : Option Record} (entry : Entry deleted k a x) (hx : l.records a = x)
    (hy : l'.records a = y) (more : deleted = true → l'.deleted = true)
    (moves : Moves label outcome l'.deleted a x y) :
    Entry l'.deleted (k.enter l label l' outcome) a y := by
  have hjoins : (k.enter l label l' outcome).joins a = k.joins a ++ outcome.value a := rfl
  have hreleases : (k.enter l label l' outcome).releases a =
      if l.records a ≠ none ∧ l'.records a = none then k.releases a + 1 else k.releases a := rfl
  have hexits : (k.enter l label l' outcome).exits a =
      if outcome = .done then (label.value a).or (k.exits a) else k.exits a := rfl
  have hdetached : (k.enter l label l' outcome).detached a = (k.detached a ||
    (l'.records a).any Record.isDetached) := rfl
  rw [hx, hy] at hreleases
  rw [hy] at hdetached
  cases moves with
  | stays same quiet goesOn =>
    rw [quiet, append_nil] at hjoins
    rw [goesOn, none_or, ite_self] at hexits
    cases x with
    | none =>
      obtain rfl := map_eq_none_iff.mp same
      simp only [any_none, Bool.or_false] at hdetached
      rw [Entry] at entry ⊢
      rw [hreleases, hjoins, hdetached, hexits]
      exact ⟨entry.1, entry.2.imp_left fun h => ⟨h.1, h.2.imp_right more⟩⟩
    | some r =>
      obtain ⟨r', rfl, hfate⟩ := map_eq_some_iff.mp same
      obtain ⟨hsame, hended, hvalue⟩ : r'.isDetached = r.isDetached ∧ r'.exited = r.exited ∧
        r'.exitValue = r.exitValue := by
        simpa [fate] using hfate
      obtain ⟨hzero, hnone, hd, hentry⟩ := entry
      simp only [any_some, hd, hsame, Bool.or_self] at hdetached
      refine ⟨hreleases.trans (by simpa using hzero), hjoins.trans hnone, hdetached.trans hsame.symm, fun h => ?_⟩
      rw [hexits, hsame, hvalue]
      exact hentry (hended ▸ h)
  | @exits r r' v joinable value done ended =>
    obtain ⟨hd', he', hv'⟩ : r'.isDetached = false ∧ r'.exited = true ∧
      r'.exitValue = v := by simpa [fate] using ended
    obtain ⟨hzero, hnone, hd, -⟩ := entry
    subst done
    rw [value] at hexits
    rw [hnone] at hjoins
    refine ⟨hreleases.trans (by simpa using hzero), hjoins, ?_, fun _ => ⟨hd', hv'.symm ▸ hexits⟩⟩
    rw [hdetached, hd, joinable, any_some, hd', Bool.or_self]
  | vanishes detached quiet =>
    obtain ⟨hzero, hnone, hd, -⟩ := entry
    rw [quiet, hnone] at hjoins
    rw [hd, detached] at hdetached
    exact ⟨hreleases.trans (by simpa using hzero), .inl ⟨hjoins, .inl hdetached⟩⟩
  | @joined r ended value goesOn =>
    obtain ⟨hzero, hnone, hd, hentry⟩ := entry
    obtain ⟨hjoinable, hv⟩ := hentry ended
    rw [goesOn, none_or, ite_self] at hexits
    rw [hnone, value] at hjoins
    rw [hd, hjoinable, any_none] at hdetached
    exact ⟨hreleases.trans (by simpa using hzero), .inr ⟨hdetached, r.exitValue, hexits.trans hv, hjoins⟩⟩
  | @detaches r r' alive detached quiet =>
    obtain ⟨hd', he', hv'⟩ : r'.isDetached = true ∧ r'.exited = false ∧ r'.exitValue = r.exitValue := by
      simpa [fate] using detached
    obtain ⟨hzero, hnone, hd, -⟩ := entry
    rw [quiet, hnone] at hjoins
    rw [any_some, hd', Bool.or_true] at hdetached
    exact ⟨hreleases.trans (by simpa using hzero), hjoins, hdetached.trans hd'.symm, fun h =>
      nomatch (he'.symm.trans h)⟩
  | torn quiet goesOn hover =>
    rw [quiet, append_nil] at hjoins
    cases x with
    | none =>
      rw [goesOn rfl, none_or, ite_self] at hexits
      simp only [any_none, Bool.or_false] at hdetached
      rw [Entry] at entry ⊢
      rw [hreleases, hjoins, hdetached, hexits]
      exact ⟨entry.1, entry.2.imp_left fun h => ⟨h.1, h.2.imp_right more⟩⟩
    | some r =>
      obtain ⟨hzero, hnone, -⟩ := entry
      exact ⟨hreleases.trans (by simpa using hzero), .inl ⟨hjoins.trans hnone, .inr hover⟩⟩

theorem value_of_ne {b v : Nat} (ne : a ≠ b) : (Label.exit b v).value a = none := if_neg ne.symm

theorem joined_of_ne {t v : Nat} (ne : a ≠ t) : (Outcome.joined t v).value a = [] := if_neg ne.symm

theorem wake_fate (b : Nat) : ((l.wake b).records a).map fate = (l.records a).map fate := by
  rcases wake_eq b l with hsame | ⟨u, hu, hset⟩
  · rw [hsame]
  · rw [hset, set_records]
    split
    next hab => rw [hab, hu]; rfl
    · rfl

theorem wakeJoiner_fate (joinWaiter : Option Nat) :
    ((l.wakeJoiner joinWaiter).records a).map fate = (l.records a).map fate := by
  cases joinWaiter with
  | none => rfl
  | some j => exact wake_fate j

theorem set_fate {b : Nat} {r r' : Record} (known : l.records b = some r) (same : fate r' = fate r) :
    ((l.set b r').records a).map fate = (l.records a).map fate := by
  rw [set_records]
  split
  next hab => rw [hab, known, map_some, map_some, same]
  · rfl

theorem Step.moves (sound : Sound l) (orderly : Orderly l label) (step : l.Step label outcome l')
    (known : a ≠ l.next ∨ l'.next = l.next) : Moves label outcome l'.deleted a (l.records a) (l'.records a) := by
  cases step with
  | same quiet goesOn =>
    refine .stays rfl ?_ ?_
    · cases outcome with
      | joined t v => exact absurd rfl (quiet t v)
      | _ => rfl
    · cases label with
      | exit b v => exact absurd rfl (goesOn b v)
      | _ => rfl
  | wakes b goesOn =>
    refine .stays (wake_fate b) rfl ?_
    cases label with
    | exit b v => exact absurd rfl (goesOn b v)
    | _ => rfl
  | @creates b tid unused =>
    have hdiffer : a ≠ l.next := known.resolve_right (Nat.succ_ne_self l.next)
    refine .stays ?_ rfl rfl
    rw [born_records, if_neg hdiffer]
  | tears alone =>
    rw [torn_records]
    have hrecord : ¬ a ∈ l.threads → l.records a = none :=
      fun hunlisted => not_not.mp (hunlisted ∘ (sound.listed a).mpr)
    split
    next hlisted => exact .torn rfl (fun hnone => absurd hnone ((sound.listed a).mp hlisted)) rfl
    next hunlisted =>
      rw [hrecord hunlisted]
      refine .torn rfl (fun _ => ?_) rfl
      cases label with
      | exit b v =>
        refine value_of_ne ?_
        rintro rfl
        exact (alone a v rfl).2 (hrecord hunlisted)
      | _ => rfl
  | @exits b v r hb alive joinable others =>
    rw [set_records]
    split
    next hab =>
      rw [hab, hb]
      refine .exits joinable (if_pos rfl) rfl ?_
      rw [← joinable]
      rfl
    next hab => exact .stays (wakeJoiner_fate _) rfl (value_of_ne hab)
  | @vanishes b v r hb alive detached others =>
    rw [delete_records]
    split
    next hab =>
      rw [hab, hb]
      exact .vanishes detached rfl
    next hab => exact .stays rfl rfl (value_of_ne hab)
  | @joins b tid t u r hb alive ne target free joinable lives =>
    have htarget : (l.set t { r with joinWaiter := some b }).records b = some u := by
      rw [set_records, if_neg ne.symm, hb]
    exact .stays ((set_fate htarget (by rfl)).trans (set_fate target (by rfl))) rfl rfl
  | @reaps b tid t r target free joinable ended =>
    rw [delete_records]
    split
    next hat =>
      rw [hat, target]
      exact .joined ((sound.exited t r target).1.mpr ended) (if_pos rfl) rfl
    next hat => exact .stays rfl (joined_of_ne hat) rfl
  | @sleepsAgain b t u r rest hb alive inside target lives =>
    have hdiffer := (sound.joining b t u hb (inside ▸ mem_cons_self)).1
    have htarget : (l.set t { r with joinWaiter := some b }).records b = some u := by
      rw [set_records, if_neg hdiffer.symm, hb]
    exact .stays ((set_fate htarget (by rfl)).trans (set_fate target (by rfl))) rfl rfl
  | @returns b t u r rest hb alive runs inside target joinable ended =>
    rw [delete_records]
    split
    next hat =>
      rw [hat, target]
      exact .joined ((sound.exited t r target).1.mpr ended) (if_pos rfl) rfl
    next hat => exact .stays (set_fate hb rfl) (joined_of_ne hat) rfl
  | @detaches b tid t r target htid free joinable =>
    rw [set_records]
    split
    next hat =>
      rw [hat, target]
      have halive : r.exited = false := by
        cases hended : r.exited with
        | false => rfl
        | true => exact absurd free (orderly.detaches b tid rfl t r target htid hended)
      refine .detaches halive ?_ rfl
      rw [← halive]
      rfl
    · exact .stays rfl rfl rfl
  | waits w hb alive => exact .stays (set_fate hb rfl) rfl rfl
  | waited hb alive runs inside quiet =>
    refine .stays (set_fate hb rfl) ?_ rfl
    cases outcome with
    | joined t v => exact absurd rfl (quiet t v)
    | _ => rfl

theorem Step.live (sound : Sound l) (orderly : Orderly l label) (step : l.Step label outcome l')
    (hover : l'.deleted = false)
    (live : ∃ b r, l.records b = some r ∧ r.exited = false) : ∃ b r, l'.records b = some r ∧ r.exited = false := by
  have kept : ∀ m : Life, (∀ b, (m.records b).map fate = (l.records b).map fate) →
      ∃ b r, m.records b = some r ∧ r.exited = false := by
    intro m same
    obtain ⟨b, r, hr, hlive⟩ := live
    have hb := same b
    rw [hr] at hb
    obtain ⟨r', hr', hfate⟩ := map_eq_some_iff.mp hb
    exact ⟨b, r', hr', (congrArg (fun f => f.2.1) hfate).trans hlive⟩
  cases step with
  | same => exact live
  | wakes b => exact kept _ fun c => wake_fate b
  | @creates a tid => exact ⟨l.next, _, born_records.trans (if_pos rfl), rfl⟩
  | tears => exact absurd hover (by simp [torn])
  | @exits a v r known alive joinable others =>
    obtain ⟨b, u, hdiffer, hu, hlive⟩ := orderly.last a v rfl others
    have hb := wakeJoiner_fate (l := l) (a := b) r.joinWaiter
    rw [hu] at hb
    obtain ⟨u', hu', hfate⟩ := map_eq_some_iff.mp hb
    exact ⟨b, u', by rw [set_records, if_neg hdiffer, hu'], (congrArg (fun f => f.2.1) hfate).trans hlive⟩
  | @vanishes a v r known alive detached others =>
    obtain ⟨b, u, hdiffer, hu, hlive⟩ := orderly.last a v rfl others
    exact ⟨b, u, by rw [delete_records, if_neg hdiffer, hu], hlive⟩
  | @joins a tid t u r known alive => exact ⟨a, _, set_records.trans (if_pos rfl), alive⟩
  | @reaps a tid t r target free joinable ended =>
    obtain ⟨b, u, hu, hlive⟩ := live
    have hdiffer : b ≠ t := by
      rintro rfl
      obtain rfl := some.inj (hu.symm.trans target)
      exact absurd (((sound.exited b u target).1.mpr ended).symm.trans hlive) nofun
    exact ⟨b, u, by rw [delete_records, if_neg hdiffer, hu], hlive⟩
  | @sleepsAgain a t u r rest known alive => exact ⟨a, _, set_records.trans (if_pos rfl), alive⟩
  | @returns a t u r rest known alive runs inside =>
    have hdiffer := (sound.joining a t u known (inside ▸ mem_cons_self)).1
    exact ⟨a, _, delete_records.trans ((if_neg hdiffer.symm).trans (set_records.trans (if_pos rfl))), alive⟩
  | @detaches a tid t r target =>
    obtain ⟨b, u, hu, hlive⟩ := live
    by_cases hbt : b = t
    · rw [hbt] at hu
      obtain rfl := some.inj (hu.symm.trans target)
      exact ⟨t, _, set_records.trans (if_pos rfl), hlive⟩
    · exact ⟨b, u, by rw [set_records, if_neg hbt, hu], hlive⟩
  | @waits a u w known alive => exact ⟨a, _, Function.update_self .., alive⟩
  | @waited a w u rest o known alive => exact ⟨a, _, Function.update_self .., alive⟩

theorem Step.next (step : l.Step label outcome l') : l'.next = l.next ∨ ∃ tid, l' = l.born tid ∧
    outcome = .done := by
  cases step with
  | @creates a tid => exact .inr ⟨tid, rfl, rfl⟩
  | @exits a v r =>
    refine .inl ?_
    cases r.joinWaiter <;> rfl
  | _ => exact .inl rfl

theorem Step.deleted (step : l.Step label outcome l') (hover : l.deleted = true) : l'.deleted = true := by
  cases step with
  | tears => rfl
  | @exits a v r =>
    cases hj : r.joinWaiter with
    | none => exact hover
    | some j => exact hover
  | _ => exact hover

theorem Moves.none {deleted : Bool} {y : Option Record} (moves : Moves label outcome deleted a none y) :
    y = none ∧ outcome.value a = [] := by
  cases moves with
  | stays same quiet => exact ⟨map_eq_none_iff.mp same, quiet⟩
  | torn quiet => exact ⟨rfl, quiet⟩

theorem Booked.step (booked : Booked l k) (sound : Sound l) (orderly : Orderly l label)
    (step : l.Step label outcome l') : Booked l' (k.enter l label l' outcome) := by
  have hkept : ∀ a, a < l.next → Entry l'.deleted (k.enter l label l' outcome) a (l'.records a) := fun a ha =>
    (booked.entry a ha).moves rfl rfl step.deleted (step.moves sound orderly (.inl ha.ne))
  have habsent : ∀ a, l.next ≤ a → l.records a = none := by
    intro a ha
    cases hr : l.records a with
    | none => rfl
    | some r => exact absurd (sound.fresh a r hr) ha.not_gt
  have hunused : ∀ a, l.next ≤ a → (a ≠ l.next ∨ l'.next = l.next) →
      (k.enter l label l' outcome).releases a = 0 ∧ (k.enter l label l' outcome).joins a = [] ∧
        (k.enter l label l' outcome).detached a = false := by
    intro a ha known
    have moves := step.moves sound orderly known
    rw [habsent a ha] at moves
    obtain ⟨hnone, hquiet⟩ := moves.none
    obtain ⟨hzero, hjoins, hdetached⟩ := booked.unused a ha
    have hreleases : (k.enter l label l' outcome).releases a =
      if l.records a ≠ none ∧ l'.records a = none then k.releases a + 1 else k.releases a := rfl
    refine ⟨?_, (congrArg₂ (· ++ ·) hjoins hquiet), ?_⟩
    · rw [hreleases, habsent a ha, if_neg (fun h => h.1 rfl), hzero]
    · have hseen : (k.enter l label l' outcome).detached a = (k.detached a ||
        (l'.records a).any Record.isDetached) := rfl
      rw [hseen, hdetached, hnone]
      rfl
  have hlive : l'.deleted = false → ∃ a r, l'.records a = some r ∧ r.exited = false := by
    intro hover
    refine step.live sound orderly hover (booked.live ?_)
    cases h : l.deleted with
    | false => rfl
    | true => cases hover.symm.trans (step.deleted h)
  rcases step.next with hnext | ⟨tid, rfl, rfl⟩
  · exact ⟨fun a ha => hkept a (hnext ▸ ha), fun a ha => hunused a (hnext ▸ ha) (.inr hnext), hlive⟩
  · have hnext : (l.born tid).next = l.next + 1 := rfl
    refine ⟨fun a ha => ?_, fun a ha => hunused a (by omega) (.inl (by omega)), hlive⟩
    rcases Nat.lt_succ_iff_lt_or_eq.mp ha with hlt | rfl
    · exact hkept a hlt
    · obtain ⟨hzero, hjoins, hdetached⟩ := booked.unused l.next le_rfl
      have hborn : (l.born tid).records l.next = some ⟨tid, false, false, false, false, 0, none, []⟩ :=
        born_records.trans (if_pos rfl)
      rw [hborn]
      refine ⟨?_, ?_, ?_, nofun⟩
      · rw [Ledger.enter]
        simp [hborn, hzero]
      · rw [Ledger.enter]
        simp [hjoins, Outcome.value]
      · rw [Ledger.enter]
        simp [hborn, hdetached]

end Life

/-- No thread exits from a handler that runs in a join, the last thread that has not exited exits when
it is the only one of the list, and no thread is detached that has exited and that no thread joins. -/
def Orderly (s : Process) : Label → Prop
  | .exit a _ => (∀ thread, s.heap a = some thread → ∀ t, .join t ∉ thread.frames) ∧
    (s.threads.length = 1 ∨ ∃ b thread, b ≠ a ∧ s.heap b = some thread ∧ thread.task ≠ none)
  | .detach _ tid => ∀ t thread, s.heap t = some thread → thread.tid = tid → thread.task = none →
      thread.joinWaiter ≠ none
  | _ => True

section

variable {s s' : Process} {k : Ledger} {label : Label} {outcome : Outcome} {a b : Nat} {thread : Thread}

theorem Orderly.life (orderly : Orderly s label) : Life.Orderly s.life label where
  leaves := by
    rintro a v u rfl hu t hmem
    obtain ⟨thread, hthread, rfl⟩ := map_eq_some_iff.mp hu
    exact orderly.1 thread hthread t (mem_calls.mp hmem)
  last := by
    rintro a v rfl hlength
    obtain ⟨b, thread, hdiffer, hthread, htask⟩ := orderly.2.resolve_left hlength
    exact ⟨b, thread.record, hdiffer, life_records hthread, record_exited.mpr htask⟩
  detaches := by
    rintro a tid rfl t r hr htid hended
    obtain ⟨thread, hthread, rfl⟩ := map_eq_some_iff.mp hr
    exact orderly t thread hthread htid (isNone_iff_eq_none.mp hended)

/-- What the ledger and the records say of the threads that have ended. -/
structure Accounted (s : Process) (k : Ledger) : Prop where
  torn : s.deleted = false → ∃ a ∈ s.threads, ∃ thread, s.heap a = some thread ∧ thread.task ≠ none
  kept : ∀ a thread, s.heap a = some thread → k.releases a = 0 ∧ k.joins a = [] ∧ k.detached a = thread.isDetached
  released : ∀ a, a < s.nextThread → s.heap a = none → k.releases a = 1 ∧
    ((k.joins a = [] ∧ (k.detached a = true ∨ s.deleted = true)) ∨
      (k.detached a = false ∧ ∃ v, k.exits a = some v ∧ k.joins a = [v]))
  zombie : ∀ a thread, s.heap a = some thread → thread.task = none →
    k.detached a = false ∧ k.exits a = some thread.exitValue
  /-- A thread that has exited and that no thread joins is joined by the next call. -/
  joinable : ∀ a thread b, s.heap a = some thread → thread.task = none → thread.joinWaiter = none →
    s.deleted = false → s.fault = none → b ≠ a → caller b s ≠ none →
    ∃ s', respond s (.join b thread.tid) = some (s', .joined a thread.exitValue)
  /-- Who joins a thread that has exited does not sleep, and has its value as soon as it goes on. -/
  joiner : ∀ a thread b, s.heap a = some thread → thread.task = none → thread.joinWaiter = some b →
    ∃ self, s.heap b = some self ∧ self.task ≠ none ∧ .join a ∈ self.frames ∧
      ∀ rest, self.frames = .join a :: rest → self.task ≠ some .BLOCKED ∧
        (self.task = some .RUNNING → s.deleted = false → s.fault = none →
          ∃ s', respond s (.proceed b) = some (s', .joined a thread.exitValue))

theorem SearchThread_eq (sound : Life.Sound s.life) (hthread : s.heap a = some thread) :
    SearchThread thread.tid s = some a := by
  have hlisted : a ∈ s.threads := (sound.listed a).mpr (by rw [life_records hthread]; simp)
  cases hsearch : SearchThread thread.tid s with
  | none =>
    have hnone := find?_eq_none.mp hsearch a hlisted
    rw [hthread] at hnone
    exact absurd (by simp) hnone
  | some b =>
    obtain ⟨-, other, hother, htid⟩ := SearchThread_some hsearch
    exact congrArg some (sound.tids b a _ _ (life_records hother) (life_records hthread) htid)

theorem joinLoop_ended (hthread : s.heap a = some thread) (hended : thread.hasExitValue = true)
    (hjoinable : thread.isDetached = false) : ∃ s', joinLoop b a s = .ok (s', .joined a thread.exitValue) := by
  obtain ⟨s', hdelete⟩ : ∃ s', DeleteThread a (s.put a { thread with isDetached := true }) = .ok s' :=
    ⟨_, by rw [DeleteThread, deref_eq put_self]; rfl⟩
  refine ⟨s', ?_⟩
  rw [joinLoop, deref_eq hthread, ok_bind, if_pos hended, if_neg (by simp [hjoinable]), hdelete]
  rfl

theorem respond_ok {r : Process × Outcome} (hover : s.deleted = false) (hfault : s.fault = none)
    (hcall : call s label = some (.ok r)) : respond s label = some r := by
  rw [respond, if_neg (by simp [hover, hfault]), hcall]
  rfl

theorem respond_join (sound : Life.Sound s.life) (hover : s.deleted = false) (hfault : s.fault = none)
    (hthread : s.heap a = some thread) (hended : thread.hasExitValue = true) (hjoinable : thread.isDetached = false)
    (hfree : thread.joinWaiter = none) (hdiffer : b ≠ a) (hcaller : caller b s ≠ none) :
    ∃ s', respond s (.join b thread.tid) = some (s', .joined a thread.exitValue) := by
  obtain ⟨self, hself⟩ := ne_none_iff_exists'.mp hcaller
  have hb := (caller_some hself).1
  have htid : self.tid ≠ thread.tid :=
    fun h => hdiffer (sound.tids b a _ _ (life_records hb) (life_records hthread) h)
  obtain ⟨s', hloop⟩ := joinLoop_ended (b := b) hthread hended hjoinable
  have hjoin : dce_pthread_join b thread.tid s = .ok (s', .joined a thread.exitValue) := by
    rw [dce_pthread_join, deref_eq hb, ok_bind, if_neg htid, SearchThread_eq sound hthread]
    dsimp only
    rw [deref_eq hthread, ok_bind, if_neg (by simp [hjoinable, hfree]), hloop]
  refine ⟨s', respond_ok hover hfault ?_⟩
  rw [call, hself, map_some, hjoin]

theorem respond_proceed {self : Thread} {rest : List Frame} (hover : s.deleted = false) (hfault : s.fault = none)
    (hthread : s.heap a = some thread) (hended : thread.hasExitValue = true) (hjoinable : thread.isDetached = false)
    (hdiffer : a ≠ b) (hself : s.heap b = some self) (hruns : self.task = some .RUNNING)
    (hframes : self.frames = .join a :: rest) :
    ∃ s', respond s (.proceed b) = some (s', .joined a thread.exitValue) := by
  obtain ⟨s', hloop⟩ : ∃ s', joinLoop b a ((s.put b { self with frames := rest }).put a { thread with
    joinWaiter := none }) =
      .ok (s', .joined a thread.exitValue) := by
    have hput : ((s.put b { self with frames := rest }).put a { thread with joinWaiter := none }).heap a =
        some { thread with joinWaiter := none } := put_self
    have hloop := joinLoop_ended (b := b) hput hended hjoinable
    exact hloop
  have hrunning : running b s = some self := filter_eq_some_iff.mpr ⟨hself, by simpa using hruns⟩
  refine ⟨s', respond_ok hover hfault ?_⟩
  rw [call, hrunning, bind_eq_bind, bind_some, hframes, proceed]
  dsimp only
  rw [deref_eq (by rw [put_other hdiffer, hthread]), ok_bind, hloop]

theorem Accounted.of_booked (sound : Life.Sound s.life) (booked : Life.Booked s.life k) : Accounted s k where
  torn hover := by
    obtain ⟨a, r, hr, hlive⟩ := booked.live hover
    obtain ⟨thread, hthread, rfl⟩ := map_eq_some_iff.mp hr
    exact ⟨a, (sound.listed a).mpr (by rw [hr]; simp), thread, hthread, record_exited.mp hlive⟩
  kept a thread hthread := by
    have hentry := booked.entry a (sound.fresh a _ (life_records hthread))
    rw [life_records hthread] at hentry
    exact ⟨hentry.1, hentry.2.1, hentry.2.2.1⟩
  released a ha hnone := by
    have hentry := booked.entry a ha
    have hrecord : s.life.records a = none := congrArg (Option.map Thread.record) hnone
    rw [hrecord] at hentry
    exact hentry
  zombie a thread hthread htask := by
    have hentry := booked.entry a (sound.fresh a _ (life_records hthread))
    rw [life_records hthread] at hentry
    obtain ⟨-, -, hdetached, hended⟩ := hentry
    obtain ⟨hjoinable, hexits⟩ := hended (isNone_iff_eq_none.mpr htask)
    exact ⟨hdetached.trans hjoinable, hexits⟩
  joinable a thread b hthread htask hfree hover hfault hdiffer hcaller := by
    have hrecord := life_records hthread
    have hentry := booked.entry a (sound.fresh a _ hrecord)
    rw [hrecord] at hentry
    have hexited : thread.record.exited = true := isNone_iff_eq_none.mpr htask
    exact respond_join sound hover hfault hthread ((sound.exited a _ hrecord).1.mp hexited)
      (hentry.2.2.2 hexited).1 hfree hdiffer hcaller
  joiner a thread b hthread htask hjoiner := by
    have hrecord := life_records hthread
    have hentry := booked.entry a (sound.fresh a _ hrecord)
    rw [hrecord] at hentry
    have hexited : thread.record.exited = true := isNone_iff_eq_none.mpr htask
    obtain ⟨u, hu, hmem⟩ := sound.joiner a b _ hrecord hjoiner
    obtain ⟨self, hself, rfl⟩ := map_eq_some_iff.mp hu
    have hdiffer := (sound.joining b a _ hu hmem).1
    refine ⟨self, hself, fun htask => ?_, mem_calls.mp hmem, fun rest hframes =>
      ⟨fun hblocked => ?_, fun hruns hover hfault => ?_⟩⟩
    · have hnone := ((sound.exited b _ hu).2 (isNone_iff_eq_none.mpr htask)).1
      rw [hnone] at hmem
      cases hmem
    · have hcalls : self.record.calls = .join a :: rest.filter Frame.blocks := by
        rw [Thread.record, hframes, filter_cons_of_pos (by simp [Frame.blocks])]
      have hasleep : self.record.asleep = true := by simp [Thread.record, hblocked]
      have hawake := sound.awake b a _ _ _ hu hcalls hasleep hrecord
      rw [hexited] at hawake
      cases hawake
    · exact respond_proceed hover hfault hthread ((sound.exited a _ hrecord).1.mp hexited)
        (hentry.2.2.2 hexited).1 hdiffer hself hruns hframes

theorem booked_start : Life.Booked start.life .empty where
  entry a ha := by
    obtain rfl : a = 0 := Nat.lt_one_iff.mp ha
    have hzero : start.life.records 0 = some ⟨0, false, false, false, false, 0, none, []⟩ := rfl
    exact ⟨rfl, rfl, rfl, nofun⟩
  unused a ha := ⟨rfl, rfl, rfl⟩
  live _ := ⟨0, _, rfl, rfl⟩

theorem enter_crashed (l : Life) (booked : Life.Booked l k) (sound : Life.Sound l) :
    k.enter l label l .crashed = k := by
  have hdetached : (fun a => k.detached a || (l.records a).any Record.isDetached) = k.detached := by
    funext a
    cases hr : l.records a with
    | none => exact Bool.or_false _
    | some r =>
      have hentry := booked.entry a (sound.fresh a r hr)
      rw [hr] at hentry
      rw [hentry.2.2.1, any_some, Bool.or_self]
  have hreleases : (fun a => if l.records a ≠ none ∧ l.records a = none then k.releases a + 1 else k.releases a) =
      k.releases := by
    funext a
    exact if_neg fun h => h.1 h.2
  rw [Ledger.enter, hdetached]
  simp [Outcome.value]

theorem accounted_of_orderly
    (reach : (machine.ledgered .empty Ledger.note).ReachBy (fun p label => Orderly p.1 label) (s, k)) :
    Accounted s k := by
  have hinvariant : Life.Sound s.life ∧ Life.Booked s.life k := by
    refine reach.invariant (I := fun p => Life.Sound p.1.life ∧ Life.Booked p.1.life p.2) (fun p first => ?_)
      fun p label q holds orderly run => ?_
    · obtain ⟨hstart, hempty⟩ := first
      have hp : p.1 = start := hstart
      rw [hp, hempty]
      exact ⟨Life.sound_start, booked_start⟩
    · obtain ⟨sound, booked⟩ := holds
      obtain ⟨hstep, hnote⟩ := Machine.ledgered_step run
      obtain ⟨⟨t, outcome⟩, hrespond, heq⟩ := map_eq_some_iff.mp hstep
      rw [Ledger.note, hrespond] at hnote
      dsimp only at hnote
      rw [hnote, ← heq]
      rcases respond_life sound.noself hrespond with ⟨hlife, rfl, -⟩ | ⟨-, step⟩
      · rw [hlife, enter_crashed _ booked sound]
        exact ⟨sound, booked⟩
      · exact ⟨sound.step orderly.life.leaves step, booked.step sound orderly.life step⟩
  exact .of_booked hinvariant.1 hinvariant.2

end

/-- A thread is made, exits and is joined. -/
theorem accounted_joined : ∃ k, (machine.ledgered .empty Ledger.note).Reach (joined, k) ∧ joined.heap 1 = none ∧
    Accounted joined k := by
  have reach : machine.ReachBy Orderly joined := by
    refine .next (reach_oneExited (fun _ _ => trivial) trivial ⟨?_, .inr ⟨0, ?_⟩⟩ fun _ _ => trivial)
      (a := .join 0 1) trivial rfl
    · rintro thread ⟨⟩ t hmem
      cases hmem
    · exact ⟨_, Nat.zero_ne_one, rfl, some_ne_none _⟩
  obtain ⟨k, beside⟩ := reach.ledgered
  exact ⟨k, beside.reach, by decide, accounted_of_orderly beside⟩

/-- The second thread exits, and then the first, which has not joined it. -/
theorem unjoined_keeps_process : ¬ ∀ s k, (machine.ledgered .empty Ledger.note).Reach (s, k) → Accounted s k := by
  intro h
  have hrun : ((machine.step oneExited (.exit 0 0)).map fun s =>
      (s.deleted, s.threads.all fun a => (s.heap a).all fun thread => thread.task.isNone)) = some (false, true) :=
      by decide
  obtain ⟨s, hstep, hends⟩ := map_eq_some_iff.mp hrun
  obtain ⟨hover, hall⟩ := Prod.mk.inj hends
  have exited : machine.Reach oneExited := reach_oneExited (fun _ _ => trivial) trivial trivial fun _ _ => trivial
  have reach : machine.Reach s := .next exited trivial hstep
  obtain ⟨k, beside⟩ := reach.ledgered
  obtain ⟨a, ha, thread, hthread, htask⟩ := (h s k beside).torn hover
  have hnone := all_eq_true.mp hall a ha
  rw [hthread] at hnone
  exact htask (by simpa using hnone)

end Dce.Threads
