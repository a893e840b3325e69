import Dce.Threads.Life

/- The records of the threads agree with each other, as long as no thread leaves a join by its own end. -/

namespace Dce.Threads

open Function List Option

namespace Life

section

variable {l : Life} {a b : Nat} {r : Record}

@[grind =]
theorem set_records : (l.set a r).records b = if b = a then some r else l.records b := update_apply ..

@[grind =]
theorem set_threads : (l.set a r).threads = l.threads := rfl

@[grind =]
theorem set_next : (l.set a r).next = l.next := rfl

@[grind =]
theorem delete_next : (l.delete a).next = l.next := rfl

@[grind =]
theorem delete_records : (l.delete a).records b = if b = a then none else l.records b := update_apply ..

@[grind =]
theorem born_records {tid : Nat} : (l.born tid).records b =
    if b = l.next then some ⟨tid, false, false, false, false, 0, none, []⟩ else l.records b :=
  update_apply ..

@[grind =]
theorem torn_records : l.torn.records b = if b ∈ l.threads then none else l.records b := rfl

end

/-- What the records say of each other. -/
structure Sound (l : Life) : Prop where
  listed : ∀ a, a ∈ l.threads ↔ l.records a ≠ none
  nodup : l.threads.Nodup
  fresh : ∀ a r, l.records a = some r → a < l.next
  tids : ∀ a b r u, l.records a = some r → l.records b = some u → r.tid = u.tid → a = b
  exited : ∀ a r, l.records a = some r → (r.exited = true ↔ r.hasExitValue = true) ∧
    (r.exited = true → r.calls = [] ∧ r.asleep = false)
  /-- Who is in a join of a thread is its joiner, and the only one. -/
  joining : ∀ a t u, l.records a = some u → .join t ∈ u.calls →
    t ≠ a ∧ ∃ r, l.records t = some r ∧ r.joinWaiter = some a ∧ r.isDetached = false
  once : ∀ a t u, l.records a = some u → u.calls.count (.join t) ≤ 1
  joiner : ∀ t a r, l.records t = some r → r.joinWaiter = some a → ∃ u, l.records a = some u ∧ .join t ∈ u.calls
  /-- No joiner sleeps through the end of the thread. -/
  awake : ∀ a t u r rest, l.records a = some u → u.calls = .join t :: rest → u.asleep = true → l.records t = some r →
    r.exited = false

/-- No thread exits in a join, from a handler that ran there. -/
def Leaves (l : Life) (label : Label) : Prop :=
  ∀ a v u, label = .exit a v → l.records a = some u → ∀ t, .join t ∉ u.calls

section

variable {l l' : Life} {a t : Nat} {u r : Record} (sound : Sound l)
include sound

/-- A thread that was woken, or whose joins stayed: it does not sleep in the join of a thread that has ended. -/
theorem Sound.resets (known : l.records a = some u) {asleep : Bool} {calls : List Frame}
    (alive : u.exited = true → asleep = false ∧ calls = [])
    (same : ∀ x, calls.count (.join x) = u.calls.count (.join x))
    (last : asleep = true → ∀ x rest r, calls = .join x :: rest → l.records x = some r → r.exited = false) :
    Sound (l.set a { u with asleep := asleep, calls := calls }) := by
  have hmem : ∀ x, .join x ∈ calls ↔ .join x ∈ u.calls := by
    intro x
    rw [← count_pos_iff, ← count_pos_iff, same x]
  exact {
    listed := fun b => by grind [sound.listed b]
    nodup := sound.nodup
    fresh := fun b x hx => by grind [sound.fresh b]
    tids := by grind [sound.tids]
    exited := by grind [sound.exited]
    joining := by grind [sound.joining]
    once := by
      have honce := sound.once
      grind
    joiner := by grind [sound.joiner]
    awake := by grind [sound.awake] }

theorem Sound.waken (known : l.records a = some u) : Sound (l.set a { u with asleep := false }) :=
  sound.resets known (fun exited => ⟨rfl, ((sound.exited a u known).2 exited).1⟩) (fun _ => rfl) nofun

omit sound in
theorem wake_eq (a : Nat) (l : Life) :
    l.wake a = l ∨ ∃ u, l.records a = some u ∧ l.wake a = l.set a { u with asleep := false } := by
  cases hknown : l.records a with
  | none =>
    refine .inl ?_
    rw [Life.wake, hknown, map_none, ← hknown, update_eq_self]
  | some u => exact .inr ⟨u, rfl, Life.wake_known hknown⟩

theorem Sound.wake (a : Nat) : Sound (l.wake a) := by
  rcases wake_eq a l with hsame | ⟨u, hknown, hset⟩
  · rw [hsame]
    exact sound
  · rw [hset]
    exact sound.waken hknown

theorem Sound.wakeJoiner (joinWaiter : Option Nat) : Sound (l.wakeJoiner joinWaiter) := by
  cases joinWaiter with
  | none => exact sound
  | some j => exact sound.wake j

theorem Sound.born {tid : Nat} (unused : ∀ b ∈ l.threads, ∀ r, l.records b = some r → r.tid ≠ tid) :
    Sound (l.born tid) := by
  have habsent : l.records l.next = none := by
    cases hnext : l.records l.next with
    | none => rfl
    | some r => exact absurd (sound.fresh _ r hnext) (lt_irrefl _)
  have hunlisted : l.next ∉ l.threads := fun hmem => (sound.listed _).mp hmem habsent
  exact {
    listed := fun b => by
      have hlisted := sound.listed b
      have hthreads : (l.born tid).threads = l.threads ++ [l.next] := rfl
      grind
    nodup := nodup_append.mpr ⟨sound.nodup, nodup_singleton _, by grind⟩
    fresh := fun b r hr => by
      have hnext : (l.born tid).next = l.next + 1 := rfl
      have hfresh := sound.fresh b
      grind
    tids := by
      have htids := sound.tids
      have hlisted := sound.listed
      grind
    exited := by grind [sound.exited]
    joining := by grind [sound.joining]
    once := by
      have honce := sound.once
      grind
    joiner := by grind [sound.joiner]
    awake := by grind [sound.awake] }

theorem Sound.torn : Sound l.torn := by
  have hnone : ∀ a, l.torn.records a = none := by
    intro a
    have hlisted := sound.listed a
    grind
  exact {
    listed := fun a => ⟨fun hmem => absurd hmem not_mem_nil, fun hsome => absurd (hnone a) hsome⟩
    nodup := nodup_nil
    fresh := by grind
    tids := by grind
    exited := by grind
    joining := by grind
    once := by grind
    joiner := by grind
    awake := by grind }

section

variable (known : l.records a = some u)
include known

theorem Sound.exits {v : Nat} (outside : ∀ t, .join t ∉ u.calls)
    (told : ∀ b w rest, l.records b = some w → w.calls = .join a :: rest → w.asleep = false) :
    Sound (l.set a { u with
      exited := true, asleep := false, hasExitValue := true, exitValue := v, calls := [] }) where
  listed b := by grind [sound.listed b]
  nodup := sound.nodup
  fresh b x hx := by grind [sound.fresh b]
  tids := by grind [sound.tids]
  exited := by grind [sound.exited]
  joining := by grind [sound.joining]
  once := by
    have honce := sound.once
    grind
  joiner := by grind [sound.joiner]
  awake := by grind [sound.awake]

theorem Sound.delete (outside : ∀ t, .join t ∉ u.calls)
    (alone : ∀ b w, l.records b = some w → .join a ∉ w.calls) : Sound (l.delete a) where
  listed b := by
    have hlisted := sound.listed b
    have hthreads : (l.delete a).threads = l.threads.erase a := rfl
    rw [hthreads, sound.nodup.mem_erase_iff]
    grind
  nodup := sound.nodup.erase a
  fresh b x hx := by grind [sound.fresh b]
  tids := by grind [sound.tids]
  exited := by grind [sound.exited]
  joining := by grind [sound.joining]
  once := by
    have honce := sound.once
    grind
  joiner := by grind [sound.joiner]
  awake := by grind [sound.awake]

theorem Sound.joins (alive : u.exited = false) (ne : t ≠ a)
    (target : l.records t = some r) (free : r.joinWaiter = none) (joinable : r.isDetached = false)
    (lives : r.hasExitValue = false) :
    Sound ((l.set t { r with joinWaiter := some a }).set a { u with
      asleep := true, calls := .join t :: u.calls }) where
  listed b := by grind [sound.listed b]
  nodup := sound.nodup
  fresh b x hx := by grind [sound.fresh b]
  tids := by grind [sound.tids]
  exited := by grind [sound.exited]
  joining := by
    have hjoining := sound.joining
    grind
  once := by
    have honce := sound.once
    have hjoining := sound.joining
    grind
  joiner := by grind [sound.joiner]
  awake := by
    have hawake := sound.awake
    have hexited := sound.exited
    grind

theorem Sound.sleepsAgain {rest : List Frame} (alive : u.exited = false)
    (inside : u.calls = .join t :: rest) (target : l.records t = some r) (lives : r.hasExitValue = false) :
    Sound (l.set a { u with asleep := true }) := by
  refine sound.resets known (fun exited => nomatch alive.symm.trans exited) (fun _ =>
    rfl) fun _ x others w is found => ?_
  cases inside.symm.trans is
  cases target.symm.trans found
  exact Bool.eq_false_iff.mpr fun exited => nomatch lives.symm.trans ((sound.exited t r target).1.mp exited)

theorem Sound.returns {rest : List Frame} (runs : u.asleep = false)
    (inside : u.calls = .join t :: rest) (target : l.records t = some r) (ended : r.hasExitValue = true) :
    Sound ((l.set a { u with calls := rest }).delete t) := by
  have hjoins : .join t ∈ u.calls := inside ▸ mem_cons_self
  have hrest : .join t ∉ rest := by
    have honce := sound.once a t u known
    rw [inside, count_cons_self] at honce
    exact count_eq_zero.mp (by omega)
  have halone : ∀ b w, l.records b = some w → .join t ∈ w.calls → b = a := by
    intro b w hw hmem
    obtain ⟨-, x, hx, hjoiner, -⟩ := sound.joining a t u known hjoins
    obtain ⟨-, y, hy, hother, -⟩ := sound.joining b t w hw hmem
    cases hx.symm.trans hy
    exact some.inj (hother.symm.trans hjoiner)
  exact {
    listed := fun b => by
      have hlisted := sound.listed b
      have hthreads : ((l.set a { u with calls := rest }).delete t).threads = l.threads.erase t := rfl
      rw [hthreads, sound.nodup.mem_erase_iff]
      grind
    nodup := sound.nodup.erase t
    fresh := fun b x hx => by grind [sound.fresh b]
    tids := by grind [sound.tids]
    exited := by grind [sound.exited]
    joining := by grind [sound.joining]
    once := by
      have honce := sound.once
      grind
    joiner := by
      have hjoiner := sound.joiner
      have hexited := sound.exited
      grind
    awake := by grind [sound.awake] }

omit known in
theorem Sound.detaches (target : l.records t = some r) (free : r.joinWaiter = none) :
    Sound (l.set t { r with isDetached := true }) where
  listed b := by grind [sound.listed b]
  nodup := sound.nodup
  fresh b x hx := by grind [sound.fresh b]
  tids := by grind [sound.tids]
  exited := by grind [sound.exited]
  joining := by grind [sound.joining]
  once := by
    have honce := sound.once
    grind
  joiner := by grind [sound.joiner]
  awake := by grind [sound.awake]

theorem Sound.rewaits {asleep : Bool} {calls : List Frame}
    (alive : u.exited = false) (same : ∀ x, calls.count (.join x) = u.calls.count (.join x))
    (last : asleep = true → ∀ x rest, calls ≠ .join x :: rest) :
    Sound (l.set a { u with asleep := asleep, calls := calls }) :=
  sound.resets known (fun exited => nomatch alive.symm.trans exited) same fun sleeps x rest _ is =>
    absurd is (last sleeps x rest)

end

theorem Sound.waiting (waiting : Nat → Option Nat) : Sound { l with waiting := waiting } :=
  ⟨sound.listed, sound.nodup, sound.fresh, sound.tids, sound.exited, sound.joining, sound.once,
    sound.joiner, sound.awake⟩

theorem Sound.wakeJoiner_known (known : l.records a = some r) : (l.wakeJoiner r.joinWaiter).records a = some r ∧
      ∀ b w rest, (l.wakeJoiner r.joinWaiter).records b = some w → w.calls = .join a :: rest → w.asleep = false := by
  have hjoins : ∀ b w rest, l.records b = some w → w.calls = .join a :: rest → r.joinWaiter = some b := by
    intro b w rest hw hcalls
    obtain ⟨-, x, hx, hjoiner, -⟩ := sound.joining b a w hw (hcalls ▸ mem_cons_self)
    cases hx.symm.trans known
    exact hjoiner
  cases hj : r.joinWaiter with
  | none =>
    refine ⟨known, fun b w rest hw hcalls => ?_⟩
    cases hj.symm.trans (hjoins b w rest hw hcalls)
  | some j =>
    obtain ⟨x, hx, hmem⟩ := sound.joiner a j r known hj
    have hdiffer := (sound.joining j a x hx hmem).1
    rw [Life.wakeJoiner, Life.wake_known hx]
    refine ⟨by rw [set_records, if_neg hdiffer]; exact known, fun b w rest hw hcalls => ?_⟩
    rw [set_records] at hw
    split at hw
    · exact congrArg Record.asleep (some.inj hw).symm
    next hb =>
      exact absurd (some.inj (hj.symm.trans (hjoins b w rest hw hcalls))).symm hb

theorem Sound.step {label : Label} {outcome : Outcome} (leaves : Leaves l label) (step : l.Step label outcome l') :
    Sound l' := by
  cases step with
  | same => exact sound
  | wakes b => exact sound.wake b
  | creates unused => exact sound.born unused
  | tears => exact sound.torn
  | @exits a v r known =>
    obtain ⟨hknown, htold⟩ := sound.wakeJoiner_known known
    exact (sound.wakeJoiner r.joinWaiter).exits hknown (leaves a v r rfl known) htold
  | @vanishes a v r known alive detached =>
    refine sound.delete known (leaves a v r rfl known) fun b w hw hmem => ?_
    obtain ⟨-, x, hx, -, hjoinable⟩ := sound.joining b a w hw hmem
    obtain rfl := some.inj (hx.symm.trans known)
    cases detached.symm.trans hjoinable
  | joins known alive ne target free joinable lives => exact sound.joins known alive ne target free joinable lives
  | @reaps a tid t r target free joinable ended =>
    have hcalls := ((sound.exited t r target).2 ((sound.exited t r target).1.mpr ended)).1
    refine sound.delete target (fun x hmem => nomatch (hcalls ▸ hmem)) fun b w hw hmem => ?_
    obtain ⟨-, x, hx, hjoiner, -⟩ := sound.joining b t w hw hmem
    obtain rfl := some.inj (hx.symm.trans target)
    cases free.symm.trans hjoiner
  | @sleepsAgain a t u r rest known alive inside target lives =>
    obtain ⟨-, x, hx, hjoiner, -⟩ := sound.joining a t u known (inside ▸ mem_cons_self)
    obtain rfl := some.inj (hx.symm.trans target)
    have hsame : l.set t { x with joinWaiter := some a } = l := by
      rw [← hjoiner]
      exact Life.set_known target
    rw [hsame]
    exact sound.sleepsAgain known alive inside target lives
  | returns known alive runs inside target joinable ended => exact sound.returns known runs inside target ended
  | detaches target htid free => exact sound.detaches target free
  | waits w known alive =>
    exact (sound.rewaits known alive (fun x => count_cons_of_ne (by simp)) fun _ x rest h =>
      absurd h (by simp)).waiting _
  | @waited a w u rest o known alive runs inside =>
    have hsame : ∀ x, rest.count (.join x) = u.calls.count (.join x) := by
      intro x
      rw [inside, count_cons_of_ne (by simp)]
    have hrewaits : Sound (l.set a { u with asleep := u.asleep, calls := rest }) :=
      sound.rewaits known alive hsame fun h => nomatch (runs.symm.trans h)
    exact hrewaits.waiting _

theorem Sound.noself : ∀ a u, l.records a = some u → .join a ∉ u.calls :=
  fun a u hu hmem => (sound.joining a a u hu hmem).1 rfl

end

theorem sound_start : Sound start.life := by
  have hrecords : ∀ a r, start.life.records a = some r → a = 0 ∧
      r = ⟨0, false, false, false, false, 0, none, []⟩ := by
    intro a r hr
    obtain ⟨thread, hthread, rfl⟩ := map_eq_some_iff.mp hr
    have hheap : start.heap = update (fun _ => none) 0 (some { Thread.new 0 with task := some .ACTIVE }) := rfl
    rw [hheap, update_apply] at hthread
    split at hthread
    next hzero => exact ⟨hzero, (some.inj hthread) ▸ rfl⟩
    · cases hthread
  have hzero : start.life.records 0 ≠ none := by decide
  have hthreads : start.life.threads = [0] := rfl
  have hnext : start.life.next = 1 := rfl
  exact {
    listed := fun a => by
      rw [hthreads, mem_singleton]
      refine ⟨fun h => h ▸ hzero, fun h => ?_⟩
      obtain ⟨r, hr⟩ := ne_none_iff_exists'.mp h
      exact (hrecords a r hr).1
    nodup := nodup_singleton 0
    fresh := by grind
    tids := by grind
    exited := by grind
    joining := by grind
    once := by grind
    joiner := by grind
    awake := by grind }

end Life

end Dce.Threads
