import Dce.Polling.Balance

/- Which steps of a process leave the counts of its descriptors balanced. -/

namespace Dce.Polling

open Table List Option

variable {T : Type*} {s s' : Process T} {a b : Nat} {fd : Int} {fu : FileUsage}

/-- A step that counts as many uses as its call is going to give back, and leaves no more behind. -/
structure Tidy (s s' : Process T) : Prop where
  sound : Sound s'
  even : ∀ a, surplus a s' = surplus a s
  clean : ∀ a, isOver a s' = true → isOver a s = true

theorem Tidy.balanced (tidy : Tidy s s') (sound : Sound s) (balanced : Balanced s) : Balanced s' := by
  obtain ⟨even, clean⟩ := sound.balanced_iff.mp balanced
  refine tidy.sound.balanced_iff.mpr ⟨fun a => (tidy.even a).trans (even a), fun a => ?_⟩
  by_contra finished
  have before := tidy.clean a (by simpa using finished)
  simp [clean a] at before

theorem isOver_iff : isOver a s = true ↔ ((s.heap a).any fun fu => fu.m_closing) = true ∧ count a s = 0 := by
  unfold isOver count
  cases s.heap a with
  | none => simp
  | some fu => simp [and_comm]

theorem Recounts.clean (recounts : Recounts s s')
    (lower : ∀ a, count a s' = 0 → isOver a s' = true → count a s = 0) :
    ∀ a, isOver a s' = true → isOver a s = true := by
  intro a finished
  obtain ⟨closing, zero⟩ := isOver_iff.mp finished
  exact isOver_iff.mpr ⟨(recounts.closing id a).symm.trans closing, lower a zero finished⟩

section

section

variable (sound : Sound s)
include sound

theorem tidy_newFileUsage (absent : s.openFiles.lookup fd = none) : Tidy s (newFileUsage fd s) where
  sound := sound.newFileUsage absent
  even _ := surplus_newFileUsage sound
  clean a finished := by
    by_cases new : a = s.nextUsage
    · subst new; simp [isOver, newFileUsage] at finished
    · simpa [isOver, newFileUsage, new] using finished

theorem tidy_forget (found : s.openFiles.lookup fd = some b) (unused : count b s = 0) : Tidy s (forget fd b s) where
  sound := sound.forget found unused
  even _ := surplus_forget unused
  clean a finished := by
    by_cases this : a = b
    · subst this; simp [isOver, forget] at finished
    · simpa [isOver, forget, this] using finished

theorem Tidy.refl : Tidy s s := ⟨sound, fun _ => rfl, fun _ => id⟩

theorem tidy_mark (here : s.heap b = some fu) (used : fu.m_count ≠ 0) :
    Tidy s (modify b (fun fu => { fu with m_closing := true }) s) := by
  have counts : ∀ a, count a (modify b (fun fu => { fu with m_closing := true }) s) = count a s := fun a => by
    rw [count_modify here]
    split
    next same => subst same; simp [count, here]
    next => rfl
  have even : ∀ a, surplus a (modify b (fun fu => { fu with m_closing := true }) s) = surplus a s := fun a =>
    congrArg (· - (uses a s : Int)) (counts a)
  have exists_iff : ∀ a, ((modify b (fun fu => { fu with m_closing := true }) s).heap a).isSome =
      (s.heap a).isSome := by
    intro a
    by_cases same : a = b
    · subst same; simp [modify]
    · simp [modify, same]
  constructor
  case sound =>
    exact {
      alive := fun fd a found => (exists_iff a).trans (sound.alive fd a found)
      placed := fun a present => sound.placed a ((exists_iff a).symm.trans present)
      apart := sound.apart
      older := fun a above => by
        have same := exists_iff a
        rw [sound.older a above] at same
        exact not_isSome_iff_eq_none.mp (by simp [same])
      held := sound.held
      covered := fun a => even a ▸ sound.covered a }
  case even => exact even
  case clean =>
    intro a finished
    obtain ⟨closing, zero⟩ := isOver_iff.mp finished
    rw [counts] at zero
    by_cases same : a = b
    · subst same; simp [count, here, used] at zero
    · exact isOver_iff.mpr ⟨by simpa [modify, same] using closing, zero⟩

theorem tidy_close : Tidy s (dce_close fd s).1 := by
  unfold dce_close
  split
  next => exact .refl sound
  next a found =>
    obtain ⟨fu, here⟩ := isSome_iff_exists.mp (sound.alive fd a found)
    rw [here]
    split
    next zero => exact tidy_forget sound found (by simpa [count, here] using zero)
    next used => exact tidy_mark sound here (by simpa using used)

end

variable [DecidableEq T] {t : T} {c : Call}

omit [DecidableEq T] in
theorem tidy_enter (sound : Sound s) {call : Int → Nat → Call}
    (single : ∀ fd a b, (call fd a).uses b = if a = b then 1 else 0)
    (holds : ∀ fd a fd' b, (call fd a).Holds fd' b → fd = fd' ∧ a = b) : Tidy s (enter t fd call s).1 := by
  unfold enter
  split
  next => exact .refl sound
  next a found =>
    obtain ⟨look, fu, here, opened⟩ := findOpen_some found
    have counts : ∀ b, count b (GetFileInc a s) = count b s + if a = b then 1 else 0 := fun b =>
      count_GetFileInc (here ▸ rfl)
    have even : ∀ b, surplus b (push t (call fd a) (GetFileInc a s)) = surplus b s := fun b => by
      have same : count b (push t (call fd a) (GetFileInc a s)) = count b (GetFileInc a s) := rfl
      have used : uses b (GetFileInc a s) = uses b s := rfl
      rw [surplus, surplus, same, uses_push, counts, single]
      split <;> omega
    have recounts : Recounts s (push t (call fd a) (GetFileInc a s)) := recounts_GetFileInc.trans recounts_push
    constructor
    case sound =>
      refine sound.recounts recounts (fun c mem fd' b held => ?_) fun b => (even b).ge
      rcases mem_cons.mp mem with rfl | before
      · obtain ⟨rfl, rfl⟩ := holds fd a fd' b held
        exact look
      · exact sound.held c before fd' b held
    case even => exact even
    case clean =>
      refine recounts.clean fun b zero finished => ?_
      have covered := sound.covered b
      have count_eq : count b (push t (call fd a) (GetFileInc a s)) = count b s + if a = b then 1 else 0 := counts b
      rw [surplus] at covered
      split at count_eq <;> omega

theorem tidy_leave (sound : Sound s) (here : innermost t s = some c)
    (single : ∀ b, c.uses b = if a = b then 1 else 0)
    (holds : c.Holds fd a) : Tidy s (decUsage fd a (pop t s)) := by
  have look := sound.held (t, c) (mem_of_innermost here) fd a holds
  have alive := sound.alive fd a look
  have recounts : Recounts s (DecUsage a (pop t s)) := recounts_pop.trans recounts_DecUsage
  have even : ∀ b, surplus b (DecUsage a (pop t s)) = surplus b s := fun b => surplus_leave here single alive
  have after : Sound (DecUsage a (pop t s)) :=
    sound.recounts recounts (fun e mem fd' b held => sound.held e (mem_of_pop mem) fd' b held) fun b => (even b).ge
  have other : ∀ b, a ≠ b → isOver b (DecUsage a (pop t s)) = true → isOver b s = true := by
    intro b ne finished
    obtain ⟨closing, zero⟩ := isOver_iff.mp finished
    have counts : count b (DecUsage a (pop t s)) = count b s - if a = b then 1 else 0 := count_DecUsage alive
    exact isOver_iff.mpr ⟨(recounts.closing id b).symm.trans closing, by omega⟩
  unfold decUsage
  dsimp only
  split
  next finished =>
    have zero := (isOver_iff.mp finished).2
    have forgets := tidy_forget after look zero
    refine ⟨forgets.sound, fun b => (forgets.even b).trans (even b), fun b still => ?_⟩
    by_cases same : a = b
    · subst same; simp [isOver, forget] at still
    · exact other b same (forgets.clean b still)
  next used =>
    refine ⟨after, even, fun b still => ?_⟩
    by_cases same : a = b
    · subst same; exact absurd still used
    · exact other b same still

end

section

variable {t : T} {m : Table Int Nat} {l : List (Int × Nat)} {p : Poll}

theorem tally_le_one (sound : Sound s) (known : ∀ fd a, m.lookup fd = some a → s.openFiles.lookup fd = some a) :
    tally (fun fu => decide (fu = a)) m ≤ 1 := by
  by_contra more
  obtain ⟨fd, b, found, same⟩ := tally_pos_iff.mp (show 0 < tally (fun fu => decide (fu = a)) m by omega)
  obtain ⟨fd', b', ne, found', same'⟩ := exists_other (p := fun fu => decide (fu = a)) found (by omega)
  obtain rfl : b = a := of_decide_eq_true same
  obtain rfl : b' = b := of_decide_eq_true same'
  exact ne (sound.apart fd' fd b' (known fd' b' found') (known fd b' found))

/-- The first round of a poll has counted the descriptors of `l`. -/
def register (t : T) (p : Poll) (l : List (Int × Nat)) (s : Process T) : Process T := push t (.poll p) (countAll l s)

theorem recounts_register : Recounts s (register t p l s) := recounts_countAll.trans recounts_push

theorem surplus_register (opened : ∀ e ∈ l, (s.heap e.2).isSome) : surplus a (register t p l s) =
    surplus a s + (l.countP fun e => decide (e.2 = a)) - tally (fun fu => decide (fu = a)) p.toUnRef := by
  have counts : count a (register t p l s) = count a s + l.countP fun e => decide (e.2 = a) := count_countAll opened
  have used : uses a (register t p l s) = tally (fun fu => decide (fu = a)) p.toUnRef + uses a s := by
    rw [register, uses_push, Call.uses, uses, countAll_calls, uses]
  rw [surplus, surplus]
  omega

/-- The uses that the first round counts are those that the poll gives back, where no descriptor is counted
twice. -/
theorem register_spec (sound : Sound s) (opened : ∀ e ∈ l, findOpen e.1 s = some e.2)
    (noted : p.toUnRef = insertAll l ∅) : Sound (register t p l s) ∧
    ((∀ a, surplus a (register t p l s) = surplus a s) ↔ (l.map Prod.fst).Nodup) ∧
    ∀ a, isOver a (register t p l s) = true → isOver a s = true := by
  let look : Int → Option Nat := fun fd => s.openFiles.lookup fd
  have agree : ∀ e ∈ l, look e.1 = some e.2 := fun e mem => (findOpen_some (opened e mem)).1
  have empty : ∀ k a, (∅ : Table Int Nat).lookup k = some a → look k = some a := fun k a found => by
    simp at found
  have changes : ∀ a, surplus a (register t p l s) = _ := fun a =>
    surplus_register fun e mem => sound.alive e.1 e.2 (agree e mem)
  have most : ∀ a, surplus a s ≤ surplus a (register t p l s) := fun a => by
    have le := tally_insertAll_le look (p := fun fu => decide (fu = a)) empty agree
    rw [← noted] at le
    have none : tally (fun fu => decide (fu = a)) (∅ : Table Int Nat) = 0 := rfl
    rw [changes]
    omega
  refine ⟨sound.recounts recounts_register (fun c mem fd a held => ?_) most, ?_, ?_⟩
  · rcases mem_cons.mp mem with rfl | before
    · have found : p.toUnRef.lookup fd = some a := held
      rw [noted] at found
      exact lookup_insertAll look empty agree found
    · exact sound.held c (countAll_calls ▸ before) fd a held
  · have exact_when := tally_insertAll_iff look (m := ∅) empty agree
    have absent : ∀ e ∈ l, e.1 ∉ (∅ : Table Int Nat) := fun e _ => AList.notMem_empty e.1
    rw [← noted] at exact_when
    constructor
    · intro even
      refine (exact_when.mp fun a => ?_).1
      have equal := even a
      rw [changes] at equal
      have none : tally (fun fu => decide (fu = a)) (∅ : Table Int Nat) = 0 := rfl
      omega
    · intro nodup a
      have equal := exact_when.mpr ⟨nodup, absent⟩ a
      have none : tally (fun fu => decide (fu = a)) (∅ : Table Int Nat) = 0 := rfl
      rw [changes]
      omega
  · refine recounts_register.clean fun a zero _ => ?_
    have counts : count a (register t p l s) = count a s + l.countP fun e => decide (e.2 = a) :=
      count_countAll fun e mem => sound.alive e.1 e.2 (agree e mem)
    have covered := sound.covered a
    rw [surplus] at covered
    omega

/-- No descriptor that the poll has counted is closed and used by nobody else. -/
def Shared (p : Poll) (s : Process T) : Prop :=
  ∀ fd a fu, p.toUnRef.lookup fd = some a → s.heap a = some fu → fu.m_closing = true → fu.m_count ≠ 1

variable [DecidableEq T]

theorem release_spec (sound : Sound s) (here : innermost t s = some (.poll p)) :
    Sound (release p.toUnRef (pop t s)) ∧ (∀ a, surplus a (release p.toUnRef (pop t s)) = surplus a s) ∧
    ((∀ a, isOver a (release p.toUnRef (pop t s)) = false) ↔ (∀ a, isOver a s = false) ∧ Shared p s) := by
  have known : ∀ fd a, p.toUnRef.lookup fd = some a → s.openFiles.lookup fd = some a :=
    sound.held (t, .poll p) (mem_of_innermost here)
  have recounts : Recounts s (release p.toUnRef (pop t s)) := recounts_pop.trans recounts_release
  have counts : ∀ a, count a (release p.toUnRef (pop t s)) = count a s -
    tally (fun fu => decide (fu = a)) p.toUnRef := fun a =>
      count_release fun fd a found => sound.alive fd a (known fd a found)
  have even : ∀ a, surplus a (release p.toUnRef (pop t s)) = surplus a s := fun a => by
    have before := uses_pop (a := a) here
    have same : uses a (release p.toUnRef (pop t s)) = uses a (pop t s) := by
      rw [uses, release_calls, uses]
    rw [Call.uses] at before
    rw [surplus, surplus, counts]
    omega
  have covered : ∀ a, (tally (fun fu => decide (fu = a)) p.toUnRef : Int) ≤ count a s := fun a => by
    have before := uses_pop (a := a) here
    have enough := sound.covered a
    rw [Call.uses] at before
    rw [surplus] at enough
    omega
  refine ⟨sound.recounts recounts (fun c mem fd a held => ?_) fun a => (even a).ge, even, ?_⟩
  · exact sound.held c (mem_of_pop (release_calls (s := pop t s) ▸ mem)) fd a held
  · constructor
    · intro clean
      refine ⟨fun a => ?_, fun fd a fu found alive closing last => ?_⟩
      · by_contra finished
        obtain ⟨closing, zero⟩ := isOver_iff.mp (eq_true_of_ne_false finished)
        have after := counts a
        have enough := covered a
        have still := isOver_iff.mpr ⟨(recounts.closing id a).trans closing, by omega⟩
        simp [clean a] at still
      · have one : count a s = 1 := by simpa [count, alive] using last
        have listed := tally_pos (p := fun fu => decide (fu = a)) found (decide_eq_true rfl)
        have after := counts a
        have enough := covered a
        have marked : ((s.heap a).any fun fu => fu.m_closing) = true := by simp [alive, closing]
        have still := isOver_iff.mpr ⟨(recounts.closing id a).trans marked, by omega⟩
        simp [clean a] at still
    · rintro ⟨clean, shared⟩ a
      by_contra finished
      obtain ⟨closing, zero⟩ := isOver_iff.mp (eq_true_of_ne_false finished)
      have marked := (recounts.closing id a).symm.trans closing
      have after := counts a
      have single := tally_le_one (a := a) sound known
      by_cases unlisted : tally (fun fu => decide (fu = a)) p.toUnRef = 0
      · have before := isOver_iff.mpr ⟨marked, by omega⟩
        simp [clean a] at before
      · obtain ⟨fd, b, found, same⟩ := tally_pos_iff.mp (pos_of_ne_zero unlisted)
        obtain rfl : b = a := of_decide_eq_true same
        obtain ⟨fu, alive⟩ := isSome_iff_exists.mp (sound.alive fd b (known fd b found))
        have one : count b s = 1 := by omega
        exact shared fd b fu found alive (by simpa [alive] using marked) (by simpa [count, alive] using one)

/-- A poll that waits comes back after its next round. -/
def Ends (answer : Nat → Nat) (s : Process T) (p : Poll) : Prop :=
  (∃ pfd ∈ p.fds, isReady answer s pfd = true) ∨ p.timeout = 0 ∨ (0 < p.timeout ∧ p.endtime ≤ s.now)

theorem pollAgain_spec {answer : Nat → Nat} :
    (Ends answer s p ∧ (pollAgain t p answer s).1 = release p.toUnRef (pop t s)) ∨
    (¬ Ends answer s p ∧ (pollAgain t p answer s).1 = s) := by
  let r : Round T := ⟨s, p.toUnRef, false, 0⟩
  have process : (pollRound answer p.fds r).2.process = s := (pollRound_silent rfl).1
  have count : (pollRound answer p.fds r).2.count = 0 + p.fds.countP (isReady answer s) := pollRound_count (.refl s)
  have ready : (pollRound answer p.fds r).2.count ≠ 0 ↔ ∃ pfd ∈ p.fds, isReady answer s pfd = true := by
    rw [count, Nat.zero_add, ← Nat.pos_iff_ne_zero, countP_pos_iff]
  have whole : pollAgain t p answer s = afterRound t p (pollRound answer p.fds r).1
      (pollRound answer p.fds r).2.count s := by
    conv_rhs => rw [← process]
    rfl
  have ends_iff : ((pollRound answer p.fds r).2.count ≠ 0 ∨ p.timeout = 0 ∨ (0 < p.timeout ∧ p.endtime ≤ s.now)) ↔
      Ends answer s p := or_congr ready .rfl
  rw [whole, afterRound]
  split
  next ends => exact .inl ⟨ends_iff.mp ends, rfl⟩
  next waits => exact .inr ⟨fun ends => waits (ends_iff.mpr ends), rfl⟩

/-- The descriptors that a poll counts. -/
def counted (answer : Nat → Nat) (s : Process T) (fds : List PollFd) (timeout : Int) : List (Int × Nat) :=
  if timeout ≠ 0 then registered answer s fds else []

theorem dce_poll_spec {answer : Nat → Nat} {fds : List PollFd} {timeout : Int} :
    ∃ p : Poll, p.toUnRef = insertAll (counted answer s fds timeout) ∅ ∧
      ((dce_poll t fds timeout answer s).1 = register t p (counted answer s fds timeout) s ∨
        (dce_poll t fds timeout answer s).1 =
          release p.toUnRef (pop t (register t p (counted answer s fds timeout) s))) := by
  let clear := fds.map fun pfd => { pfd with revents := 0 }
  let r : Round T := ⟨s, ∅, timeout ≠ 0, 0⟩
  let done := (pollRound answer clear r).2
  have first : done.process = countAll (counted answer s fds timeout) s ∧
      done.toUnRef = insertAll (counted answer s fds timeout) ∅ := by
    unfold counted
    by_cases waits : timeout ≠ 0
    · rw [if_pos waits, ← registered_clear]
      exact pollRound_registers (r := r) (decide_eq_true waits)
    · rw [if_neg waits]
      exact pollRound_silent (r := r) (decide_eq_false waits)
  let p : Poll := ⟨clear, timeout, s.now + timeout.toNat * 1000000, done.toUnRef⟩
  have whole : dce_poll t fds timeout answer s =
      afterRound t p (pollRound answer clear r).1 done.count (register t p (counted answer s fds timeout) s) := by
    rw [register, ← first.1]
    rfl
  refine ⟨p, first.2, ?_⟩
  rw [whole, afterRound]
  split
  · exact .inr rfl
  · exact .inl rfl

end

section

variable [DecidableEq T]

/-- A poll counts no descriptor twice: none that is open is listed again before the first entry that is ready,
or the timeout is zero. And a poll comes back when somebody else still uses what it has counted, of the
descriptors that have been closed meanwhile. -/
def Careful (s : Process T) : Label T → Prop
  | .poll _ fds timeout answer => timeout ≠ 0 → ((registered answer s fds).map Prod.fst).Nodup
  | .proceed t answer => ∀ p, innermost t s = some (.poll p) → Ends answer s p → Shared p s
  | _ => True

variable {t : T} {label : Label T}

omit [DecidableEq T] in
theorem Tidy.spec (tidy : Tidy s s') (sound : Sound s) : Sound s' ∧ (Balanced s → (Balanced s' ↔ True)) :=
  ⟨tidy.sound, fun balanced => iff_true_intro (tidy.balanced sound balanced)⟩

theorem poll_spec (sound : Sound s) {answer : Nat → Nat} {fds : List PollFd} {timeout : Int} :
    Sound (dce_poll t fds timeout answer s).1 ∧ (Balanced s →
      (Balanced (dce_poll t fds timeout answer s).1 ↔ Careful s (.poll t fds timeout answer))) := by
  obtain ⟨p, noted, does⟩ : ∃ p : Poll, p.toUnRef = insertAll (counted answer s fds timeout) ∅ ∧ _ := dce_poll_spec
  have opened : ∀ e ∈ counted answer s fds timeout, findOpen e.1 s = some e.2 := by
    intro e mem
    unfold counted at mem
    split at mem
    next => exact findOpen_of_registered mem
    next => cases mem
  have once : ((counted answer s fds timeout).map Prod.fst).Nodup ↔ Careful s (.poll t fds timeout answer) := by
    unfold counted
    split
    next waits => exact ⟨fun nodup _ => nodup, fun careful => careful waits⟩
    next zero => exact ⟨fun _ waits => absurd waits zero, fun _ => nodup_nil⟩
  obtain ⟨sound₁, even, clean⟩ := register_spec (t := t) sound opened noted
  have inner : innermost t (register t p (counted answer s fds timeout) s) = some (.poll p) := by
    simp [innermost, register, push]
  rcases does with waits | ends
  · rw [waits]
    refine ⟨sound₁, fun balanced => ?_⟩
    obtain ⟨zero, swept⟩ := sound.balanced_iff.mp balanced
    rw [← once, ← even, sound₁.balanced_iff]
    constructor
    · exact fun after a => (after.1 a).trans (zero a).symm
    · refine fun same => ⟨fun a => (same a).trans (zero a), fun a => ?_⟩
      by_contra finished
      have before := clean a (eq_true_of_ne_false finished)
      simp [swept a] at before
  · obtain ⟨sound₂, even₂, swept₂⟩ := release_spec sound₁ inner
    rw [ends]
    refine ⟨sound₂, fun balanced => ?_⟩
    obtain ⟨zero, swept⟩ := sound.balanced_iff.mp balanced
    have clean₁ : ∀ a, isOver a (register t p (counted answer s fds timeout) s) = false := fun a => by
      by_contra finished
      have before := clean a (eq_true_of_ne_false finished)
      simp [swept a] at before
    -- what a poll has just counted is open
    have shared : Shared p (register t p (counted answer s fds timeout) s) := by
      intro fd a fu found alive closing
      have look : findOpen fd s = some a := lookup_insertAll (fun fd => findOpen fd s) (m := ∅)
        (fun k a none => by simp at none) opened (noted ▸ found)
      obtain ⟨-, fu', before, unclosed⟩ := findOpen_some look
      have same := (recounts_register (t := t) (p := p) (l := counted answer s fds timeout) (s := s)).closing id a
      simp [alive, before, closing, unclosed] at same
    rw [← once, ← even, sound₂.balanced_iff, swept₂]
    constructor
    · exact fun after a => (even₂ a).symm.trans ((after.1 a).trans (zero a).symm)
    · exact fun same => ⟨fun a => (even₂ a).trans ((same a).trans (zero a)), clean₁, shared⟩

theorem proceed_spec (sound : Sound s) {answer : Nat → Nat} {c : Call} (here : innermost t s = some c) :
    Sound (proceed t answer s c).1 ∧ (Balanced s → (Balanced (proceed t answer s c).1 ↔
      Careful s (.proceed t answer))) := by
  have other : (∀ p, c ≠ .poll p) → (True ↔ Careful s (.proceed t answer)) := fun ne =>
    ⟨fun _ p here' => absurd (some.inj (here.symm.trans here')) (ne p), fun _ => trivial⟩
  cases c with
  | method fd a =>
    rw [← other fun p => nofun]
    exact (tidy_leave sound here (fun _ => rfl) ⟨rfl, rfl⟩).spec sound
  | writev fd a =>
    have found : (pop t s).openFiles.lookup fd = some a :=
      sound.held (t, .writev fd a) (mem_of_innermost here) fd a ⟨rfl, rfl⟩
    have leaves : FdDecUsage fd (pop t s) = decUsage fd a (pop t s) := by
      unfold FdDecUsage
      rw [found]
    rw [← other fun p => nofun, proceed, leaves]
    exact (tidy_leave sound here (fun _ => rfl) ⟨rfl, rfl⟩).spec sound
  | poll p =>
    have careful : Careful s (.proceed t answer) ↔ (Ends answer s p → Shared p s) := by
      constructor
      · exact fun careful => careful p here
      · intro shared p' here'
        obtain rfl : p = p' := Call.poll.inj (some.inj (here.symm.trans here'))
        exact shared
    rw [careful]
    obtain ⟨ends, back⟩ | ⟨waits, back⟩ : (Ends answer s p ∧ _) ∨ (¬ Ends answer s p ∧ _) := pollAgain_spec
    · obtain ⟨sound', even, swept⟩ := release_spec sound here
      rw [proceed, back]
      refine ⟨sound', fun balanced => ?_⟩
      obtain ⟨zero, clean⟩ := sound.balanced_iff.mp balanced
      rw [sound'.balanced_iff, swept]
      constructor
      · exact fun after _ => after.2.2
      · exact fun shared => ⟨fun a => (even a).trans (zero a), clean, shared ends⟩
    · rw [proceed, back]
      exact ⟨sound, fun balanced => iff_of_true balanced fun ends => absurd ends waits⟩

theorem step_spec (sound : Sound s) (run : (machine T).step s label = some s') :
    Sound s' ∧ (Balanced s → (Balanced s' ↔ Careful s label)) := by
  cases label with
  | create fd =>
    obtain ⟨q, made, rfl⟩ := map_eq_some_iff.mp run
    obtain ⟨absent, same⟩ := ite_none_right_eq_some.mp made
    cases some.inj same
    exact (tidy_newFileUsage sound absent).spec sound
  | close fd =>
    obtain rfl : (dce_close fd s).1 = s' := some.inj run
    exact (tidy_close sound).spec sound
  | method t fd =>
    obtain rfl : (enter t fd .method s).1 = s' := some.inj run
    exact (tidy_enter sound (fun _ _ _ => rfl) fun _ _ _ _ => id).spec sound
  | writev t fd =>
    obtain rfl : (enter t fd .writev s).1 = s' := some.inj run
    exact (tidy_enter sound (fun _ _ _ => rfl) fun _ _ _ _ => id).spec sound
  | poll t fds timeout answer =>
    obtain rfl : (dce_poll t fds timeout answer s).1 = s' := some.inj run
    exact poll_spec sound
  | proceed t answer =>
    obtain ⟨q, went, rfl⟩ := map_eq_some_iff.mp run
    obtain ⟨c, here, rfl⟩ := map_eq_some_iff.mp went
    exact proceed_spec sound here
  | tick n =>
    obtain rfl : { s with now := s.now + n } = s' := some.inj run
    exact Tidy.spec ⟨⟨sound.alive, sound.placed, sound.apart, sound.older, sound.held, sound.covered⟩, fun _ => rfl,
      fun _ => id⟩ sound
  | exit =>
    obtain rfl : { s with heap := fun _ => none, openFiles := ∅, calls := [] } = s' := some.inj run
    refine ⟨?_, fun _ => iff_true_intro ⟨fun a fu here => (by cases here), fun fd a fu found => by simp at found⟩⟩
    exact {
      alive := fun fd a found => by simp at found
      placed := fun a here => by simp at here
      apart := fun fd fd' a found => by simp at found
      older := fun _ _ => rfl
      held := fun c mem => by simp at mem
      covered := fun a => by simp [surplus, count, uses] }

omit [DecidableEq T] in
theorem balanced_start : Balanced (start : Process T) where
  counted _ _ here := by simp [start] at here
  swept _ _ _ found := by simp [start] at found

/-- What a run has been like: whether all its steps were careful, and whether all its states before the last
one were balanced. -/
structure Record where
  careful : Prop
  balanced : Prop

def Record.note (s : Process T) (label : Label T) (k : Record) : Record :=
  ⟨k.careful ∧ Careful s label, k.balanced ∧ Balanced s⟩

/-- The counts of a process are balanced all along a run exactly if every step of it is careful. -/
theorem balanced_iff_careful {k : Record} (reach : ((machine T).ledgered ⟨True, True⟩ Record.note).Reach (s, k)) :
    (k.balanced ∧ Balanced s) ↔ k.careful := by
  have exact_so_far : Sound s ∧ ((k.balanced ∧ Balanced s) ↔ k.careful) := by
    refine reach.invariant
      (I := fun p : Process T × Record => Sound p.1 ∧ ((p.2.balanced ∧ Balanced p.1) ↔ p.2.careful))
      (fun p first => ?_) fun p label q before _ run => ?_
    · obtain ⟨process, record⟩ := first
      rw [process, record]
      exact ⟨.start, iff_of_true ⟨trivial, balanced_start⟩ trivial⟩
    · obtain ⟨step, noted⟩ := Machine.ledgered_step run
      obtain ⟨sound, so_far⟩ := before
      obtain ⟨after, exact_step⟩ := step_spec sound step
      refine ⟨after, ?_⟩
      rw [noted, Record.note, ← so_far]
      exact ⟨fun ⟨⟨past, here⟩, now⟩ => ⟨⟨past, here⟩, (exact_step here).mp now⟩,
        fun ⟨⟨past, here⟩, careful⟩ => ⟨⟨past, here⟩, (exact_step here).mpr careful⟩⟩
  exact exact_so_far.2

/-- A poll of a descriptor that a method is using, and the end of the method. -/
theorem balanced_after_poll : ∃ s, (machine Bool).replay start [.create 3, .method true 3,
    .poll false [⟨3, 1, 0⟩] 1000 fun _ => 1, .proceed true fun _ => 0] = some s ∧ Balanced s := by
  let M := (machine Bool).ledgered ⟨True, True⟩ Record.note
  have run : M.replay (start, ⟨True, True⟩) [.create 3, .method true 3, .poll false [⟨3, 1, 0⟩] 1000 fun _ => 1,
    .proceed true fun _ => 0] = some _ := rfl
  have first : M.Reach (start, ⟨True, True⟩) := .start ⟨rfl, rfl⟩
  have reach := first.replay (fun _ _ => trivial) run
  refine ⟨_, rfl, ((balanced_iff_careful reach).mpr ?_).2⟩
  refine ⟨⟨⟨⟨trivial, trivial⟩, trivial⟩, fun _ => by decide⟩, fun p inner => ?_⟩
  cases inner

/-- A poll that lists a descriptor twice counts it twice and gives one use back. -/
theorem not_balanced : ¬ ∀ (s : Process Bool) label s' n fds, (machine Bool).Reach s →
    respond s label = some (s', .polled n fds) → Balanced s' := by
  intro balanced
  have run : (machine Bool).replay start [.create 3, .poll true [⟨3, 1, 0⟩, ⟨3, 1, 0⟩] 1000 fun _ =>
    0] = some _ := rfl
  have first : (machine Bool).Reach start := .start rfl
  have reach := first.replay (fun _ _ => trivial) run
  have after := balanced _ (.proceed true fun _ => 1) _ 2 _ reach rfl
  exact absurd (after.counted 0 ⟨1, false⟩ rfl) (by decide)

end

end Dce.Polling
