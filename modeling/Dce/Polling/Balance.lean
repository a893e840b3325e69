import Dce.Polling.Model

/- What a round of a poll counts, what its end gives back, and which uses the calls in progress have. -/

namespace Dce.Polling

open List Option

variable {T : Type*} {s s' : Process T} {a b : Nat} {fd : Int} {fu : FileUsage}

/-- `m_count`, and zero where no `FileUsage` is. -/
def count (a : Nat) (s : Process T) : Int := (s.heap a).elim 0 FileUsage.m_count

/-- `s'` differs from `s` in the counts and in the calls. -/
structure Recounts (s s' : Process T) : Prop where
  openFiles : s'.openFiles = s.openFiles
  nextUsage : s'.nextUsage = s.nextUsage
  marks : ∀ a, (s'.heap a).map FileUsage.m_closing = (s.heap a).map FileUsage.m_closing

namespace Recounts

theorem refl (s : Process T) : Recounts s s := ⟨rfl, rfl, fun _ => rfl⟩

theorem trans {u : Process T} (first : Recounts s s') (second : Recounts s' u) : Recounts s u where
  openFiles := second.openFiles.trans first.openFiles
  nextUsage := second.nextUsage.trans first.nextUsage
  marks a := (second.marks a).trans (first.marks a)

theorem modify {f : FileUsage → FileUsage} (keeps : ∀ fu, (f fu).m_closing = fu.m_closing) :
    Recounts s (modify a f s) where
  openFiles := rfl
  nextUsage := rfl
  marks b := by
    by_cases same : b = a
    · subst same
      cases here : s.heap b with
      | none => simp [Polling.modify, here]
      | some fu => simp [Polling.modify, here, keeps]
    · simp [Polling.modify, same]

variable (recounts : Recounts s s')
include recounts

theorem isSome (a : Nat) : (s'.heap a).isSome = (s.heap a).isSome := by
  have same := congrArg Option.isSome (recounts.marks a)
  simpa using same

theorem closing (p : Bool → Bool) (a : Nat) :
    ((s'.heap a).any fun fu => p fu.m_closing) = (s.heap a).any fun fu => p fu.m_closing := by
  have same := congrArg (Option.any p) (recounts.marks a)
  simpa only [Option.any_map] using same

theorem findOpen (fd : Int) : findOpen fd s' = findOpen fd s := by
  unfold Polling.findOpen
  rw [recounts.openFiles]
  congr 1
  funext a
  exact recounts.closing (! ·) a

end Recounts

theorem recounts_GetFileInc : Recounts s (GetFileInc a s) := .modify fun _ => rfl

theorem recounts_DecUsage : Recounts s (DecUsage a s) := .modify fun _ => rfl

theorem count_modify {f : FileUsage → FileUsage} (here : s.heap a = some fu) :
    count b (modify a f s) = if b = a then (f fu).m_count else count b s := by
  by_cases same : b = a
  · subst same; simp [count, modify, here]
  · simp [count, modify, same]

theorem count_GetFileInc (here : (s.heap a).isSome) : count b (GetFileInc a s) = count b s + if a = b then 1
    else 0 := by
  obtain ⟨fu, here⟩ := isSome_iff_exists.mp here
  rw [GetFileInc, count_modify here]
  by_cases same : b = a
  · subst same; simp [count, here]
  · simp [same, Ne.symm same]

theorem count_DecUsage (here : (s.heap a).isSome) : count b (DecUsage a s) = count b s - if a = b then 1 else 0 := by
  obtain ⟨fu, here⟩ := isSome_iff_exists.mp here
  rw [DecUsage, count_modify here]
  by_cases same : b = a
  · subst same; simp [count, here]
  · simp [same, Ne.symm same]

theorem findOpen_some (found : findOpen fd s = some a) :
    s.openFiles.lookup fd = some a ∧ ∃ fu, s.heap a = some fu ∧ fu.m_closing = false := by
  obtain ⟨look, marked⟩ := filter_eq_some_iff.mp found
  obtain ⟨fu, here, opened⟩ := (any_eq_true _ _).mp marked
  exact ⟨look, fu, here, by simpa using opened⟩

section

variable {answer : Nat → Nat} {fds : List PollFd} {r : Round T}

/-- Something that is asked for has happened at an entry. -/
def isReady (answer : Nat → Nat) (s : Process T) (pfd : PollFd) : Bool :=
  (findOpen pfd.fd s).any fun a => mask answer pfd a ≠ 0

/-- The descriptors that the first round counts: those that are open, as far as the first entry that is ready. -/
def registered (answer : Nat → Nat) (s : Process T) : List PollFd → List (Int × Nat)
  | [] => []
  | pfd :: fds =>
    match findOpen pfd.fd s with
    | none => registered answer s fds
    | some a => (pfd.fd, a) :: if mask answer pfd a ≠ 0 then [] else registered answer s fds

def countAll (l : List (Int × Nat)) (s : Process T) : Process T := l.foldl (fun s e => GetFileInc e.2 s) s

theorem registered_of_recounts (recounts : Recounts s s') : registered answer s' fds = registered answer s fds := by
  induction fds with
  | nil => rfl
  | cons pfd fds ih => simp only [registered, recounts.findOpen, ih]

theorem registered_clear : registered answer s (fds.map fun pfd => { pfd with revents := 0 }) =
    registered answer s fds := by
  induction fds with
  | nil => rfl
  | cons pfd fds ih =>
    simp only [map_cons, registered, ih]
    rfl

theorem findOpen_of_registered {e : Int × Nat} (mem : e ∈ registered answer s fds) : findOpen e.1 s = some e.2 := by
  induction fds with
  | nil => cases mem
  | cons pfd fds ih =>
    simp only [registered] at mem
    split at mem
    next => exact ih mem
    next a found =>
      rcases mem_cons.mp mem with rfl | mem
      · exact found
      · split at mem
        next => cases mem
        next => exact ih mem

theorem pollRound_silent (silent : r.currentTable = false) :
    (pollRound answer fds r).2.process = r.process ∧ (pollRound answer fds r).2.toUnRef = r.toUnRef := by
  induction fds generalizing r with
  | nil => exact ⟨rfl, rfl⟩
  | cons pfd fds ih =>
    have entry : (pollEntry answer pfd r).2.process = r.process ∧ (pollEntry answer pfd r).2.toUnRef = r.toUnRef ∧
        (pollEntry answer pfd r).2.currentTable = false := by
      unfold pollEntry
      split
      next => exact ⟨rfl, rfl, silent⟩
      next a found =>
        simp only [silent]
        split
        next => exact ⟨rfl, rfl, rfl⟩
        next => exact ⟨rfl, rfl, silent⟩
    obtain ⟨process, toUnRef, still⟩ := entry
    obtain ⟨process', toUnRef'⟩ := ih still
    exact ⟨process'.trans process, toUnRef'.trans toUnRef⟩

theorem pollRound_registers (table : r.currentTable = true) :
    (pollRound answer fds r).2.process = countAll (registered answer r.process fds) r.process ∧
    (pollRound answer fds r).2.toUnRef = Table.insertAll (registered answer r.process fds) r.toUnRef := by
  induction fds generalizing r with
  | nil => exact ⟨rfl, rfl⟩
  | cons pfd fds ih =>
    simp only [pollRound, pollEntry, registered]
    cases found : findOpen pfd.fd r.process with
    | none => exact ih table
    | some a =>
      simp only [table]
      by_cases ready : mask answer pfd a ≠ 0
      · simp only [if_pos ready]
        exact pollRound_silent (r := ⟨GetFileInc a r.process, r.toUnRef.insert pfd.fd a, false, r.count + 1⟩) rfl
      · simp only [if_neg ready]
        obtain ⟨process, toUnRef⟩ := ih (r := ⟨GetFileInc a r.process, r.toUnRef.insert pfd.fd a, true, r.count⟩) rfl
        rw [registered_of_recounts recounts_GetFileInc] at process toUnRef
        exact ⟨process, toUnRef⟩

theorem pollEntry_recounts {pfd : PollFd} : Recounts r.process (pollEntry answer pfd r).2.process := by
  have inc : ∀ a, Recounts r.process (if r.currentTable = true then
      { r with process := GetFileInc a r.process, toUnRef := r.toUnRef.insert pfd.fd a } else r).process :=
      fun a => by
    split
    · exact recounts_GetFileInc
    · exact .refl _
  unfold pollEntry
  split
  next => exact .refl _
  next a found =>
    dsimp only
    split
    · exact inc a
    · exact inc a

theorem pollEntry_count {pfd : PollFd} :
    (pollEntry answer pfd r).2.count = r.count + if isReady answer r.process pfd then 1 else 0 := by
  unfold pollEntry isReady
  cases found : findOpen pfd.fd r.process with
  | none => rfl
  | some a =>
    have same : (if r.currentTable = true then
        { r with process := GetFileInc a r.process, toUnRef := r.toUnRef.insert pfd.fd a }
        else r).count = r.count := by
      split <;> rfl
    by_cases ready : mask answer pfd a = 0 <;> simp [ready, same]

theorem pollRound_count (recounts : Recounts s r.process) :
    (pollRound answer fds r).2.count = r.count + fds.countP (isReady answer s) := by
  induction fds generalizing r with
  | nil => rfl
  | cons pfd fds ih =>
    have here : isReady answer r.process pfd = isReady answer s pfd := by
      unfold isReady
      rw [recounts.findOpen]
    rw [countP_cons]
    refine (ih (recounts.trans pollEntry_recounts)).trans ?_
    rw [pollEntry_count, here]
    omega

end

section

theorem recounts_countAll {l : List (Int × Nat)} : Recounts s (countAll l s) := by
  induction l generalizing s with
  | nil => exact .refl s
  | cons e l ih => exact recounts_GetFileInc.trans ih

theorem countAll_calls {l : List (Int × Nat)} : (countAll l s).calls = s.calls := by
  induction l generalizing s with
  | nil => rfl
  | cons e l ih => exact ih

theorem count_countAll {l : List (Int × Nat)} (here : ∀ e ∈ l, (s.heap e.2).isSome) :
    count a (countAll l s) = count a s + l.countP fun e => decide (e.2 = a) := by
  induction l generalizing s with
  | nil => simp [countAll]
  | cons e l ih =>
    have rest := ih (s := GetFileInc e.2 s)
      fun e' mem => (recounts_GetFileInc.isSome e'.2).trans (here e' (mem_cons_of_mem _ mem))
    refine rest.trans ?_
    rw [count_GetFileInc (here e mem_cons_self)]
    by_cases same : e.2 = a <;> simp [same]; omega

variable {m : Table Int Nat}

theorem recounts_release : Recounts s (release m s) := by
  unfold release
  generalize m.entries = l
  induction l generalizing s with
  | nil => exact .refl s
  | cons e l ih => exact recounts_DecUsage.trans ih

theorem release_calls : (release m s).calls = s.calls := by
  unfold release
  generalize m.entries = l
  induction l generalizing s with
  | nil => rfl
  | cons e l ih => exact ih

theorem count_release (here : ∀ fd a, m.lookup fd = some a → (s.heap a).isSome) :
    count a (release m s) = count a s - Table.tally (fun fu => decide (fu = a)) m := by
  have inside : ∀ e ∈ m.entries, (s.heap e.2).isSome := fun e mem => here e.1 e.2 (AList.mem_lookup_iff.mpr mem)
  unfold release Table.tally
  clear here
  revert inside
  generalize m.entries = l
  intro inside
  induction l generalizing s with
  | nil => simp
  | cons e l ih =>
    have rest := ih (s := DecUsage e.2 s)
      fun e' mem => (recounts_DecUsage.isSome e'.2).trans (inside e' (mem_cons_of_mem _ mem))
    refine rest.trans ?_
    rw [count_DecUsage (inside e mem_cons_self)]
    by_cases same : e.2 = a <;> simp [same]; omega

end

end Dce.Polling

/- The counts of the `FileUsage` of a process against the calls in progress that have to give uses back. -/

namespace Dce.Polling

open List Option

variable {T : Type*} {s s' : Process T} {a b : Nat} {fd : Int} {fu : FileUsage}

/-- How many uses of a `FileUsage` a call is going to give back. -/
def Call.uses (a : Nat) : Call → Nat
  | .method _ fu => if fu = a then 1 else 0
  | .writev _ fu => if fu = a then 1 else 0
  | .poll p => Table.tally (fun fu => decide (fu = a)) p.toUnRef

/-- The descriptors and the addresses that a call has kept. -/
def Call.Holds (fd : Int) (a : Nat) : Call → Prop
  | .method d fu => d = fd ∧ fu = a
  | .writev d fu => d = fd ∧ fu = a
  | .poll p => p.toUnRef.lookup fd = some a

def uses (a : Nat) (s : Process T) : Nat := (s.calls.map fun c => c.2.uses a).sum

/-- What `m_count` has more than the calls in progress give back. -/
def surplus (a : Nat) (s : Process T) : Int := count a s - uses a s

/-- Each `FileUsage` is counted as often as the calls in progress use it, and none that was closed and is no
longer in use is left in the table. -/
structure Balanced (s : Process T) : Prop where
  counted : ∀ a fu, s.heap a = some fu → fu.m_count = uses a s
  swept : ∀ fd a fu, s.openFiles.lookup fd = some a → s.heap a = some fu → fu.m_closing = true → fu.m_count ≠ 0

/-- What every run has, however often a poll counts: each `FileUsage` is that of one descriptor, no call holds
one that is gone, and all of them are counted at least as often as they are used. -/
structure Sound (s : Process T) : Prop where
  alive : ∀ fd a, s.openFiles.lookup fd = some a → (s.heap a).isSome
  placed : ∀ a, (s.heap a).isSome → ∃ fd, s.openFiles.lookup fd = some a
  apart : ∀ fd fd' a, s.openFiles.lookup fd = some a → s.openFiles.lookup fd' = some a → fd = fd'
  older : ∀ a, s.nextUsage ≤ a → s.heap a = none
  held : ∀ c ∈ s.calls, ∀ fd a, c.2.Holds fd a → s.openFiles.lookup fd = some a
  covered : ∀ a, 0 ≤ surplus a s

theorem Call.uses_pos_iff {c : Call} : 0 < c.uses a ↔ ∃ fd, c.Holds fd a := by
  have single : ∀ fu : Nat, (0 < if fu = a then 1 else 0) ↔ fu = a := fun fu => by split <;> simp [*]
  cases c with
  | method d fu =>
    rw [Call.uses, single]
    exact ⟨fun same => ⟨d, rfl, same⟩, fun ⟨_, _, same⟩ => same⟩
  | writev d fu =>
    rw [Call.uses, single]
    exact ⟨fun same => ⟨d, rfl, same⟩, fun ⟨_, _, same⟩ => same⟩
  | poll p =>
    rw [Call.uses, Table.tally_pos_iff]
    constructor
    · rintro ⟨fd, b, found, same⟩
      obtain rfl := of_decide_eq_true same
      exact ⟨fd, found⟩
    · rintro ⟨fd, found⟩
      exact ⟨fd, a, found, decide_eq_true rfl⟩

theorem uses_pos {c : T × Call} (mem : c ∈ s.calls) (holds : c.2.Holds fd a) : 0 < uses a s :=
  List.sum_pos_iff_exists_pos_nat.mpr ⟨c.2.uses a, List.mem_map.mpr ⟨c, mem, rfl⟩, Call.uses_pos_iff.mpr ⟨fd, holds⟩⟩

theorem Sound.used (sound : Sound s) (used : 0 < uses a s) : ∃ fd, s.openFiles.lookup fd = some a := by
  obtain ⟨n, mem, positive⟩ := List.sum_pos_iff_exists_pos_nat.mp used
  obtain ⟨c, inside, rfl⟩ := mem_map.mp mem
  obtain ⟨fd, holds⟩ := Call.uses_pos_iff.mp positive
  exact ⟨fd, sound.held c inside fd a holds⟩

theorem Sound.unused (sound : Sound s) (gone : s.heap a = none) : uses a s = 0 := by
  by_contra some_use
  obtain ⟨fd, found⟩ := sound.used (pos_of_ne_zero some_use)
  exact absurd (sound.alive fd a found) (by simp [gone])

/-- `Balanced`, said of the surplus. -/
theorem Sound.balanced_iff (sound : Sound s) : Balanced s ↔ (∀ a, surplus a s = 0) ∧ ∀ a, isOver a s = false := by
  constructor
  · intro balanced
    refine ⟨fun a => ?_, fun a => ?_⟩
    · cases here : s.heap a with
      | none => simp [surplus, count, here, sound.unused here]
      | some fu => simp [surplus, count, here, balanced.counted a fu here]
    · cases here : s.heap a with
      | none => simp [isOver, here]
      | some fu =>
        obtain ⟨fd, found⟩ := sound.placed a (here ▸ rfl)
        have clean := balanced.swept fd a fu found here
        cases closing : fu.m_closing with
        | false => simp [isOver, here, closing]
        | true => simpa [isOver, here, closing] using clean closing
  · rintro ⟨even, clean⟩
    refine ⟨fun a fu here => ?_, fun fd a fu found here closing zero => ?_⟩
    · have equal := even a
      simp only [surplus, count, here, elim_some] at equal
      omega
    · have finished := clean a
      simp [isOver, here, closing, zero] at finished

section

theorem Sound.start : Sound (start : Process T) where
  alive _ _ found := by simp [Polling.start] at found
  placed _ here := by simp [Polling.start] at here
  apart _ _ _ found := by simp [Polling.start] at found
  older _ _ := rfl
  held _ mem := by simp [Polling.start] at mem
  covered _ := by simp [surplus, count, uses, Polling.start]

variable (sound : Sound s)
include sound

theorem Sound.recounts (recounts : Recounts s s')
    (held : ∀ c ∈ s'.calls, ∀ fd a, c.2.Holds fd a → s.openFiles.lookup fd = some a)
    (covered : ∀ a, surplus a s ≤ surplus a s') : Sound s' where
  alive fd a found := (recounts.isSome a).trans (sound.alive fd a (recounts.openFiles ▸ found))
  placed a here := by
    rw [recounts.openFiles]
    exact sound.placed a ((recounts.isSome a).symm.trans here)
  apart fd fd' a found found' :=
    sound.apart fd fd' a (recounts.openFiles ▸ found) (recounts.openFiles ▸ found')
  older a above := by
    have gone := sound.older a (recounts.nextUsage ▸ above)
    have same := recounts.isSome a
    rw [gone] at same
    exact not_isSome_iff_eq_none.mp (by simp [same])
  held c mem fd a holds := recounts.openFiles ▸ held c mem fd a holds
  covered a := (sound.covered a).trans (covered a)

theorem surplus_newFileUsage : surplus a (newFileUsage fd s) = surplus a s := by
  have same : count a (newFileUsage fd s) = count a s := by
    by_cases new : a = s.nextUsage
    · subst new; simp [count, newFileUsage, sound.older s.nextUsage le_rfl]
    · simp [count, newFileUsage, new]
  exact congrArg (· - (uses a s : Int)) same

theorem Sound.newFileUsage (absent : s.openFiles.lookup fd = none) : Sound (newFileUsage fd s) := by
  have unnamed : ∀ fd', s.openFiles.lookup fd' ≠ some s.nextUsage := fun fd' found => by
    have here := sound.alive fd' _ found
    simp [sound.older s.nextUsage le_rfl] at here
  have look : ∀ fd' a, (Polling.newFileUsage fd s).openFiles.lookup fd' = some a →
      (fd' = fd ∧ a = s.nextUsage) ∨ (s.openFiles.lookup fd' = some a ∧ a ≠ s.nextUsage) := by
    intro fd' a found
    by_cases same : fd' = fd
    · subst same
      exact .inl ⟨rfl, by simpa [Polling.newFileUsage] using found.symm⟩
    · have old : s.openFiles.lookup fd' = some a := (AList.lookup_insert_ne same).symm.trans found
      exact .inr ⟨old, fun new => unnamed fd' (new ▸ old)⟩
  have stays : ∀ fd' a, s.openFiles.lookup fd' = some a →
      (Polling.newFileUsage fd s).openFiles.lookup fd' = some a := by
    intro fd' a found
    have ne : fd' ≠ fd := fun same => by rw [same, absent] at found; cases found
    exact (AList.lookup_insert_ne ne).trans found
  constructor
  case alive =>
    intro fd' a found
    rcases look fd' a found with ⟨-, rfl⟩ | ⟨old, other⟩
    · simp [Polling.newFileUsage]
    · simpa [Polling.newFileUsage, other] using sound.alive fd' a old
  case placed =>
    intro a here
    by_cases new : a = s.nextUsage
    · exact ⟨fd, by simp [Polling.newFileUsage, new]⟩
    · obtain ⟨fd', found⟩ := sound.placed a (by simpa [Polling.newFileUsage, new] using here)
      exact ⟨fd', stays fd' a found⟩
  case apart =>
    intro fd₁ fd₂ a found₁ found₂
    rcases look fd₁ a found₁ with ⟨rfl, rfl⟩ | ⟨old₁, other₁⟩
    · rcases look fd₂ _ found₂ with ⟨rfl, -⟩ | ⟨-, other₂⟩
      · rfl
      · exact absurd rfl other₂
    · rcases look fd₂ a found₂ with ⟨-, new⟩ | ⟨old₂, -⟩
      · exact absurd new other₁
      · exact sound.apart fd₁ fd₂ a old₁ old₂
  case older =>
    intro a above
    have above : s.nextUsage + 1 ≤ a := above
    have other : a ≠ s.nextUsage := by omega
    simpa [Polling.newFileUsage, other] using sound.older a (by omega)
  case held => exact fun c mem fd' a holds => stays fd' a (sound.held c mem fd' a holds)
  case covered => exact fun a => surplus_newFileUsage sound ▸ sound.covered a

omit sound in
theorem surplus_forget (unused : count b s = 0) : surplus a (forget fd b s) = surplus a s := by
  have same : count a (forget fd b s) = count a s := by
    by_cases this : a = b
    · subst this; rw [unused]; simp [count, forget]
    · simp [count, forget, this]
  exact congrArg (· - (uses a s : Int)) same

theorem Sound.forget (found : s.openFiles.lookup fd = some b) (unused : count b s = 0) : Sound (forget fd b s) := by
  have look : ∀ fd' a, (Polling.forget fd b s).openFiles.lookup fd' = some a →
      fd' ≠ fd ∧ s.openFiles.lookup fd' = some a ∧ a ≠ b := by
    intro fd' a inside
    have ne : fd' ≠ fd := fun same => by
      subst same
      simp [Polling.forget] at inside
    have old : s.openFiles.lookup fd' = some a := (AList.lookup_erase_ne ne).symm.trans inside
    exact ⟨ne, old, fun same => ne (sound.apart fd' fd b (same ▸ old) found)⟩
  constructor
  case alive =>
    intro fd' a inside
    obtain ⟨-, old, other⟩ := look fd' a inside
    simpa [Polling.forget, other] using sound.alive fd' a old
  case placed =>
    intro a here
    have other : a ≠ b := fun same => by simp [Polling.forget, same] at here
    obtain ⟨fd', old⟩ := sound.placed a (by simpa [Polling.forget, other] using here)
    have ne : fd' ≠ fd := fun same => other (some.inj ((same ▸ old).symm.trans found))
    exact ⟨fd', (AList.lookup_erase_ne ne).trans old⟩
  case apart => exact fun fd₁ fd₂ a in₁ in₂ => sound.apart fd₁ fd₂ a (look fd₁ a in₁).2.1 (look fd₂ a in₂).2.1
  case older =>
    intro a above
    by_cases same : a = b
    · simp [Polling.forget, same]
    · simpa [Polling.forget, same] using sound.older a above
  case held =>
    intro c mem fd' a holds
    have old := sound.held c mem fd' a holds
    have ne : fd' ≠ fd := by
      rintro rfl
      obtain rfl : a = b := some.inj (old.symm.trans found)
      have used : 0 < uses a s := uses_pos mem holds
      have enough := sound.covered a
      rw [surplus] at enough
      omega
    exact (AList.lookup_erase_ne ne).trans old
  case covered => exact fun a => surplus_forget unused ▸ sound.covered a

end

section

variable [DecidableEq T] {t : T} {c : Call}

theorem mem_of_innermost (here : innermost t s = some c) : (t, c) ∈ s.calls := by
  obtain ⟨e, found, rfl⟩ := map_eq_some_iff.mp here
  have mine := find?_some found
  obtain rfl : e.1 = t := by simpa using mine
  exact mem_of_find?_eq_some found

theorem uses_pop (here : innermost t s = some c) : uses a s = c.uses a + uses a (pop t s) := by
  obtain ⟨e, found, rfl⟩ := map_eq_some_iff.mp here
  unfold uses pop
  revert found
  generalize s.calls = l
  intro found
  induction l with
  | nil => cases found
  | cons first l ih =>
    by_cases mine : first.1 = t
    · rw [find?_cons_of_pos (by simpa using mine)] at found
      cases some.inj found
      simp [mine]
    · rw [find?_cons_of_neg (by simpa using mine)] at found
      have rest := ih found
      simp only [map_cons, sum_cons, eraseP_cons, mine, decide_false, cond_false] at rest ⊢
      omega

theorem mem_of_pop {e : T × Call} (mem : e ∈ (pop t s).calls) : e ∈ s.calls := mem_of_mem_eraseP mem

theorem recounts_pop : Recounts s (pop t s) := ⟨rfl, rfl, fun _ => rfl⟩

section

omit [DecidableEq T]

theorem recounts_push : Recounts s (push t c s) := ⟨rfl, rfl, fun _ => rfl⟩

theorem uses_push : uses a (push t c s) = c.uses a + uses a s := by simp [uses, push]

end

theorem surplus_leave {h : Call} (here : innermost t s = some h) (single : ∀ b, h.uses b = if a = b then 1 else 0)
    (alive : (s.heap a).isSome) : surplus b (DecUsage a (pop t s)) = surplus b s := by
  have counted := count_DecUsage (s := pop t s) (b := b) alive
  have before := uses_pop (a := b) here
  have same : uses b (DecUsage a (pop t s)) = uses b (pop t s) := rfl
  have still : count b (pop t s) = count b s := rfl
  rw [single] at before
  rw [surplus, surplus, counted]
  split at before <;> split <;> omega

end

end Dce.Polling
