import Dce.Processes.Fork

/- What the processes know of each other, and that forks, ends and waits keep it. -/

namespace Dce.Processes

open Function List Option

section

variable {β : Type} {s s' : DceManager β} {pid : Nat} {p : Process}

@[simp]
theorem set_self (process : Option Process) : (s.set pid process).m_processes pid = process :=
  update_self ..

@[simp]
theorem set_other {other : Nat} (ne : other ≠ pid) (process : Option Process) :
    (s.set pid process).m_processes other = s.m_processes other :=
  update_of_ne ne ..

/-- What becomes of a process whose parent ends. -/
def orphaned (q : Process) : Option Process := if q.loaded then some { q with ppid := 1 } else none

theorem foldl_reparent {l : List Nat} (nodup : l.Nodup)
    (known : ∀ c ∈ l, ∃ q, s.m_processes c = some q ∧ q.pid = c ∧ 1 < c) (x : Nat) :
    (l.foldl reparent s).m_processes x = if x ∈ l then (s.m_processes x).bind orphaned else s.m_processes x := by
  induction l generalizing s with
  | nil => exact (if_neg nofun).symm
  | cons c l ih =>
    obtain ⟨notMem, nodup⟩ := nodup_cons.mp nodup
    obtain ⟨q, hq, hpid, hlower⟩ := known c mem_cons_self
    have hturn : reparent s c = s.set c (orphaned q) := by
      rw [reparent, hq]
      subst hpid
      dsimp only
      rw [orphaned]
      cases hloaded : q.loaded with
      | true => simp
      | false => simp [hlower]
    have hknown : ∀ d ∈ l, ∃ q, (reparent s c).m_processes d = some q ∧ q.pid = d ∧ 1 < d := by
      intro d hd
      have hdc : d ≠ c := by
        rintro rfl
        exact notMem hd
      rw [hturn, set_other hdc]
      exact known d (mem_cons_of_mem c hd)
    rw [foldl_cons, ih nodup hknown, hturn]
    by_cases hx : x = c
    · rw [hx, if_neg notMem, if_pos mem_cons_self, set_self, hq, bind_some]
    · simp [hx]

/-- `q` is a child of `parent` that a call with the argument `pid` waits for. -/
def Child (s : DceManager β) (parent : Nat) (pid : Int) (c : Nat) (q : Process) : Prop :=
  s.m_processes c = some q ∧ q.ppid = parent ∧ (pid = -1 ∨ pid = c)

/-- Who sleeps has a child to wait for, and none that has ended. -/
def Waits (s : DceManager β) (parent : Nat) (waiter : Waiter) : Prop :=
  (∃ c q, Child s parent waiter.pid c q) ∧ ∀ c q, Child s parent waiter.pid c q → q.loaded = true

/-- What the processes know of each other. -/
structure Family (s : DceManager β) : Prop where
  pids : ∀ pid p, s.m_processes pid = some p → p.pid = pid ∧ 1 < pid
  children : ∀ pid p, s.m_processes pid = some p → ∀ c ∈ p.children, ∃ q, s.m_processes c = some q ∧ q.ppid = pid
  parent : ∀ c q, s.m_processes c = some q → 1 < q.ppid →
    q.ppid ≠ c ∧ ∃ p, s.m_processes q.ppid = some p ∧ p.loaded = true ∧ c ∈ p.children
  ended : ∀ z p, s.m_processes z = some p → p.loaded = false → 1 < p.ppid ∧ p.threads = [] ∧ p.children = ∅
  asleep : ∀ pid p, s.m_processes pid = some p → ∀ thread ∈ p.threads, ∀ waiter ∈ thread.childWaiter,
    waiter.woken = false → Waits s pid waiter

/-- The process that has ended, as long as it is known. -/
def ended (p : Process) : Option Process :=
  if 1 < p.ppid then some { p with threads := [], children := ∅, loaded := false } else none

/-- What the end of `pid` with the record `p` does. -/
structure Ends (pid : Nat) (p : Process) (s s' : DceManager β) : Prop where
  self : s'.m_processes pid = ended p
  others : ∀ x, x ≠ pid → s'.m_processes x =
    (if x ∈ p.children then (s.m_processes x).bind orphaned else s.m_processes x).map fun q =>
      if x = p.ppid then WakeupChildWaiters q else q

theorem Family.not_own_child (family : Family s) (hp : s.m_processes pid = some p) : pid ∉ p.children := by
  intro hmem
  obtain ⟨q, hq, hppid⟩ := family.children pid p hp pid hmem
  exact (family.parent pid q hq (hppid.symm ▸ (family.pids pid p hp).2)).1 hppid

theorem DeleteProcess_ends (family : Family s) (hp : s.m_processes pid = some p) (type : ProcessEndCause) :
    ∃ s', DeleteProcess pid type s = some s' ∧ Ends pid p s s' := by
  have hknown : ∀ c ∈ p.children.sort, ∃ q, s.m_processes c = some q ∧ q.pid = c ∧ 1 < c := by
    intro c hc
    obtain ⟨q, hq, -⟩ := family.children pid p hp c ((Finset.mem_sort _).mp hc)
    exact ⟨q, hq, family.pids c q hq⟩
  have hnot := family.not_own_child hp
  let bare : DceManager β := DceManager.set pid (some { p with threads := [], children := ∅ })
    { s with files := closeFiles pid s.files type }
  have hself : bare.m_processes pid = some { p with threads := [], children := ∅ } := set_self _
  have hother : ∀ x, x ≠ pid → bare.m_processes x = s.m_processes x := fun x hx => set_other hx _
  have hbare : ∀ c ∈ p.children.sort, ∃ q, bare.m_processes c = some q ∧ q.pid = c ∧ 1 < c := by
    intro c hc
    have hcp : c ≠ pid := by
      rintro rfl
      exact hnot ((Finset.mem_sort _).mp hc)
    rw [hother c hcp]
    exact hknown c hc
  have hfold := foldl_reparent (Finset.sort_nodup p.children _) hbare
  generalize hgiven : p.children.sort.foldl reparent bare = given at hfold
  have hgivenself : given.m_processes pid = some { p with threads := [], children := ∅ } := by
    rw [hfold, if_neg fun h => hnot ((Finset.mem_sort _).mp h), hself]
  have hgivenother : ∀ x, x ≠ pid → given.m_processes x =
      if x ∈ p.children then (s.m_processes x).bind orphaned else s.m_processes x := by
    intro x hx
    rw [hfold, hother x hx]
    simp
  have hdelete : DeleteProcess pid type s = unload pid p.ppid given := by
    rw [DeleteProcess, hp, ← hgiven]
    rfl
  rw [hdelete, unload, hgivenself, bind_eq_bind, bind_some]
  by_cases hparent : 1 < p.ppid
  · obtain ⟨hapart, parent, hparentp, hloaded, -⟩ := family.parent pid p hp hparent
    obtain ⟨old, hold⟩ : ∃ old, given.m_processes p.ppid = some old := by
      rw [hgivenother p.ppid hapart, hparentp, bind_some, orphaned]
      split <;> exact ⟨_, rfl⟩
    rw [if_pos hparent, ChildFinished, set_self, bind_eq_bind, bind_some, set_other hapart, hold]
    refine ⟨_, rfl, ?_, fun x hx => ?_⟩
    · rw [set_other hapart.symm, set_self, ended, if_pos hparent]
    · rw [← hgivenother x hx]
      by_cases hxp : x = p.ppid
      · rw [hxp, set_self, hold, map_some, if_pos rfl]
      · rw [set_other hxp, set_other hx]
        simp [hxp]
  · rw [if_neg hparent]
    refine ⟨_, rfl, ?_, fun x hx => ?_⟩
    · rw [set_self, ended, if_neg hparent]
    · rw [← hgivenother x hx, set_other hx, set_other hx]
      by_cases hxp : x = p.ppid
      · have hnone : given.m_processes x = none := by
          have habsent : s.m_processes x = none := by
            cases hsome : s.m_processes x with
            | none => rfl
            | some q =>
              have hlower := (family.pids x q hsome).2
              omega
          rw [hgivenother x hx, habsent]
          split <;> rfl
        rw [hnone]
        rfl
      · simp [hxp]

end

section

variable {β : Type} {s : DceManager β} {pid : Int}

/-- The child that is listed under `it` is one that the call waits for. -/
def Wanted (s : DceManager β) (pid : Int) (it : Nat) (p : Process) : Prop :=
  1 < it ∧ s.m_processes it = some p ∧ (pid = -1 ∨ pid = p.pid)

variable {n : Nat} {p : Process} {rest l : List Nat}

theorem seek_wanted {it : Nat} (wanted : Wanted s pid it p) :
    seek s pid (it :: rest) n = if p.loaded then seek s pid rest (n + 1) else .inl p := by
  rw [seek, if_pos wanted.1, wanted.2.1]
  dsimp only
  rw [if_pos wanted.2.2]

theorem seek_other {it : Nat} (none : ∀ p, ¬ Wanted s pid it p) : seek s pid (it :: rest) n = seek s pid rest n := by
  rw [seek]
  split
  case h_1 => rfl
  case h_2 p hp =>
    split at hp
    case isFalse => cases hp
    case isTrue hlower => exact if_neg fun hmatch => none p ⟨hlower, hp, hmatch⟩

theorem seek_zombie (hseek : seek s pid l n = .inl p) : ∃ it ∈ l, Wanted s pid it p ∧ p.loaded = false := by
  induction l generalizing n with
  | nil => exact absurd hseek (by simp [seek])
  | cons it rest ih =>
    have later : ∀ {m}, seek s pid rest m = .inl p → ∃ x ∈ it :: rest, Wanted s pid x p ∧ p.loaded = false := by
      intro m hrest
      obtain ⟨x, hx, hfound⟩ := ih hrest
      exact ⟨x, mem_cons_of_mem it hx, hfound⟩
    by_cases hwanted : ∃ q, Wanted s pid it q
    · obtain ⟨q, wanted⟩ := hwanted
      rw [seek_wanted wanted] at hseek
      split at hseek
      · exact later hseek
      next hloaded =>
        obtain rfl := Sum.inl.inj hseek
        exact ⟨it, mem_cons_self, wanted, by simpa using hloaded⟩
    · rw [seek_other fun q wanted => hwanted ⟨q, wanted⟩] at hseek
      exact later hseek

theorem seek_count {m : Nat} (hseek : seek s pid l n = .inr m) :
    n ≤ m ∧ (∀ it ∈ l, ∀ p, Wanted s pid it p → p.loaded = true) ∧ (n < m ↔ ∃ it ∈ l, ∃ p, Wanted s pid it p) := by
  induction l generalizing n with
  | nil =>
    obtain rfl := Sum.inr.inj hseek
    exact ⟨le_rfl, fun it hit => absurd hit nofun, by simp⟩
  | cons it rest ih =>
    by_cases hwanted : ∃ q, Wanted s pid it q
    · obtain ⟨q, wanted⟩ := hwanted
      rw [seek_wanted wanted] at hseek
      split at hseek
      case isFalse => exact absurd hseek nofun
      case isTrue hloaded =>
        obtain ⟨hle, hall, -⟩ := ih hseek
        refine ⟨by omega, fun x hx p hp => ?_, fun _ => ⟨it, mem_cons_self, q, wanted⟩, fun _ => by omega⟩
        rcases mem_cons.mp hx with rfl | hx
        · cases hp.2.1.symm.trans wanted.2.1
          exact hloaded
        · exact hall x hx p hp
    · have hnone : ∀ q, ¬ Wanted s pid it q := fun q wanted => hwanted ⟨q, wanted⟩
      rw [seek_other hnone] at hseek
      obtain ⟨hle, hall, hiff⟩ := ih hseek
      refine ⟨hle, fun x hx p hp => ?_, hiff.trans ⟨?_, ?_⟩⟩
      · rcases mem_cons.mp hx with rfl | hx
        · exact absurd hp (hnone p)
        · exact hall x hx p hp
      · rintro ⟨x, hx, hfound⟩
        exact ⟨x, mem_cons_of_mem it hx, hfound⟩
      · rintro ⟨x, hx, p, hp⟩
        rcases mem_cons.mp hx with rfl | hx
        · exact absurd hp (hnone p)
        · exact ⟨x, hx, p, hp⟩

end

section

variable {β : Type} {s s' : DceManager β} {pid child : Nat} {p : Process}

variable {q q' : Process} {x : Nat}

theorem update_some {new : Process} {m : Nat → Option Process}
    (hx : update m pid (some new) x = some q) : (x = pid ∧ q = new) ∨ (x ≠ pid ∧ m x = some q) := by
  by_cases heq : x = pid
  · rw [heq, update_self] at hx
    exact .inl ⟨heq, (some.inj hx).symm⟩
  · rw [update_of_ne heq] at hx
    exact .inr ⟨heq, hx⟩

/-- The threads of a process change, or its exit value. -/
structure Rethreads (pid : Nat) (p : Process) (s s' : DceManager β) : Prop where
  present : s.m_processes pid = some p
  loaded : p.loaded = true
  change : ∃ threads value, s'.m_processes = update s.m_processes pid
    (some { p with threads := threads, exitValue := value }) ∧
    ∀ thread ∈ threads, ∀ waiter ∈ thread.childWaiter, waiter.woken = false → Waits s pid waiter

theorem Rethreads.back (rethreads : Rethreads pid p s s') (hx : s'.m_processes x = some q') :
    ∃ q, s.m_processes x = some q ∧ q'.pid = q.pid ∧ q'.ppid = q.ppid ∧ q'.children = q.children ∧
      q'.loaded = q.loaded ∧ (x ≠ pid → q' = q) := by
  obtain ⟨threads, value, hprocesses, -⟩ := rethreads.change
  rw [hprocesses] at hx
  rcases update_some hx with ⟨rfl, rfl⟩ | ⟨hne, hx⟩
  · exact ⟨p, rethreads.present, rfl, rfl, rfl, rfl, fun h => absurd rfl h⟩
  · exact ⟨q', hx, rfl, rfl, rfl, rfl, fun _ => rfl⟩

theorem Rethreads.forth (rethreads : Rethreads pid p s s') (hx : s.m_processes x = some q) :
    ∃ q', s'.m_processes x = some q' ∧ q'.ppid = q.ppid ∧ q'.children = q.children ∧ q'.loaded = q.loaded := by
  obtain ⟨threads, value, hprocesses, -⟩ := rethreads.change
  rw [hprocesses]
  by_cases hxp : x = pid
  · subst hxp
    cases rethreads.present.symm.trans hx
    exact ⟨_, update_self .., rfl, rfl, rfl⟩
  · exact ⟨q, (update_of_ne hxp ..).trans hx, rfl, rfl, rfl⟩

theorem Waits.transfer {parent : Nat} {waiter : Waiter} (waits : Waits s parent waiter)
    (forth : ∀ c q, Child s parent waiter.pid c q → q.loaded = true → ∃ q', Child s' parent waiter.pid c q')
    (back : ∀ c q', Child s' parent waiter.pid c q' → q'.loaded = false →
      ∃ c q, Child s parent waiter.pid c q ∧ q.loaded = false) : Waits s' parent waiter := by
  obtain ⟨⟨c, q, hchild⟩, hall⟩ := waits
  obtain ⟨q', hchild'⟩ := forth c q hchild (hall c q hchild)
  refine ⟨⟨c, q', hchild'⟩, fun d r hd => ?_⟩
  by_contra hloaded
  obtain ⟨e, o, ho, hunloaded⟩ := back d r hd (by simpa using hloaded)
  rw [hall e o ho] at hunloaded
  cases hunloaded

theorem Rethreads.family (rethreads : Rethreads pid p s s') (family : Family s) : Family s' where
  pids x q' hx := by
    obtain ⟨q, hq, hpid, -⟩ := rethreads.back hx
    rw [hpid]
    exact family.pids x q hq
  children x q' hx c hc := by
    obtain ⟨q, hq, -, -, hchildren, -⟩ := rethreads.back hx
    obtain ⟨o, ho, hppid⟩ := family.children x q hq c (hchildren ▸ hc)
    obtain ⟨o', ho', hppid', -⟩ := rethreads.forth ho
    exact ⟨o', ho', hppid'.trans hppid⟩
  parent c q' hc hlower := by
    obtain ⟨q, hq, -, hppid, -⟩ := rethreads.back hc
    rw [hppid] at hlower ⊢
    obtain ⟨hne, o, ho, hloaded, hmem⟩ := family.parent c q hq hlower
    obtain ⟨o', ho', -, hchildren, hloaded'⟩ := rethreads.forth ho
    exact ⟨hne, o', ho', hloaded'.trans hloaded, hchildren ▸ hmem⟩
  ended z q' hz hunloaded := by
    obtain ⟨q, hq, -, -, -, hloaded, hsame⟩ := rethreads.back hz
    have hne : z ≠ pid := by
      rintro rfl
      cases rethreads.present.symm.trans hq
      rw [hloaded, rethreads.loaded] at hunloaded
      cases hunloaded
    obtain rfl := hsame hne
    exact family.ended z q' hq hunloaded
  asleep x q' hx thread hthread waiter hwaiter hwoken := by
    have waits : Waits s x waiter := by
      obtain ⟨threads, value, hprocesses, hwaits⟩ := rethreads.change
      rw [hprocesses] at hx
      rcases update_some hx with ⟨rfl, rfl⟩ | ⟨hne, hx⟩
      · exact hwaits thread hthread waiter hwaiter hwoken
      · exact family.asleep x q' hx thread hthread waiter hwaiter hwoken
    refine waits.transfer (fun c q hchild _ => ?_) fun c o hchild hunloaded => ?_
    · obtain ⟨o', ho', hppid, -⟩ := rethreads.forth hchild.1
      exact ⟨o', ho', hppid.trans hchild.2.1, hchild.2.2⟩
    · obtain ⟨q, hq, -, hppid, -, hloaded, -⟩ := rethreads.back hchild.1
      exact ⟨c, q, ⟨hq, hppid ▸ hchild.2.1, hchild.2.2⟩, hloaded ▸ hunloaded⟩

/-- A new process, of no parent or among the children of its parent. -/
structure Born (child : Nat) (c : Process) (s s' : DceManager β) : Prop where
  absent : s.m_processes child = none
  pid : c.pid = child ∧ 1 < child
  loaded : c.loaded = true
  children : c.children = ∅
  threads : ∀ thread ∈ c.threads, thread.childWaiter = none
  change : (c.ppid = 0 ∧ s'.m_processes = update s.m_processes child (some c)) ∨
    ∃ p, 1 < c.ppid ∧ s.m_processes c.ppid = some p ∧ p.loaded = true ∧ s'.m_processes = update
        (update s.m_processes c.ppid (some { p with children := insert child p.children })) child (some c)

variable {c : Process}

section

variable (born : Born child c s s')
include born

theorem Born.self : s'.m_processes child = some c := by
  rcases born.change with ⟨-, hprocesses⟩ | ⟨p, -, -, -, hprocesses⟩
  · rw [hprocesses, update_self]
  · rw [hprocesses, update_self]

theorem Born.forth (hx : s.m_processes x = some q) :
    ∃ q', s'.m_processes x = some q' ∧ q'.pid = q.pid ∧ q'.ppid = q.ppid ∧ q'.threads = q.threads ∧
      q'.loaded = q.loaded ∧ q.children ⊆ q'.children ∧
      (∀ d ∈ q'.children, d ∈ q.children ∨ (d = child ∧ x = c.ppid)) ∧
      (x ≠ c.ppid → q' = q) := by
  have hne : x ≠ child := by
    rintro rfl
    cases born.absent.symm.trans hx
  rcases born.change with ⟨-, hprocesses⟩ | ⟨p, -, hp, -, hprocesses⟩
  · rw [hprocesses, update_of_ne hne]
    exact ⟨q, hx, rfl, rfl, rfl, rfl, subset_rfl, fun d hd => .inl hd, fun _ => rfl⟩
  · rw [hprocesses, update_of_ne hne]
    by_cases hxp : x = c.ppid
    · rw [hxp] at hx ⊢
      cases hp.symm.trans hx
      refine ⟨_, update_self .., rfl, rfl, rfl, rfl, Finset.subset_insert _ _, fun d hd => ?_, fun h => absurd rfl h⟩
      rcases Finset.mem_insert.mp hd with rfl | hd
      · exact .inr ⟨rfl, rfl⟩
      · exact .inl hd
    · rw [update_of_ne hxp]
      exact ⟨q, hx, rfl, rfl, rfl, rfl, subset_rfl, fun d hd => .inl hd, fun _ => rfl⟩

theorem Born.back (hx : s'.m_processes x = some q') : (x = child ∧ q' = c) ∨
    (x ≠ child ∧ ∃ q, s.m_processes x = some q) := by
  rcases born.change with ⟨-, hprocesses⟩ | ⟨p, -, hp, -, hprocesses⟩
  · rw [hprocesses] at hx
    exact (update_some hx).imp_right fun h => ⟨h.1, q', h.2⟩
  · rw [hprocesses] at hx
    refine (update_some hx).imp_right fun h => ⟨h.1, ?_⟩
    rcases update_some h.2 with ⟨rfl, -⟩ | ⟨-, hold⟩
    · exact ⟨p, hp⟩
    · exact ⟨q', hold⟩

theorem Born.family (family : Family s) : Family s' where
  pids x q' hx := by
    rcases born.back hx with ⟨rfl, rfl⟩ | ⟨-, q, hq⟩
    · exact born.pid
    · obtain ⟨o, ho, hpid, -⟩ := born.forth hq
      cases ho.symm.trans hx
      rw [hpid]
      exact family.pids x q hq
  children x q' hx d hd := by
    rcases born.back hx with ⟨rfl, rfl⟩ | ⟨-, q, hq⟩
    · rw [born.children] at hd
      exact absurd hd (Finset.notMem_empty d)
    · obtain ⟨o, ho, -, -, -, -, -, hmem, -⟩ := born.forth hq
      cases ho.symm.trans hx
      rcases hmem d hd with hold | ⟨rfl, rfl⟩
      · obtain ⟨e, he, hppid⟩ := family.children x q hq d hold
        obtain ⟨e', he', -, hppid', -⟩ := born.forth he
        exact ⟨e', he', hppid'.trans hppid⟩
      · exact ⟨c, born.self, rfl⟩
  parent d q' hd hlower := by
    rcases born.back hd with ⟨rfl, rfl⟩ | ⟨-, q, hq⟩
    · rcases born.change with ⟨hzero, -⟩ | ⟨p, -, hp, hloaded, hprocesses⟩
      · omega
      · have hne : q'.ppid ≠ d := by
          intro heq
          rw [heq, born.absent] at hp
          cases hp
        refine ⟨hne, { p with children := insert d p.children }, ?_, hloaded, Finset.mem_insert_self ..⟩
        rw [hprocesses, update_of_ne hne, update_self]
    · obtain ⟨o, ho, -, hppid, -⟩ := born.forth hq
      cases ho.symm.trans hd
      rw [hppid] at hlower ⊢
      obtain ⟨hne, p, hp, hloaded, hmem⟩ := family.parent d q hq hlower
      obtain ⟨p', hp', -, -, -, hloaded', hsub, -⟩ := born.forth hp
      exact ⟨hne, p', hp', hloaded'.trans hloaded, hsub hmem⟩
  ended z q' hz hunloaded := by
    rcases born.back hz with ⟨rfl, rfl⟩ | ⟨-, q, hq⟩
    · rw [born.loaded] at hunloaded
      cases hunloaded
    · obtain ⟨o, ho, -, -, -, hloaded, -, -, hsame⟩ := born.forth hq
      cases ho.symm.trans hz
      rw [hloaded] at hunloaded
      have hne : z ≠ c.ppid := by
        rintro rfl
        rcases born.change with ⟨hzero, -⟩ | ⟨p, -, hp, hloadedp, -⟩
        · have hlower := (family.pids _ q hq).2
          omega
        · cases hp.symm.trans hq
          rw [hloadedp] at hunloaded
          cases hunloaded
      rw [hsame hne]
      exact family.ended z q hq hunloaded
  asleep x q' hx thread hthread waiter hwaiter hwoken := by
    rcases born.back hx with ⟨rfl, rfl⟩ | ⟨-, q, hq⟩
    · rw [born.threads thread hthread] at hwaiter
      cases hwaiter
    · obtain ⟨o, ho, -, -, hthreads, -⟩ := born.forth hq
      cases ho.symm.trans hx
      refine (family.asleep x q hq thread (hthreads ▸ hthread) waiter hwaiter hwoken).transfer
        (fun d e hchild _ => ?_) fun d e hchild hunloaded => ?_
      · obtain ⟨e', he', -, hppid, -⟩ := born.forth hchild.1
        exact ⟨e', he', hppid.trans hchild.2.1, hchild.2.2⟩
      · rcases born.back hchild.1 with ⟨rfl, rfl⟩ | ⟨-, r, hr⟩
        · rw [born.loaded] at hunloaded
          cases hunloaded
        · obtain ⟨r', hr', -, hppid, -, hloaded, -⟩ := born.forth hr
          cases hr'.symm.trans hchild.1
          exact ⟨d, r, ⟨hr, hppid ▸ hchild.2.1, hchild.2.2⟩, hloaded ▸ hunloaded⟩

end

/-- The parent `pid` of the zombie `child` was told of it. -/
structure Reaped (pid child : Nat) (p c : Process) (s s' : DceManager β) : Prop where
  present : s.m_processes pid = some p
  zombie : s.m_processes child = some c
  parent : c.ppid = pid
  unloaded : c.loaded = false
  change : s'.m_processes = update (update s.m_processes pid
    (some { p with children := p.children.erase child })) child none

section

variable (reaped : Reaped pid child p c s s')
include reaped

theorem Reaped.forth (hx : s.m_processes x = some q) (hne : x ≠ child) :
    ∃ q', s'.m_processes x = some q' ∧ q'.pid = q.pid ∧ q'.ppid = q.ppid ∧ q'.threads = q.threads ∧
      q'.loaded = q.loaded ∧ q'.children ⊆ q.children ∧ (∀ d ∈ q.children, d ∈ q'.children ∨ (d = child ∧ x = pid)) ∧
      (x = pid → child ∉ q'.children) ∧ (x ≠ pid → q' = q) := by
  rw [reaped.change, update_of_ne hne]
  by_cases hxp : x = pid
  · rw [hxp] at hx ⊢
    cases reaped.present.symm.trans hx
    refine ⟨_, update_self .., rfl, rfl, rfl, rfl, Finset.erase_subset _ _, fun d hd => ?_,
      fun _ => Finset.notMem_erase _ _, fun h => absurd rfl h⟩
    by_cases hdc : d = child
    · exact .inr ⟨hdc, rfl⟩
    · exact .inl (Finset.mem_erase.mpr ⟨hdc, hd⟩)
  · rw [update_of_ne hxp]
    exact ⟨q, hx, rfl, rfl, rfl, rfl, subset_rfl, fun d hd => .inl hd, fun h => absurd h hxp, fun _ => rfl⟩

theorem Reaped.back (hx : s'.m_processes x = some q') : x ≠ child ∧ ∃ q, s.m_processes x = some q := by
  rw [reaped.change] at hx
  have hne : x ≠ child := by
    rintro rfl
    rw [update_self] at hx
    cases hx
  rw [update_of_ne hne] at hx
  rcases update_some hx with ⟨rfl, -⟩ | ⟨-, hold⟩
  · exact ⟨hne, p, reaped.present⟩
  · exact ⟨hne, q', hold⟩

theorem Reaped.family (family : Family s) : Family s' where
  pids x q' hx := by
    obtain ⟨hne, q, hq⟩ := reaped.back hx
    obtain ⟨o, ho, hpid, -⟩ := reaped.forth hq hne
    cases ho.symm.trans hx
    rw [hpid]
    exact family.pids x q hq
  children x q' hx d hd := by
    obtain ⟨hne, q, hq⟩ := reaped.back hx
    obtain ⟨o, ho, -, -, -, -, hsub, -, hnot, -⟩ := reaped.forth hq hne
    cases ho.symm.trans hx
    obtain ⟨e, he, hppid⟩ := family.children x q hq d (hsub hd)
    have hdc : d ≠ child := by
      rintro rfl
      cases he.symm.trans reaped.zombie
      exact hnot (hppid.symm.trans reaped.parent) hd
    obtain ⟨e', he', -, hppid', -⟩ := reaped.forth he hdc
    exact ⟨e', he', hppid'.trans hppid⟩
  parent d q' hd hlower := by
    obtain ⟨hne, q, hq⟩ := reaped.back hd
    obtain ⟨o, ho, -, hppid, -⟩ := reaped.forth hq hne
    cases ho.symm.trans hd
    rw [hppid] at hlower ⊢
    obtain ⟨hdiffer, r, hr, hloaded, hmem⟩ := family.parent d q hq hlower
    have hrc : q.ppid ≠ child := by
      intro heq
      rw [heq] at hr
      cases hr.symm.trans reaped.zombie
      rw [reaped.unloaded] at hloaded
      cases hloaded
    obtain ⟨r', hr', -, -, -, hloaded', -, hkept, -⟩ := reaped.forth hr hrc
    refine ⟨hdiffer, r', hr', hloaded'.trans hloaded, ?_⟩
    rcases hkept d hmem with hin | ⟨rfl, -⟩
    · exact hin
    · exact absurd rfl hne
  ended z q' hz hunloaded := by
    obtain ⟨hne, q, hq⟩ := reaped.back hz
    obtain ⟨o, ho, -, hppid, hthreads, hloaded, hsub, -⟩ := reaped.forth hq hne
    cases ho.symm.trans hz
    obtain ⟨hlower, hnone, hempty⟩ := family.ended z q hq (hloaded ▸ hunloaded)
    exact ⟨hppid ▸ hlower, hthreads.trans hnone, Finset.subset_empty.mp (hempty ▸ hsub)⟩
  asleep x q' hx thread hthread waiter hwaiter hwoken := by
    obtain ⟨hne, q, hq⟩ := reaped.back hx
    obtain ⟨o, ho, -, -, hthreads, -⟩ := reaped.forth hq hne
    cases ho.symm.trans hx
    refine (family.asleep x q hq thread (hthreads ▸ hthread) waiter hwaiter hwoken).transfer
      (fun d e hchild hloaded => ?_) fun d e hchild hunloaded => ?_
    · have hdc : d ≠ child := by
        rintro rfl
        cases hchild.1.symm.trans reaped.zombie
        rw [reaped.unloaded] at hloaded
        cases hloaded
      obtain ⟨e', he', -, hppid, -⟩ := reaped.forth hchild.1 hdc
      exact ⟨e', he', hppid.trans hchild.2.1, hchild.2.2⟩
    · obtain ⟨hdc, r, hr⟩ := reaped.back hchild.1
      obtain ⟨r', hr', -, hppid, -, hloaded, -⟩ := reaped.forth hr hdc
      cases hr'.symm.trans hchild.1
      exact ⟨d, r, ⟨hr, hppid ▸ hchild.2.1, hchild.2.2⟩, hloaded ▸ hunloaded⟩

end

variable (ends : Ends pid p s s')
include ends

theorem Ends.back (hne : x ≠ pid) (hx : s'.m_processes x = some q') :
    ∃ q, s.m_processes x = some q ∧ q'.pid = q.pid ∧ q'.children = q.children ∧ q'.loaded = q.loaded ∧
      (x ∈ p.children → q.loaded = true ∧ q'.ppid = 1) ∧ (x ∉ p.children → q'.ppid = q.ppid) ∧
      (x ≠ p.ppid → x ∉ p.children → q' = q) ∧ (x ≠ p.ppid → q'.threads = q.threads) ∧
      (x = p.ppid → ∀ thread ∈ q'.threads, ∀ waiter ∈ thread.childWaiter, waiter.woken = true) := by
  rw [ends.others x hne] at hx
  obtain ⟨r, hr, heq⟩ := map_eq_some_iff.mp hx
  have hback : ∃ q, s.m_processes x = some q ∧ r.pid = q.pid ∧ r.children = q.children ∧ r.loaded = q.loaded ∧
      (x ∈ p.children → q.loaded = true ∧ r.ppid = 1) ∧ (x ∉ p.children → r = q) ∧ r.threads = q.threads := by
    split at hr
    case isTrue hmem =>
      obtain ⟨q, hq, horphan⟩ := bind_eq_some_iff.mp hr
      rw [orphaned] at horphan
      split at horphan
      case isFalse => cases horphan
      case isTrue hloaded =>
        cases horphan
        exact ⟨q, hq, rfl, rfl, rfl, fun _ => ⟨hloaded, rfl⟩, fun h => absurd hmem h, rfl⟩
    case isFalse hmem => exact ⟨r, hr, rfl, rfl, rfl, fun h => absurd h hmem, fun _ => rfl, rfl⟩
  obtain ⟨q, hq, hpid, hchildren, hloaded, hgiven, hkept, hthreads⟩ := hback
  refine ⟨q, hq, ?_⟩
  by_cases hparent : x = p.ppid
  · rw [if_pos hparent] at heq
    subst heq
    refine ⟨hpid, hchildren, hloaded, hgiven, fun h => hkept h ▸ rfl, fun h => absurd hparent h,
      fun h => absurd hparent h, fun _ thread hthread waiter hwaiter => ?_⟩
    obtain ⟨old, -, rfl⟩ := mem_map.mp hthread
    obtain ⟨before, -, rfl⟩ := map_eq_some_iff.mp hwaiter
    rfl
  · rw [if_neg hparent] at heq
    subst heq
    exact ⟨hpid, hchildren, hloaded, hgiven, fun h => congrArg Process.ppid (hkept h), fun _ => hkept,
      fun _ => hthreads,
      fun h => absurd h hparent⟩

theorem Ends.forth (hne : x ≠ pid) (hx : s.m_processes x = some q)
    (hkept : x ∈ p.children → q.loaded = true) : ∃ q', s'.m_processes x = some q' := by
  rw [ends.others x hne, hx]
  by_cases hmem : x ∈ p.children
  · rw [if_pos hmem, bind_some, orphaned, if_pos (hkept hmem)]
    exact ⟨_, rfl⟩
  · rw [if_neg hmem]
    exact ⟨_, rfl⟩

theorem Ends.self_some (hq : s'.m_processes pid = some q) :
    1 < p.ppid ∧ q = { p with threads := [], children := ∅, loaded := false } := by
  rw [ends.self, ended] at hq
  split at hq
  next hlower => exact ⟨hlower, (some.inj hq).symm⟩
  · cases hq

theorem Ends.family (hp : s.m_processes pid = some p) (family : Family s) : Family s' where
  pids x q' hx := by
    by_cases hxp : x = pid
    · rw [hxp] at hx ⊢
      obtain ⟨-, rfl⟩ := ends.self_some hx
      exact family.pids pid p hp
    · obtain ⟨q, hq, hpid, -⟩ := ends.back hxp hx
      rw [hpid]
      exact family.pids x q hq
  children x q' hx d hd := by
    by_cases hxp : x = pid
    · rw [hxp] at hx
      obtain ⟨-, rfl⟩ := ends.self_some hx
      exact absurd hd (Finset.notMem_empty d)
    · obtain ⟨q, hq, -, hchildren, -⟩ := ends.back hxp hx
      obtain ⟨e, he, hppid⟩ := family.children x q hq d (hchildren ▸ hd)
      by_cases hdp : d = pid
      · rw [hdp] at he ⊢
        cases he.symm.trans hp
        have hlower := (family.pids x q hq).2
        have hself := ends.self
        rw [ended, if_pos (by omega)] at hself
        exact ⟨_, hself, hppid⟩
      · have hnot : d ∉ p.children := by
          intro hmem
          obtain ⟨e', he', hppid'⟩ := family.children pid p hp d hmem
          cases he'.symm.trans he
          exact hxp (hppid.symm.trans hppid')
        obtain ⟨e', he'⟩ := ends.forth hdp he fun h => absurd h hnot
        obtain ⟨o, ho, -, -, -, -, hsame, -⟩ := ends.back hdp he'
        cases ho.symm.trans he
        exact ⟨e', he', (hsame hnot).trans hppid⟩
  parent d q' hd hlower := by
    have hkept : ∀ r o, r ≠ pid → s.m_processes r = some o → o.loaded = true →
        ∃ o', s'.m_processes r = some o' ∧ o'.loaded = true ∧ o'.children = o.children := by
      intro r o hr ho hloaded
      obtain ⟨o', ho'⟩ := ends.forth hr ho fun _ => hloaded
      obtain ⟨b, hb, -, hchildren, hloaded', -⟩ := ends.back hr ho'
      cases hb.symm.trans ho
      exact ⟨o', ho', hloaded'.trans hloaded, hchildren⟩
    by_cases hdp : d = pid
    · rw [hdp] at hd ⊢
      obtain ⟨-, rfl⟩ := ends.self_some hd
      obtain ⟨hdiffer, r, hr, hloaded, hmem⟩ := family.parent pid p hp hlower
      obtain ⟨r', hr', hloaded', hchildren⟩ := hkept _ r hdiffer hr hloaded
      exact ⟨hdiffer, r', hr', hloaded', hchildren ▸ hmem⟩
    · obtain ⟨q, hq, -, -, -, hgiven, hsame, -⟩ := ends.back hdp hd
      have hnot : d ∉ p.children := by
        intro hmem
        have hone := (hgiven hmem).2
        omega
      rw [hsame hnot] at hlower ⊢
      obtain ⟨hdiffer, r, hr, hloaded, hmem⟩ := family.parent d q hq hlower
      have hrp : q.ppid ≠ pid := by
        intro heq
        rw [heq] at hr
        cases hr.symm.trans hp
        exact hnot hmem
      obtain ⟨r', hr', hloaded', hchildren⟩ := hkept _ r hrp hr hloaded
      exact ⟨hdiffer, r', hr', hloaded', hchildren ▸ hmem⟩
  ended z q' hz hunloaded := by
    by_cases hzp : z = pid
    · rw [hzp] at hz
      obtain ⟨hlower, rfl⟩ := ends.self_some hz
      exact ⟨hlower, rfl, rfl⟩
    · obtain ⟨q, hq, -, hchildren, hloaded, hgiven, hsame, -, hthreads, -⟩ := ends.back hzp hz
      rw [hloaded] at hunloaded
      have hnot : z ∉ p.children := by
        intro hmem
        rw [(hgiven hmem).1] at hunloaded
        cases hunloaded
      have hzparent : z ≠ p.ppid := by
        intro heq
        have hlower := (family.pids z q hq).2
        obtain ⟨-, r, hr, hloadedr, -⟩ := family.parent pid p hp (heq ▸ hlower)
        rw [← heq] at hr
        cases hr.symm.trans hq
        rw [hloadedr] at hunloaded
        cases hunloaded
      obtain ⟨hlower, hnone, hempty⟩ := family.ended z q hq hunloaded
      exact ⟨(hsame hnot).symm ▸ hlower, (hthreads hzparent).trans hnone, hchildren.trans hempty⟩
  asleep x q' hx thread hthread waiter hwaiter hwoken := by
    by_cases hxp : x = pid
    · rw [hxp] at hx
      obtain ⟨-, rfl⟩ := ends.self_some hx
      cases hthread
    · obtain ⟨q, hq, -, -, -, -, -, -, hthreads, hwake⟩ := ends.back hxp hx
      have hxparent : x ≠ p.ppid := by
        intro heq
        rw [hwake heq thread hthread waiter hwaiter] at hwoken
        cases hwoken
      have hlower := (family.pids x q hq).2
      refine (family.asleep x q hq thread (hthreads hxparent ▸ hthread) waiter hwaiter hwoken).transfer
        (fun d e hchild _ => ?_) fun d e hchild hunloaded => ?_
      · have hdp : d ≠ pid := by
          rintro rfl
          cases hchild.1.symm.trans hp
          exact hxparent hchild.2.1.symm
        have hnot : d ∉ p.children := by
          intro hmem
          obtain ⟨e', he', hppid⟩ := family.children pid p hp d hmem
          cases he'.symm.trans hchild.1
          exact hxp (hchild.2.1.symm.trans hppid)
        obtain ⟨e', he'⟩ := ends.forth hdp hchild.1 fun h => absurd h hnot
        obtain ⟨o, ho, -, -, -, -, hsame, -⟩ := ends.back hdp he'
        cases ho.symm.trans hchild.1
        exact ⟨e', he', (hsame hnot).trans hchild.2.1, hchild.2.2⟩
      · have hdp : d ≠ pid := by
          intro heq
          have he := hchild.1
          rw [heq] at he
          obtain ⟨-, rfl⟩ := ends.self_some he
          exact hxparent hchild.2.1.symm
        obtain ⟨o, ho, -, -, hloaded, hgiven, hsame, -⟩ := ends.back hdp hchild.1
        have hnot : d ∉ p.children := by
          intro hmem
          have hone := (hgiven hmem).2.symm.trans hchild.2.1
          omega
        exact ⟨d, o, ⟨ho, (hsame hnot).symm.trans hchild.2.1, hchild.2.2⟩, hloaded ▸ hunloaded⟩

end

end Dce.Processes
