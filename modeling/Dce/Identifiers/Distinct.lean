import Dce.Lib.Machine

/- How mutexes, semaphores and condition variables are numbered: `dce-pthread-mutex.cc`,
`dce-semaphore.cc`, `dce-pthread-cond.cc`, and what `dce-manager.cc` does with the counters. -/

namespace Dce.Identifiers

inductive Kind
  | mutex | semaphore | condition
  deriving DecidableEq, Repr

/-- A `Mutex`, a `Semaphore` or a `Condition`, by its address. `busy` says that a thread holds it or waits for it. -/
structure Entry where
  ptr : Nat
  id : Nat
  busy : Bool
  deriving DecidableEq, Repr

/-- `mutexes` and `nextMid`, `semaphores` and `nextSid`, or `conditions` and `nextCid`. -/
structure Table where
  live : List Entry
  next : Nat
  deriving DecidableEq, Repr

/-- `words` is the memory of the program: the first word of the object of a kind that is at an address. -/
structure Process where
  tables : Kind → Table
  words : Kind → Nat → Nat
  nextPtr : Nat

inductive Result
  | done
  | EINVAL
  | EBUSY
  | ENOSYS
  | found (id : Nat)
  deriving DecidableEq, Repr

/-- The counters are unsigned and have 32 bits. -/
def bump (next : Nat) : Nat := (next + 1) % 2 ^ 32

def Process.setTable (k : Kind) (t : Table) (s : Process) : Process :=
  { s with tables := Function.update s.tables k t }

/-- `MidToMutex`, `SidToSem` and `CidToCond` -/
def Process.setWord (k : Kind) (a w : Nat) (s : Process) : Process :=
  { s with words := Function.update s.words k (Function.update (s.words k) a w) }

/-- A new object goes to the end of the list, and its number into the memory. -/
def create (k : Kind) (a : Nat) (s : Process) : Process :=
  let t := s.tables k
  let s := (s.setTable k ⟨t.live ++ [⟨s.nextPtr, t.next, false⟩], bump t.next⟩).setWord k a t.next
  { s with nextPtr := s.nextPtr + 1 }

def Table.search (id : Nat) (t : Table) : Option Entry := t.live.find? fun e => e.id = id

def Table.erase (e : Entry) (t : Table) : Table := { t with live := t.live.eraseP fun x => x.ptr = e.ptr }

/-- Threads take it, wait for it or leave it. -/
def Table.use (e : Entry) (busy : Bool) (t : Table) : Table :=
  { t with live := t.live.map fun x => if x.ptr = e.ptr then { x with busy := busy } else x }

def PthreadMutexInitStatic (a : Nat) (s : Process) : Process := create .mutex a s

def SearchMutex (a : Nat) (s : Process) : Process × Option Entry :=
  if a = 0 then (s, none)
  else
    let s := if s.words .mutex a = 0 then PthreadMutexInitStatic a s else s
    (s, (s.tables .mutex).search (s.words .mutex a))

/-- `valid` says that the attribute is null, or of one of the two types. -/
def dce_pthread_mutex_init (a : Nat) (valid : Bool) (s : Process) : Process × Result :=
  if a = 0 then (s, .EINVAL)
  else if valid = false then (s, .EINVAL)
  else (create .mutex a s, .done)

def dce_pthread_mutex_destroy (a : Nat) (s : Process) : Process × Result :=
  match SearchMutex a s with
  | (s, none) => (s, .EINVAL)
  | (s, some mtx) =>
    if mtx.busy then (s, .EBUSY)
    else ((s.setTable .mutex ((s.tables .mutex).erase mtx)).setWord .mutex a 2, .done)

def SearchSemaphore (a : Nat) (s : Process) : Option Entry :=
  if a = 0 then none else (s.tables .semaphore).search (s.words .semaphore a)

def dce_sem_init (a : Nat) (pshared : Bool) (s : Process) : Process × Result :=
  if pshared then (s, .ENOSYS) else (create .semaphore a s, .done)

/-- `none` is a fatal error. -/
def dce_sem_destroy (a : Nat) (s : Process) : Option (Process × Result) :=
  match SearchSemaphore a s with
  | none => some (s, .EINVAL)
  | some sem =>
    if sem.busy then none
    else some ((s.setTable .semaphore ((s.tables .semaphore).erase sem)).setWord .semaphore a 2, .done)

def PthreadCondInitStatic (a : Nat) (s : Process) : Process × Entry :=
  (create .condition a s, ⟨s.nextPtr, (s.tables .condition).next, false⟩)

def SearchCondition (a : Nat) (s : Process) : Process × Option Entry :=
  if a = 0 then (s, none)
  else if s.words .condition a = 0 then
    let (s, condition) := PthreadCondInitStatic a s
    (s, some condition)
  else (s, (s.tables .condition).search (s.words .condition a))

def dce_pthread_cond_init (a : Nat) (s : Process) : Process × Result :=
  if a = 0 then (s, .EINVAL) else ((PthreadCondInitStatic a s).1, .done)

def dce_pthread_cond_destroy (a : Nat) (s : Process) : Process × Result :=
  match SearchCondition a s with
  | (s, none) => (s, .EINVAL)
  | (s, some condition) =>
    ((s.setTable .condition ((s.tables .condition).erase condition)).setWord .condition a 2, .done)

/-- The search with which every other call on an object begins. -/
def search (k : Kind) (a : Nat) (s : Process) : Process × Option Entry :=
  match k with
  | .mutex => SearchMutex a s
  | .semaphore => (s, SearchSemaphore a s)
  | .condition => SearchCondition a s

/-- A lock, an unlock, a wait, a post or a signal, after which the object is `busy` or not. -/
def use (k : Kind) (a : Nat) (busy : Bool) (s : Process) : Process × Result :=
  match search k a s with
  | (s, none) => (s, .EINVAL)
  | (s, some e) => (s.setTable k ((s.tables k).use e busy), .found e.id)

/-- As much of `Execve` as has to do with the objects. The memory is a new one. -/
def Execve (words : Kind → Nat → Nat) (s : Process) : Process where
  tables _ := ⟨[], 0⟩
  words := words
  nextPtr := s.nextPtr

/-- The child that `Clone` makes. -/
def Clone (s : Process) : Process := { s with tables := fun k => ⟨[], (s.tables k).next⟩ }

/-- The calls of the program, and what else it does with its memory. With `clone` the run is that of the child. -/
inductive Label
  | mutex_init (a : Nat) (valid : Bool)
  | mutex_destroy (a : Nat)
  | sem_init (a : Nat) (pshared : Bool)
  | sem_destroy (a : Nat)
  | cond_init (a : Nat)
  | cond_destroy (a : Nat)
  | use (k : Kind) (a : Nat) (busy : Bool)
  | store (k : Kind) (a w : Nat)
  | execve (words : Kind → Nat → Nat)
  | clone

def respond (s : Process) : Label → Option (Process × Result)
  | .mutex_init a valid => some (dce_pthread_mutex_init a valid s)
  | .mutex_destroy a => some (dce_pthread_mutex_destroy a s)
  | .sem_init a pshared => some (dce_sem_init a pshared s)
  | .sem_destroy a => dce_sem_destroy a s
  | .cond_init a => some (dce_pthread_cond_init a s)
  | .cond_destroy a => some (dce_pthread_cond_destroy a s)
  | .use k a busy => some (use k a busy s)
  | .store k a w => some (s.setWord k a w, .done)
  | .execve words => some (Execve words s, .done)
  | .clone => some (Clone s, .done)

/-- As much of `CreateProcess`. -/
def CreateProcess (words : Kind → Nat → Nat) : Process where
  tables _ := ⟨[], 3⟩
  words := words
  nextPtr := 0

def machine : Machine Process Label where
  init s := ∃ words, s = CreateProcess words
  step s label := (respond s label).map Prod.fst

end Dce.Identifiers

/- No two live objects share a number, and none has a reserved one, until a counter is back at 0. -/

namespace Dce.Identifiers

/-- What should hold of the objects of a kind: a word that is 0 means one that is not initialised, and
2 one that was destroyed. -/
structure Distinct (t : Table) : Prop where
  nodup : (t.live.map Entry.id).Nodup
  uninitialised : ∀ e ∈ t.live, e.id ≠ 0
  destroyed : t.search 2 = none

/-- The kind of which a call makes a new object. -/
def makes (s : Process) : Label → Option Kind
  | .mutex_init a valid => if a ≠ 0 ∧ valid = true then some .mutex else none
  | .mutex_destroy a => if a ≠ 0 ∧ s.words .mutex a = 0 then some .mutex else none
  | .sem_init _ pshared => if pshared then none else some .semaphore
  | .cond_init a => if a ≠ 0 then some .condition else none
  | .cond_destroy a => if a ≠ 0 ∧ s.words .condition a = 0 then some .condition else none
  | .use .mutex a _ => if a ≠ 0 ∧ s.words .mutex a = 0 then some .mutex else none
  | .use .condition a _ => if a ≠ 0 ∧ s.words .condition a = 0 then some .condition else none
  | _ => none

/-- No object is made after an `execve`, nor after so many of its kind that their counter is back at 0. -/
def Counting (s : Process) (label : Label) : Prop := ∀ k, makes s label = some k → (s.tables k).next ≠ 0

/-- The numbers were given in their order, from 3 on. -/
structure Numbered (t : Table) : Prop where
  nodup : (t.live.map Entry.id).Nodup
  from_three : ∀ e ∈ t.live, 3 ≤ e.id
  below : t.next = 0 ∨ 3 ≤ t.next ∧ ∀ e ∈ t.live, e.id < t.next
  bounded : t.next < 2 ^ 32

section

variable {t : Table}

section

variable (numbered : Numbered t)
include numbered

theorem Numbered.distinct : Distinct t where
  nodup := numbered.nodup
  uninitialised e he := by
    have hid := numbered.from_three e he
    omega
  destroyed := by
    refine List.find?_eq_none.mpr fun e he => ?_
    have hid := numbered.from_three e he
    rw [decide_eq_true_eq]
    omega

omit numbered in
theorem bump_eq {next : Nat} (bounded : next < 2 ^ 32) : bump next = 0 ∨ bump next = next + 1 := by
  rw [bump]
  omega

theorem Numbered.made (counting : t.next ≠ 0) (ptr : Nat) :
    Numbered ⟨t.live ++ [⟨ptr, t.next, false⟩], bump t.next⟩ := by
  obtain ⟨least, below⟩ := numbered.below.resolve_left counting
  exact {
    nodup := by
      rw [List.map_append]
      refine List.nodup_append.mpr ⟨numbered.nodup, by simp, fun x hx y hy => ?_⟩
      obtain ⟨e, he, rfl⟩ := List.mem_map.mp hx
      obtain rfl := List.mem_singleton.mp hy
      exact (below e he).ne
    from_three := fun e he => by
      rcases List.mem_append.mp he with old | new
      · exact numbered.from_three e old
      · rw [List.mem_singleton.mp new]
        exact least
    below := by
      rcases bump_eq numbered.bounded with wraps | rises
      · exact .inl wraps
      · refine .inr ?_
        dsimp only
        rw [rises]
        refine ⟨by omega, fun e he => ?_⟩
        rcases List.mem_append.mp he with old | new
        · have hid := below e old
          omega
        · rw [List.mem_singleton.mp new]
          exact Nat.lt_succ_self _
    bounded := Nat.mod_lt _ (by decide) }

theorem Numbered.erase (e : Entry) : Numbered (t.erase e) where
  nodup := numbered.nodup.sublist (List.eraseP_sublist.map _)
  from_three x hx := numbered.from_three x (List.mem_of_mem_eraseP hx)
  below := numbered.below.imp_right fun h => ⟨h.1, fun x hx => h.2 x (List.mem_of_mem_eraseP hx)⟩
  bounded := numbered.bounded

theorem Numbered.use (e : Entry) (busy : Bool) : Numbered (t.use e busy) := by
  have same : (t.use e busy).live.map Entry.id = t.live.map Entry.id := by
    rw [Table.use, List.map_map]
    refine List.map_congr_left fun x _ => ?_
    dsimp only [Function.comp_apply]
    split
    · rfl
    · rfl
  have ids : ∀ x ∈ (t.use e busy).live, ∃ y ∈ t.live, y.id = x.id := by
    intro x hx
    exact List.mem_map.mp (same ▸ List.mem_map_of_mem hx)
  exact {
    nodup := same ▸ numbered.nodup
    from_three := fun x hx => by
      obtain ⟨y, hy, hid⟩ := ids x hx
      exact hid ▸ numbered.from_three y hy
    below := numbered.below.imp_right fun h => ⟨h.1, fun x hx => by
      obtain ⟨y, hy, hid⟩ := ids x hx
      exact hid ▸ h.2 y hy⟩
    bounded := numbered.bounded }

end

theorem numbered_empty {next : Nat} (bounded : next < 2 ^ 32) (from_three : next = 0 ∨ 3 ≤ next) :
    Numbered ⟨[], next⟩ where
  nodup := List.nodup_nil
  from_three := by simp
  below := from_three.imp_right fun h => ⟨h, by simp⟩
  bounded := bounded

end

section

variable {s s' : Process} {k : Kind} {a : Nat}

def Ordered (s : Process) : Prop := ∀ k, Numbered (s.tables k)

variable (ordered : Ordered s)
include ordered

theorem Ordered.setTable {t : Table} (numbered : Numbered t) : Ordered (s.setTable k t) := by
  intro k'
  rcases eq_or_ne k' k with rfl | ne
  · rw [Process.setTable]
    dsimp only
    rw [Function.update_self]
    exact numbered
  · rw [Process.setTable]
    dsimp only
    rw [Function.update_of_ne ne]
    exact ordered k'

theorem Ordered.create (counting : (s.tables k).next ≠ 0) (a : Nat) : Ordered (create k a s) := by
  have made : Ordered (s.setTable k ⟨(s.tables k).live ++ [⟨s.nextPtr, (s.tables k).next, false⟩],
    bump (s.tables k).next⟩) :=
    ordered.setTable ((ordered k).made counting s.nextPtr)
  exact made

theorem Ordered.SearchMutex (counting : a ≠ 0 → s.words .mutex a = 0 → (s.tables .mutex).next ≠ 0) :
    Ordered (SearchMutex a s).1 := by
  rw [Identifiers.SearchMutex]
  split
  · exact ordered
  next hnull =>
    split
    next hword => exact ordered.create (counting hnull hword) a
    · exact ordered

theorem Ordered.SearchCondition
    (counting : a ≠ 0 → s.words .condition a = 0 → (s.tables .condition).next ≠ 0) :
    Ordered (SearchCondition a s).1 := by
  rw [Identifiers.SearchCondition]
  split
  · exact ordered
  next hnull =>
    split
    next hword => exact ordered.create (counting hnull hword) a
    · exact ordered

theorem Ordered.erase (e : Entry) (w : Nat) : Ordered ((s.setTable k ((s.tables k).erase e)).setWord k a w) :=
  ordered.setTable ((ordered k).erase e)

theorem Ordered.mutex_destroy
    (counting : a ≠ 0 → s.words .mutex a = 0 → (s.tables .mutex).next ≠ 0) :
    Ordered (dce_pthread_mutex_destroy a s).1 := by
  have searched := ordered.SearchMutex counting
  rw [dce_pthread_mutex_destroy]
  split
  case h_1 s₁ hsearch =>
    rw [hsearch] at searched
    exact searched
  case h_2 s₁ mtx hsearch =>
    rw [hsearch] at searched
    split
    · exact searched
    · exact Ordered.erase searched mtx 2

theorem Ordered.cond_destroy (counting : a ≠ 0 → s.words .condition a = 0 → (s.tables .condition).next ≠ 0) :
    Ordered (dce_pthread_cond_destroy a s).1 := by
  have searched := ordered.SearchCondition counting
  rw [dce_pthread_cond_destroy]
  split
  case h_1 s₁ hsearch =>
    rw [hsearch] at searched
    exact searched
  case h_2 s₁ condition hsearch =>
    rw [hsearch] at searched
    exact Ordered.erase searched condition 2

theorem Ordered.sem_destroy {result : Result} (h : dce_sem_destroy a s = some (s', result)) : Ordered s' := by
  rw [dce_sem_destroy] at h
  split at h
  case h_1 =>
    obtain ⟨rfl, rfl⟩ := Prod.mk.inj (Option.some.inj h)
    exact ordered
  case h_2 sem _ =>
    split at h
    · cases h
    · obtain ⟨rfl, rfl⟩ := Prod.mk.inj (Option.some.inj h)
      exact ordered.erase sem 2

theorem Ordered.use (busy : Bool) (counting : Counting s (.use k a busy)) : Ordered (use k a busy s).1 := by
  have searched : Ordered (search k a s).1 := by
    cases k with
    | mutex => exact ordered.SearchMutex fun hnull hword => counting .mutex (if_pos ⟨hnull, hword⟩)
    | semaphore => exact ordered
    | condition => exact ordered.SearchCondition fun hnull hword => counting .condition (if_pos ⟨hnull, hword⟩)
  rw [Identifiers.use]
  split
  case h_1 s₁ hsearch =>
    rw [hsearch] at searched
    exact searched
  case h_2 s₁ e hsearch =>
    rw [hsearch] at searched
    exact Ordered.setTable searched ((searched k).use e busy)

theorem Ordered.step {label : Label} {result : Result} (counting : Counting s label)
    (h : respond s label = some (s', result)) : Ordered s' := by
  have same {p : Process × Result} (kept : Ordered p.1) (h : some p = some (s', result)) : Ordered s' := by
    cases h
    exact kept
  cases label with
  | mutex_init a valid =>
    refine same ?_ h
    rw [dce_pthread_mutex_init]
    split
    · exact ordered
    next hnull =>
      split
      · exact ordered
      next hvalid =>
        exact ordered.create (counting .mutex (if_pos ⟨hnull, Bool.eq_true_of_not_eq_false hvalid⟩)) a
  | mutex_destroy a =>
    exact same (ordered.mutex_destroy fun hnull hword => counting .mutex (if_pos ⟨hnull, hword⟩)) h
  | sem_init a pshared =>
    refine same ?_ h
    rw [dce_sem_init]
    split
    · exact ordered
    next hlocal => exact ordered.create (counting .semaphore (if_neg hlocal)) a
  | sem_destroy a => exact ordered.sem_destroy h
  | cond_init a =>
    refine same ?_ h
    rw [dce_pthread_cond_init]
    split
    · exact ordered
    next hnull => exact ordered.create (counting .condition (if_pos hnull)) a
  | cond_destroy a =>
    exact same (ordered.cond_destroy fun hnull hword => counting .condition (if_pos ⟨hnull, hword⟩)) h
  | use k a busy => exact same (ordered.use busy counting) h
  | store k a w => exact same (p := (s.setWord k a w, .done)) ordered h
  | execve words => exact same (p := (Execve words s, .done)) (fun k => numbered_empty (by decide) (.inl rfl)) h
  | clone =>
    refine same (p := (Clone s, .done)) (fun k => ?_) h
    exact numbered_empty (ordered k).bounded ((ordered k).below.imp_right fun h => h.1)

end

/-- As long as no object is made when its counter is at 0, the numbers of the live ones are distinct
and none is reserved. -/
theorem distinct_of_reach {s : Process} (reach : machine.ReachBy Counting s) (k : Kind) : Distinct (s.tables k) := by
  have ordered : Ordered s := by
    refine reach.invariant ?_ fun u label v held counting run => ?_
    · rintro u ⟨words, rfl⟩ k
      exact numbered_empty (by decide) (.inr le_rfl)
    · obtain ⟨⟨v', result⟩, hrespond, rfl⟩ := Option.map_eq_some_iff.mp run
      exact held.step counting hrespond
  exact (ordered k).distinct

theorem counting_of_ne {s : Process} {label : Label} (ne : ∀ k, (s.tables k).next ≠ 0) :
    Counting s label := fun k _ => ne k

/-- Two mutexes are initialised, the first is destroyed, and there is a third. -/
theorem distinct_three : ∃ s : Process, (s.tables .mutex).live.map Entry.id = [4, 5] ∧
    Distinct (s.tables .mutex) := by
  have reach : machine.ReachBy Counting (CreateProcess fun _ _ => 0) := .start ⟨_, rfl⟩
  have first := reach.next (a := .mutex_init 8 true) (counting_of_ne fun k => by cases k <;> decide) rfl
  have second := first.next (a := .mutex_init 16 true) (counting_of_ne fun k => by cases k <;> decide) rfl
  have destroyed := second.next (a := .mutex_destroy 8) (counting_of_ne fun k => by cases k <;> decide) rfl
  have third := destroyed.next (a := .mutex_init 24 true) (counting_of_ne fun k => by cases k <;> decide) rfl
  exact ⟨_, rfl, distinct_of_reach third .mutex⟩

/-- A program that was executed initialises a mutex. -/
theorem number_zero_after_execve : ¬ ∀ s, machine.Reach s → ∀ k, Distinct (s.tables k) := by
  intro h
  let words : Kind → Nat → Nat := fun _ _ => 1
  let executed := Execve words (CreateProcess words)
  let s := create .mutex 8 executed
  have reach : machine.Reach executed := .next (a := .execve words) (.start ⟨words, rfl⟩) trivial rfl
  have reach' : machine.Reach s := .next (a := .mutex_init 8 true) reach trivial rfl
  have hmem : ⟨0, 0, false⟩ ∈ (s.tables .mutex).live := List.mem_singleton_self _
  exact (h s reach' .mutex).uninitialised _ hmem rfl

end Dce.Identifiers
