import Mathlib.Algebra.Order.Ring.Int
import Mathlib.Algebra.Order.Ring.Nat
import Mathlib.Data.List.Basic
import Mathlib.Data.List.Count

/- Lists of nodes that are counted: each node lists others that it depends on, and has a count of the nodes that
list it and of those who hold it from outside. -/

/-- `id` is not twice in a list that is well formed. -/
structure Counted (κ α : Type*) where
  id : κ
  refcount : Nat
  deps : List κ
  value : α
  deriving DecidableEq, Repr

namespace Counted

open List Option

variable {κ α σ : Type*} [DecidableEq κ]

def ids (l : List (Counted κ α)) : List κ := l.map Counted.id

/-- The count of a node, and zero for one that is not there. -/
def count (k : κ) : List (Counted κ α) → Nat
  | [] => 0
  | n :: l => if n.id = k then n.refcount else count k l

/-- How often the nodes list `k`. -/
def listed (k : κ) (l : List (Counted κ α)) : Nat := (l.map fun n => n.deps.count k).sum

def find (k : κ) (l : List (Counted κ α)) : Option (Counted κ α) := l.find? fun n => n.id = k

def alter (k : κ) (f : Counted κ α → Counted κ α) : List (Counted κ α) → List (Counted κ α)
  | [] => []
  | n :: l => if n.id = k then f n :: l else n :: alter k f l

def remove (k : κ) : List (Counted κ α) → List (Counted κ α)
  | [] => []
  | n :: l => if n.id = k then l else n :: remove k l

def acquire (k : κ) : List (Counted κ α) → List (Counted κ α) :=
  alter k fun n => { n with refcount := n.refcount + 1 }

def decrease (k : κ) : List (Counted κ α) → List (Counted κ α) :=
  alter k fun n => { n with refcount := n.refcount - 1 }

/-- One reference of `k` is given back. A node that has lost its last one goes, gives back its own, and is closed,
which changes a state beside the list. -/
def releaseWith (close : Counted κ α → σ → σ) : Nat → κ → List (Counted κ α) × σ → List (Counted κ α) × σ
  | 0, _, p => p
  | fuel + 1, k, (l, s) =>
    match find k l with
    | none => (l, s)
    | some n =>
      if n.refcount - 1 = 0 then
        let (l, s) := n.deps.foldl (fun p d => releaseWith close fuel d p) (remove k l, s)
        (l, close n s)
      else (decrease k l, s)

/-- The same, where a node stays in the list until the others have gone. -/
def releaseLastWith (close : Counted κ α → σ → σ) : Nat → κ → List (Counted κ α) × σ → List (Counted κ α) × σ
  | 0, _, p => p
  | fuel + 1, k, (l, s) =>
    match find k l with
    | none => (l, s)
    | some n =>
      if n.refcount - 1 = 0 then
        let (l, s) := n.deps.foldl (fun p d => releaseLastWith close fuel d p) (decrease k l, s)
        (remove k l, close n s)
      else (decrease k l, s)

section

variable {l m : List (Counted κ α)} {n : Counted κ α} {j k : κ} {f : Counted κ α → Counted κ α}

theorem count_of_notMem (absent : k ∉ ids l) : count k l = 0 := by
  induction l with
  | nil => rfl
  | cons n l ih =>
    have other : n.id ≠ k := fun same => absent (same ▸ mem_cons_self)
    rw [count, if_neg other]
    exact ih fun inside => absent (mem_cons_of_mem _ inside)

theorem find_cons : find k (n :: l) = if n.id = k then some n else find k l := by
  rw [find, find?_cons]
  by_cases here : n.id = k
  · rw [decide_eq_true here, if_pos here]
  · rw [decide_eq_false here, if_neg here, find]

theorem find_isSome : (find k l).isSome ↔ k ∈ ids l := by
  rw [find, List.find?_isSome, ids, List.mem_map]
  exact exists_congr fun n => and_congr_right fun _ => decide_eq_true_iff

theorem find_eq_none : find k l = none ↔ k ∉ ids l := by
  rw [← find_isSome, not_isSome_iff_eq_none]

section

variable (found : find k l = some n)
include found

theorem find_id : n.id = k := by
  simpa using find?_some found

theorem find_mem : n ∈ l := mem_of_find?_eq_some found

theorem count_of_find : count k l = n.refcount := by
  induction l with
  | nil => cases found
  | cons first l ih =>
    rw [find_cons] at found
    rw [count]
    split at found
    next here =>
      cases found
      exact if_pos here
    next other =>
      rw [if_neg other]
      exact ih found

end

theorem ids_alter (same : ∀ n, (f n).id = n.id) : ids (alter k f l) = ids l := by
  induction l with
  | nil => rfl
  | cons n l ih =>
    rw [alter]
    split
    · exact congrArg (· :: ids l) (same n)
    · exact congrArg (n.id :: ·) ih

theorem listed_alter (same : ∀ n, (f n).deps = n.deps) : listed j (alter k f l) = listed j l := by
  induction l with
  | nil => rfl
  | cons n l ih =>
    rw [alter]
    split
    · simp [listed, same]
    · simp only [listed, map_cons, sum_cons] at ih ⊢
      rw [ih]

theorem count_alter_of_ne (other : j ≠ k) (same : ∀ n, (f n).id = n.id) : count j (alter k f l) = count j l := by
  induction l with
  | nil => rfl
  | cons n l ih =>
    rw [alter]
    split
    next here => rw [count, count, same, here, if_neg other.symm, if_neg other.symm]
    next => rw [count, count, ih]

theorem count_alter_self (same : ∀ n, (f n).id = n.id) (found : find k l = some n) :
    count k (alter k f l) = (f n).refcount := by
  induction l with
  | nil => cases found
  | cons first l ih =>
    rw [find_cons] at found
    rw [alter]
    split at found
    next here =>
      cases found
      rw [if_pos here, count, same, if_pos here]
    next other =>
      rw [if_neg other, count, if_neg other]
      exact ih found

theorem ids_acquire : ids (acquire k l) = ids l := ids_alter fun _ => rfl

theorem listed_acquire : listed j (acquire k l) = listed j l := listed_alter fun _ => rfl

theorem ids_decrease : ids (decrease k l) = ids l := ids_alter fun _ => rfl

theorem listed_decrease : listed j (decrease k l) = listed j l := listed_alter fun _ => rfl

theorem ids_remove : ids (remove k l) = (ids l).erase k := by
  induction l with
  | nil => rfl
  | cons n l ih =>
    show _ = (n.id :: ids l).erase k
    by_cases here : n.id = k
    · rw [remove, if_pos here, here, erase_cons_head]
    · rw [remove, if_neg here, erase_cons_tail (by simpa using here), ← ih]
      rfl

theorem sublist_remove : (remove k l).Sublist l := by
  induction l with
  | nil => exact Sublist.refl _
  | cons n l ih =>
    rw [remove]
    split
    · exact sublist_cons_self n l
    · exact ih.cons_cons n

theorem count_remove_of_ne (other : j ≠ k) : count j (remove k l) = count j l := by
  induction l with
  | nil => rfl
  | cons n l ih =>
    rw [remove]
    split
    next here => rw [count, if_neg fun same => other (same.symm.trans here)]
    next => rw [count, count, ih]

theorem count_remove_self (nodup : (ids l).Nodup) : count k (remove k l) = 0 :=
  count_of_notMem (by rw [ids_remove]; exact nodup.not_mem_erase)

theorem listed_cons : listed j (n :: l) = n.deps.count j + listed j l := sum_cons

theorem listed_remove (found : find k l = some n) : listed j l = listed j (remove k l) + n.deps.count j := by
  induction l with
  | nil => cases found
  | cons first l ih =>
    rw [find_cons] at found
    rw [remove, listed_cons]
    split at found
    next here =>
      cases found
      rw [if_pos here]
      omega
    next other =>
      rw [if_neg other, listed_cons, ih found]
      omega

theorem count_append_singleton : count j (l ++ [n]) = if j ∈ ids l then count j l
    else if n.id = j then n.refcount else 0 := by
  induction l with
  | nil => rfl
  | cons first l ih =>
    have inside : j ∈ ids (first :: l) ↔ first.id = j ∨ j ∈ ids l := mem_cons.trans (or_congr_left eq_comm)
    rw [cons_append, count, ih, count]
    by_cases here : first.id = j
    · rw [if_pos here, if_pos (inside.mpr (.inl here)), if_pos here]
    · rw [if_neg here, if_neg here]
      exact if_congr (inside.trans (or_iff_right here)).symm rfl rfl

theorem listed_append : listed j (l ++ m) = listed j l + listed j m := by
  simp [listed]

theorem listed_pos_iff : 0 < listed j l ↔ ∃ n ∈ l, j ∈ n.deps := by
  induction l with
  | nil => simp [listed]
  | cons n l ih =>
    rw [listed_cons, Nat.add_pos_iff_pos_or_pos, ih]
    simp

end

section

variable {l gone : List (Counted κ α)} {n : Counted κ α} {j k : κ} {ks debts : List κ} {own : κ → Nat}
    {rank : κ → Nat} {fuel : Nat}

/-- Each count is what is held from outside, what is still to be given back, and what the other nodes list. -/
structure Exact (own : κ → Nat) (debts : List κ) (l : List (Counted κ α)) : Prop where
  nodup : (ids l).Nodup
  exact : ∀ k, count k l = own k + debts.count k + listed k l

/-- The nodes depend on nodes of lower rank. -/
def Acyclic (rank : κ → Nat) (l : List (Counted κ α)) : Prop := ∀ n ∈ l, ∀ d ∈ n.deps, rank d < rank n.id

theorem Exact.nil : Exact (fun _ => 0) [] ([] : List (Counted κ α)) := ⟨nodup_nil, fun _ => rfl⟩

section

variable (exact : Exact own debts l)
include exact

theorem Exact.congr {own' : κ → Nat} {debts' : List κ}
    (same : ∀ k, own k + debts.count k = own' k + debts'.count k) : Exact own' debts' l :=
  ⟨exact.nodup, fun k => (exact.exact k).trans (by rw [same k])⟩

theorem Exact.present (pos : 0 < own k + debts.count k + listed k l) : k ∈ ids l := by
  by_contra absent
  have zero := count_of_notMem absent
  have here := exact.exact k
  omega

theorem Exact.absent (absent : k ∉ ids l) : own k = 0 ∧ debts.count k = 0 ∧ listed k l = 0 := by
  have here := exact.exact k
  rw [count_of_notMem absent] at here
  omega

omit exact in
theorem count_acquire (present : k ∈ ids l) : count j (acquire k l) = count j l + if j = k then 1 else 0 := by
  obtain ⟨n, found⟩ := isSome_iff_exists.mp (find_isSome.mpr present)
  by_cases same : j = k
  · have more : count k (acquire k l) = n.refcount + 1 := count_alter_self (fun _ => rfl) found
    rw [same, more, count_of_find found, if_pos rfl]
  · have still : count j (acquire k l) = count j l := count_alter_of_ne same fun _ => rfl
    rw [still, if_neg same, Nat.add_zero]

theorem Exact.acquire (present : k ∈ ids l) : Exact own (k :: debts) (acquire k l) := by
  constructor
  · rw [ids_acquire]
    exact exact.nodup
  · intro j
    rw [listed_acquire, count_acquire present, exact.exact j]
    by_cases same : j = k
    · rw [same, if_pos rfl, count_cons_self]
      omega
    · rw [if_neg same, count_cons_of_ne (fun h => same h.symm), Nat.add_zero]

end

theorem ids_acquireAll : ids (ks.foldl (fun l k => Counted.acquire k l) l) = ids l := by
  induction ks generalizing l with
  | nil => rfl
  | cons k ks ih => exact ih.trans ids_acquire

theorem count_acquireAll (present : ∀ k ∈ ks, k ∈ ids l) :
    count j (ks.foldl (fun l k => acquire k l) l) = count j l + ks.count j := by
  induction ks generalizing l with
  | nil => rfl
  | cons k ks ih =>
    have others : ∀ k' ∈ ks, k' ∈ ids (acquire k l) := fun k' inside => by
      rw [ids_acquire]
      exact present k' (mem_cons_of_mem _ inside)
    have rest := ih others
    rw [foldl_cons, rest, count_acquire (present k mem_cons_self), count_cons]
    simp only [beq_iff_eq, eq_comm (a := k)]
    omega

theorem Exact.acquireAll (exact : Exact own debts l) (present : ∀ k ∈ ks, k ∈ ids l) :
    Exact own (ks ++ debts) (ks.foldl (fun l k => Counted.acquire k l) l) := by
  induction ks generalizing l debts with
  | nil => exact exact
  | cons k ks ih =>
    have first := exact.acquire (present k mem_cons_self)
    have rest := ih first fun k' inside => by
      rw [ids_acquire]
      exact present k' (mem_cons_of_mem _ inside)
    refine rest.congr fun j => ?_
    simp only [count_append, count_cons]
    omega

/-- A node is new; its dependencies have been acquired for it, and `held` references of it are there. -/
theorem Exact.push (exact : Exact own (n.deps ++ debts) l) (absent : n.id ∉ ids l) (none : n.refcount = 0) :
    Exact own debts (l ++ [n]) := by
  obtain ⟨unowned, undue, unlisted⟩ := exact.absent absent
  constructor
  · rw [ids, map_append]
    refine nodup_append.mpr ⟨exact.nodup, by simp, fun a inside b last => ?_⟩
    rw [mem_singleton.mp last]
    exact fun same => absent (same ▸ inside)
  · intro j
    rw [count_append_singleton, listed_append]
    have alone : listed j [n] = n.deps.count j := by simp [listed]
    have here := exact.exact j
    rw [count_append] at here
    split
    next => omega
    next missing =>
      rw [count_of_notMem missing] at here
      split
      next => omega
      next => omega

theorem Exact.remove (exact : Exact own (k :: debts) l) (found : find k l = some n) (last : n.refcount - 1 = 0) :
    Exact own (n.deps ++ debts) (remove k l) := by
  have self := exact.exact k
  rw [count_of_find found, count_cons_self, listed_remove found] at self
  constructor
  · rw [ids_remove]
    exact exact.nodup.erase k
  · intro j
    rw [count_append]
    by_cases same : j = k
    · rw [same, count_remove_self exact.nodup]
      omega
    · rw [count_remove_of_ne same, exact.exact j, count_cons_of_ne (fun h => same h.symm), listed_remove found]
      omega

theorem Exact.decrease (exact : Exact own (k :: debts) l) (found : find k l = some n) :
    Exact own debts (decrease k l) := by
  constructor
  · rw [ids_decrease]
    exact exact.nodup
  · intro j
    rw [listed_decrease]
    by_cases same : j = k
    · have self := exact.exact k
      rw [count_of_find found, count_cons_self] at self
      have less : count k (Counted.decrease k l) = n.refcount - 1 := count_alter_self (fun _ => rfl) found
      rw [same]
      omega
    · have still : count j (Counted.decrease k l) = count j l := count_alter_of_ne same fun _ => rfl
      rw [still, exact.exact j, count_cons_of_ne (fun h => same h.symm)]

theorem mem_alter {f : Counted κ α → Counted κ α} (inside : n ∈ alter k f l) : ∃ m ∈ l, n = m ∨ n = f m := by
  induction l with
  | nil => cases inside
  | cons first l ih =>
    rw [alter] at inside
    split at inside
    · rcases mem_cons.mp inside with rfl | rest
      · exact ⟨first, mem_cons_self, .inr rfl⟩
      · exact ⟨n, mem_cons_of_mem _ rest, .inl rfl⟩
    · rcases mem_cons.mp inside with rfl | rest
      · exact ⟨n, mem_cons_self, .inl rfl⟩
      · obtain ⟨m, mem, same⟩ := ih rest
        exact ⟨m, mem_cons_of_mem _ mem, same⟩

theorem Acyclic.decrease (acyclic : Acyclic rank l) : Acyclic rank (Counted.decrease k l) := fun n inside => by
  obtain ⟨m, mem, rfl | rfl⟩ := mem_alter inside
  · exact acyclic n mem
  · exact acyclic m mem

theorem Acyclic.remove (acyclic : Acyclic rank l) : Acyclic rank (Counted.remove k l) := fun n inside =>
  acyclic n (sublist_remove.subset inside)

/-- What giving back one reference does to a relation between the list and the debts, giving back many does. -/
theorem foldl_releaseWith {close : Counted κ α → σ → σ} {P : List κ → List (Counted κ α) × σ → Prop} {ds : List κ}
    (rest : List κ)
    (one : ∀ d rest p, d ∈ ds → P (d :: rest) p → P rest (releaseWith close fuel d p)) {p : List (Counted κ α) × σ}
    (here : P (ds ++ rest) p) : P rest (ds.foldl (fun p d => releaseWith close fuel d p) p) := by
  induction ds generalizing p with
  | nil => exact here
  | cons d ds ih =>
    exact ih (fun d' rest p inside => one d' rest p (mem_cons_of_mem _ inside)) (one d _ p mem_cons_self here)

/-- What there is of `l` is counted exactly, no count is zero, and the nodes are acyclic. -/
structure Sound (rank : κ → Nat) (own : κ → Nat) (debts : List κ) (l : List (Counted κ α)) : Prop where
  exact : Exact own debts l
  positive : ∀ k ∈ ids l, 0 < count k l
  acyclic : Acyclic rank l

section

variable (sound : Sound rank own (k :: debts) l)
include sound

theorem Sound.remove (found : find k l = some n) (last : n.refcount - 1 = 0) :
    Sound rank own (n.deps ++ debts) (remove k l) where
  exact := sound.exact.remove found last
  positive j inside := by
    rw [ids_remove] at inside
    have other : j ≠ k := fun same => sound.exact.nodup.not_mem_erase (same ▸ inside)
    rw [count_remove_of_ne other]
    exact sound.positive j (mem_of_mem_erase inside)
  acyclic := sound.acyclic.remove

theorem Sound.decrease (found : find k l = some n) (more : n.refcount - 1 ≠ 0) :
    Sound rank own debts (decrease k l) where
  exact := sound.exact.decrease found
  positive j inside := by
    rw [ids_decrease] at inside
    by_cases same : j = k
    · have less : count k (Counted.decrease k l) = n.refcount - 1 := count_alter_self (fun _ => rfl) found
      rw [same]
      omega
    · have still : count j (Counted.decrease k l) = count j l := count_alter_of_ne same fun _ => rfl
      rw [still]
      exact sound.positive j inside
  acyclic := sound.acyclic.decrease

theorem Sound.exists_of_debt : ∃ n, find k l = some n :=
  isSome_iff_exists.mp (find_isSome.mpr (sound.exact.present (by rw [count_cons_self]; omega)))

theorem Sound.releaseWith {close : Counted κ α → σ → σ} {s : σ}
    (enough : rank k < fuel) : Sound rank own debts (releaseWith close fuel k (l, s)).1 := by
  induction fuel generalizing k debts l s with
  | zero => omega
  | succ fuel ih =>
    obtain ⟨n, found⟩ := sound.exists_of_debt
    rw [Counted.releaseWith, found]
    dsimp only
    split
    next last =>
      have lower : ∀ d ∈ n.deps, rank d < rank k :=
        fun d inside => find_id found ▸ sound.acyclic n (find_mem found) d inside
      refine foldl_releaseWith (P := fun debts p => Sound rank own debts p.1) debts (fun d rest p inside here => ?_)
        (sound.remove found last)
      exact ih here (by have := lower d inside; omega)
    next more => exact sound.decrease found more

end

/-- What the counts depend on. -/
def frame (n : Counted κ α) : κ × Nat × List κ := (n.id, n.refcount, n.deps)

theorem map_frame_alter {f : Counted κ α → Counted κ α} (same : ∀ n, frame (f n) = frame n) :
    (alter k f l).map frame = l.map frame := by
  induction l with
  | nil => rfl
  | cons n l ih =>
    rw [alter]
    split
    · exact congrArg (· :: l.map frame) (same n)
    · exact congrArg (frame n :: ·) ih

theorem map_frame_congr {f g : Counted κ α → Counted κ α} (same : ∀ n, frame (f n) = frame (g n)) :
    (alter k f l).map frame = (alter k g l).map frame := by
  induction l with
  | nil => rfl
  | cons n l ih =>
    rw [alter, alter]
    split
    · exact congrArg (· :: l.map frame) (same n)
    · exact congrArg (frame n :: ·) ih

theorem of_map_frame {β : Type*} {m : List (Counted κ β)} (same : l.map frame = m.map frame) :
    ids l = ids m ∧ (∀ k, count k l = count k m) ∧ ∀ k, listed k l = listed k m := by
  induction l generalizing m with
  | nil =>
    obtain rfl : m = [] := map_eq_nil_iff.mp same.symm
    exact ⟨rfl, fun _ => rfl, fun _ => rfl⟩
  | cons n l ih =>
    cases m with
    | nil => cases same
    | cons n' m =>
      obtain ⟨head, tail⟩ := cons.inj same
      obtain ⟨sameIds, sameCount, sameListed⟩ := ih tail
      have first : n.id = n'.id := congrArg Prod.fst head
      have second : n.refcount = n'.refcount := congrArg (fun p => p.2.1) head
      have third : n.deps = n'.deps := congrArg (fun p => p.2.2) head
      refine ⟨?_, fun k => ?_, fun k => ?_⟩
      · show n.id :: ids l = n'.id :: ids m
        rw [first, sameIds]
      · rw [count, count, first, second, sameCount]
      · rw [listed_cons, listed_cons, third, sameListed]

theorem Exact.of_frame {β : Type*} {m : List (Counted κ β)} (exact : Exact own debts l)
    (same : l.map frame = m.map frame) :
    Exact own debts m := by
  obtain ⟨sameIds, sameCount, sameListed⟩ := of_map_frame same
  exact ⟨sameIds ▸ exact.nodup, fun k => by rw [← sameCount, ← sameListed]; exact exact.exact k⟩

omit [DecidableEq κ] in
theorem Acyclic.of_frame {β : Type*} {m : List (Counted κ β)} (acyclic : Acyclic rank l)
    (same : l.map frame = m.map frame) :
    Acyclic rank m := by
  intro n inside d mem
  have framed : frame n ∈ l.map frame := same ▸ mem_map_of_mem inside
  obtain ⟨n', inside', equal⟩ := mem_map.mp framed
  have first : n'.id = n.id := congrArg Prod.fst equal
  have third : n'.deps = n.deps := congrArg (fun p => p.2.2) equal
  exact first ▸ acyclic n' inside' d (third ▸ mem)

theorem Sound.of_frame {β : Type*} {m : List (Counted κ β)} (sound : Sound rank own debts l)
    (same : l.map frame = m.map frame) :
    Sound rank own debts m := by
  obtain ⟨sameIds, sameCount, -⟩ := of_map_frame same
  exact ⟨sound.exact.of_frame same, fun k inside => by rw [← sameCount]; exact sound.positive k (sameIds ▸ inside),
    sound.acyclic.of_frame same⟩

theorem Sound.congr {own' : κ → Nat} {debts' : List κ} (sound : Sound rank own debts l)
    (same : ∀ k, own k + debts.count k = own' k + debts'.count k) : Sound rank own' debts' l :=
  ⟨sound.exact.congr same, sound.positive, sound.acyclic⟩

theorem Acyclic.acquire (acyclic : Acyclic rank l) : Acyclic rank (Counted.acquire k l) := fun n inside => by
  obtain ⟨m, mem, rfl | rfl⟩ := mem_alter inside
  · exact acyclic n mem
  · exact acyclic m mem

theorem Acyclic.acquireAll (acyclic : Acyclic rank l) :
    Acyclic rank (ks.foldl (fun l k => Counted.acquire k l) l) := by
  induction ks generalizing l with
  | nil => exact acyclic
  | cons k ks ih => exact ih acyclic.acquire

theorem listed_acquireAll : listed j (ks.foldl (fun l k => Counted.acquire k l) l) = listed j l := by
  induction ks generalizing l with
  | nil => rfl
  | cons k ks ih => exact ih.trans listed_acquire

omit [DecidableEq κ] in
theorem Acyclic.push (acyclic : Acyclic rank l) (lower : ∀ d ∈ n.deps, rank d < rank n.id) :
    Acyclic rank (l ++ [n]) :=
  fun m inside => (mem_append.mp inside).elim (acyclic m) fun last => mem_singleton.mp last ▸ lower

theorem Exact.positive_iff (exact : Exact own debts l) : (∀ k ∈ ids l, 0 < count k l) ↔
    ∀ k ∈ ids l, 0 < own k + debts.count k + listed k l :=
  forall₂_congr fun k _ => by rw [exact.exact k]

end

section

variable {l : List (Counted κ α)} {n : Counted κ α} {j k c : κ} {rank : κ → Nat} {fuel : Nat}
    {close : Counted κ α → σ → σ} {s : σ}

theorem find_remove_of_ne (other : j ≠ c) : find j (remove c l) = find j l := by
  induction l with
  | nil => rfl
  | cons n l ih =>
    rw [remove]
    split
    next here => rw [find_cons, if_neg fun same : n.id = j => other (same.symm.trans here)]
    next => rw [find_cons, find_cons, ih]

theorem find_alter_of_ne {f : Counted κ α → Counted κ α} (same : ∀ n, (f n).id = n.id) (other : j ≠ c) :
    find j (alter c f l) = find j l := by
  induction l with
  | nil => rfl
  | cons n l ih =>
    rw [alter]
    split
    next here =>
      have ne : ¬ n.id = j := fun same => other (same.symm.trans here)
      rw [find_cons, find_cons, if_neg ne, if_neg ((same n).symm ▸ ne)]
    next => rw [find_cons, find_cons, ih]

theorem remove_alter_self {f : Counted κ α → Counted κ α} (same : ∀ n, (f n).id = n.id) :
    remove c (alter c f l) = remove c l := by
  induction l with
  | nil => rfl
  | cons n l ih =>
    by_cases here : n.id = c
    · rw [alter, if_pos here, remove, if_pos ((same n).trans here), remove, if_pos here]
    · rw [alter, if_neg here, remove, if_neg here, remove, if_neg here, ih]

theorem remove_alter_of_ne {f : Counted κ α → Counted κ α} (same : ∀ n, (f n).id = n.id) (other : j ≠ c) :
    remove c (alter j f l) = alter j f (remove c l) := by
  induction l with
  | nil => rfl
  | cons n l ih =>
    by_cases here : n.id = c
    · have ne : ¬ n.id = j := fun same => other (same.symm.trans here)
      rw [alter, if_neg ne, remove, if_pos here, remove, if_pos here]
    · by_cases there : n.id = j
      · rw [alter, if_pos there, remove, if_neg (by rw [same]; exact here), remove, if_neg here, alter, if_pos there]
      · rw [alter, if_neg there, remove, if_neg here, remove, if_neg here, alter, if_neg there, ih]

theorem remove_decrease_self : remove c (decrease c l) = remove c l := remove_alter_self fun _ => rfl

theorem remove_decrease_of_ne (other : j ≠ c) : remove c (decrease j l) = decrease j (remove c l) :=
  remove_alter_of_ne (fun _ => rfl) other

theorem remove_remove (other : j ≠ c) : remove c (remove j l) = remove j (remove c l) := by
  induction l with
  | nil => rfl
  | cons n l ih =>
    by_cases here : n.id = c
    · have ne : ¬ n.id = j := fun same => other (same.symm.trans here)
      rw [remove, if_neg ne, remove, if_pos here, remove, if_pos here]
    · by_cases there : n.id = j
      · rw [remove, if_pos there, remove, if_neg here, remove, if_pos there]
      · rw [remove, if_neg there, remove, if_neg here, remove, if_neg here, remove, if_neg there, ih]

variable (acyclic : Acyclic rank l)
include acyclic

theorem releaseWith_remove (lower : rank k < rank c) :
    releaseWith close fuel k (remove c l, s) = (remove c (releaseWith close fuel k (l, s)).1,
      (releaseWith close fuel k (l, s)).2) ∧
      Acyclic rank (releaseWith close fuel k (l, s)).1 := by
  induction fuel generalizing k l s with
  | zero => exact ⟨rfl, acyclic⟩
  | succ fuel ih =>
    have other : k ≠ c := fun same => absurd lower (same ▸ lt_irrefl _)
    simp only [releaseWith, find_remove_of_ne other]
    cases found : find k l with
    | none => exact ⟨rfl, acyclic⟩
    | some n =>
      dsimp only
      split
      · have below : ∀ d ∈ n.deps, rank d < rank c := fun d inside =>
          (acyclic n (find_mem found) d inside).trans (find_id found ▸ lower)
        have all : ∀ ds : List κ, (∀ d ∈ ds, rank d < rank c) → ∀ p : List (Counted κ α) × σ, Acyclic rank p.1 →
            ds.foldl (fun p d => releaseWith close fuel d p) (remove c p.1, p.2) =
              (remove c (ds.foldl (fun p d => releaseWith close fuel d p) p).1,
                (ds.foldl (fun p d => releaseWith close fuel d p) p).2) ∧
            Acyclic rank (ds.foldl (fun p d => releaseWith close fuel d p) p).1 := by
          intro ds
          induction ds with
          | nil => exact fun _ p acyclic => ⟨rfl, acyclic⟩
          | cons d ds rest =>
            intro below p acyclic
            obtain ⟨first, kept⟩ := ih (s := p.2) acyclic (below d mem_cons_self)
            rw [foldl_cons, first]
            exact rest (fun d' inside => below d' (mem_cons_of_mem _ inside)) _ kept
        obtain ⟨same, kept⟩ := all n.deps below (remove k l, s) acyclic.remove
        rw [remove_remove other.symm, same]
        exact ⟨rfl, kept⟩
      next => exact ⟨congrArg (·, s) (remove_decrease_of_ne other).symm, acyclic.decrease⟩

theorem find_releaseWith (lower : rank k < rank c) : find c (releaseWith close fuel k (l, s)).1 = find c l := by
  induction fuel generalizing k l s with
  | zero => rfl
  | succ fuel ih =>
    have other : c ≠ k := fun same => absurd lower (same ▸ lt_irrefl _)
    rw [releaseWith]
    cases found : find k l with
    | none => rfl
    | some n =>
      dsimp only
      split
      next =>
        have below : ∀ d ∈ n.deps, rank d < rank c := fun d inside =>
          (acyclic n (find_mem found) d inside).trans (find_id found ▸ lower)
        have all : ∀ ds : List κ, (∀ d ∈ ds, rank d < rank c) → ∀ p : List (Counted κ α) × σ, Acyclic rank p.1 →
            find c (ds.foldl (fun p d => releaseWith close fuel d p) p).1 = find c p.1 := by
          intro ds
          induction ds with
          | nil => exact fun _ _ _ => rfl
          | cons d ds rest =>
            intro below p acyclic
            have kept : Acyclic rank (releaseWith close fuel d p).1 :=
              (releaseWith_remove acyclic (below d mem_cons_self)).2
            rw [foldl_cons, rest (fun d' inside => below d' (mem_cons_of_mem _ inside)) _ kept]
            exact ih acyclic (below d mem_cons_self)
        exact (all n.deps below (remove k l, s) acyclic.remove).trans (find_remove_of_ne other)
      next => exact find_alter_of_ne (fun _ => rfl) other

theorem releaseLastWith_eq : releaseLastWith close fuel k (l, s) = releaseWith close fuel k (l, s) := by
  induction fuel generalizing k l s with
  | zero => rfl
  | succ fuel ih =>
    simp only [releaseLastWith, releaseWith]
    cases found : find k l with
    | none => rfl
    | some n =>
      dsimp only
      split
      · have below : ∀ d ∈ n.deps, rank d < rank k :=
          fun d inside => find_id found ▸ acyclic n (find_mem found) d inside
        have all : ∀ ds : List κ, (∀ d ∈ ds, rank d < rank k) → ∀ p : List (Counted κ α) × σ, Acyclic rank p.1 →
            (remove k (ds.foldl (fun p d => releaseLastWith close fuel d p) p).1,
              (ds.foldl (fun p d => releaseLastWith close fuel d p) p).2) =
            ds.foldl (fun p d => releaseWith close fuel d p) (remove k p.1, p.2) := by
          intro ds
          induction ds with
          | nil => exact fun _ _ _ => rfl
          | cons d ds rest =>
            intro below p acyclic
            obtain ⟨first, kept⟩ : releaseWith close fuel d (remove k p.1, p.2) = _ ∧ _ :=
              releaseWith_remove acyclic (below d mem_cons_self)
            rw [foldl_cons, foldl_cons, first, ih acyclic]
            exact rest (fun d' inside => below d' (mem_cons_of_mem _ inside)) _ kept
        have same := all n.deps below (decrease k l, s) acyclic.decrease
        rw [remove_decrease_self] at same
        rw [← same]
      next => rfl

end

section

variable {l gone : List (Counted κ α)} {n : Counted κ α} {j k : κ} {fuel : Nat} {close : Counted κ α → σ → σ} {s : σ}

/-- A node without its count. -/
def bare (n : Counted κ α) : Counted κ α := { n with refcount := 0 }

omit [DecidableEq κ] in
theorem eq_of_bare {m : Counted κ α} (same : bare m = bare n) : m.id = n.id ∧ m.deps = n.deps ∧
    m.value = n.value := by
  injection same with first _ third last
  exact ⟨first, third, last⟩

theorem map_bare_alter {f : Counted κ α → Counted κ α} (same : ∀ n, bare (f n) = bare n) :
    (alter k f l).map bare = l.map bare := by
  induction l with
  | nil => rfl
  | cons n l ih =>
    rw [alter]
    split
    · exact congrArg (· :: l.map bare) (same n)
    · exact congrArg (bare n :: ·) ih

theorem map_bare_decrease : (decrease k l).map bare = l.map bare := map_bare_alter fun _ => rfl

theorem map_bare_acquire : (acquire k l).map bare = l.map bare := map_bare_alter fun _ => rfl

theorem map_bare_acquireAll {ks : List κ} : (ks.foldl (fun l k => acquire k l) l).map bare = l.map bare := by
  induction ks generalizing l with
  | nil => rfl
  | cons k ks ih => exact ih.trans map_bare_acquire

section

omit [DecidableEq κ]

theorem exists_of_map_bare {m : List (Counted κ α)} (same : l.map bare = m.map bare) (inside : n ∈ l) :
    ∃ n' ∈ m, n'.id = n.id ∧ n'.deps = n.deps ∧ n'.value = n.value := by
  obtain ⟨n', inside', equal⟩ := mem_map.mp (same ▸ mem_map_of_mem inside)
  exact ⟨n', inside', eq_of_bare equal⟩

theorem pairwise_of_map_bare {m : List (Counted κ α)} (same : l.map bare = m.map bare)
    (order : l.Pairwise fun a b => b.id ∉ a.deps) :
    m.Pairwise fun a b => b.id ∉ a.deps := by
  have mapped : (l.map bare).Pairwise fun a b => b.id ∉ a.deps := pairwise_map.mpr order
  rw [same] at mapped
  exact pairwise_map.mp mapped

end

theorem map_bare_remove (found : find k l = some n) : (l.map bare).Perm (bare n :: (remove k l).map bare) := by
  induction l with
  | nil => cases found
  | cons first l ih =>
    rw [find_cons] at found
    rw [remove]
    split at found
    next here =>
      cases found
      rw [if_pos here]
      exact Perm.refl _
    next other =>
      rw [if_neg other]
      exact ((ih found).cons (bare first)).trans (Perm.swap ..)

/-- What a state makes of the nodes that go, it makes of them one after the other, each after those that go for
it. -/
theorem releaseWith_gone (close : Counted κ α → σ → σ) (fuel : Nat) (k : κ) (l start : List (Counted κ α)) (t : σ) :
    ∃ p : List (Counted κ α) × List (Counted κ α),
      releaseWith (fun n gone => gone ++ [n]) fuel k (l, start) = (p.1, start ++ p.2) ∧
      releaseWith close fuel k (l, t) = (p.1, p.2.foldl (fun s n => close n s) t) ∧
      (l.map bare).Perm (p.1.map bare ++ p.2.map bare) := by
  induction fuel generalizing k l start t with
  | zero => exact ⟨(l, []), by simp [releaseWith], rfl, by simp⟩
  | succ fuel ih =>
    simp only [releaseWith]
    cases found : find k l with
    | none => exact ⟨(l, []), by simp, rfl, by simp⟩
    | some n =>
      dsimp only
      split
      next =>
        have all : ∀ ds : List κ, ∀ l start t, ∃ p : List (Counted κ α) × List (Counted κ α),
            ds.foldl (fun p d => releaseWith (fun n gone => gone ++ [n]) fuel d p) (l, start) = (p.1, start ++ p.2) ∧
            ds.foldl (fun p d => releaseWith close fuel d p) (l, t) = (p.1, p.2.foldl (fun s n => close n s) t) ∧
            (l.map bare).Perm (p.1.map bare ++ p.2.map bare) := by
          intro ds
          induction ds with
          | nil => exact fun l start t => ⟨(l, []), by simp, rfl, by simp⟩
          | cons d ds rest =>
            intro l start t
            obtain ⟨p, first, second, third⟩ := ih d l start t
            obtain ⟨q, first', second', third'⟩ := rest p.1 (start ++ p.2) (p.2.foldl (fun s n => close n s) t)
            refine ⟨(q.1, p.2 ++ q.2), ?_, ?_, ?_⟩
            · rw [foldl_cons, first, first', append_assoc]
            · rw [foldl_cons, second, second', foldl_append]
            · refine third.trans ((third'.append_right _).trans ?_)
              rw [map_append, append_assoc]
              exact perm_append_comm.append_left _
        obtain ⟨p, first, second, third⟩ := all n.deps (remove k l) start t
        refine ⟨(p.1, p.2 ++ [n]), ?_, ?_, ?_⟩
        · rw [first, append_assoc]
        · rw [second, foldl_append]
          rfl
        · refine (map_bare_remove found).trans ((third.cons _).trans ?_)
          rw [map_append, ← append_assoc]
          exact (perm_append_singleton _ _).symm
      next =>
        refine ⟨(decrease k l, []), by simp, rfl, ?_⟩
        rw [map_bare_decrease]
        simp

theorem sublist_releaseWith : ((releaseWith close fuel k (l, s)).1.map bare).Sublist (l.map bare) := by
  induction fuel generalizing k l s with
  | zero => exact Sublist.refl _
  | succ fuel ih =>
    rw [releaseWith]
    cases found : find k l with
    | none => exact Sublist.refl _
    | some n =>
      dsimp only
      split
      next =>
        have all : ∀ (ds : List κ) (p : List (Counted κ α) × σ),
            ((ds.foldl (fun p d => releaseWith close fuel d p) p).1.map bare).Sublist (p.1.map bare) := by
          intro ds
          induction ds with
          | nil => exact fun _ => Sublist.refl _
          | cons d ds rest => exact fun p => (rest _).trans ih
        exact (all n.deps (remove k l, s)).trans (sublist_remove.map bare)
      next =>
        rw [map_bare_decrease]

theorem notMem_releaseWith (nodup : (ids l).Nodup) (found : find k l = some n) (last : n.refcount - 1 = 0) :
    k ∉ ids (releaseWith close (fuel + 1) k (l, s)).1 := by
  rw [releaseWith, found]
  dsimp only
  rw [if_pos last]
  refine foldl_releaseWith (P := fun _ p => k ∉ ids p.1) [] (fun d _ p _ absent inside => ?_) ?_
  · have fewer : (ids (releaseWith close fuel d p).1).Sublist (ids p.1) := by
      have smaller : ((releaseWith close fuel d (p.1, p.2)).1.map bare).Sublist (p.1.map bare) := sublist_releaseWith
      have mapped := smaller.map Counted.id
      rwa [List.map_map, List.map_map] at mapped
    exact absent (fewer.subset inside)
  · rw [ids_remove]
    exact nodup.not_mem_erase

end

section

variable {l m : List (Counted κ α)} {n : Counted κ α} {j k : κ} {f : Counted κ α → Counted κ α}

/-- The value of a node. -/
def valueOf (k : κ) (l : List (Counted κ α)) : Option α := (find k l).map Counted.value

theorem valueOf_cons : valueOf k (n :: l) = if n.id = k then some n.value else valueOf k l := by
  rw [valueOf, find_cons]
  split <;> rfl

theorem valueOf_isSome : (valueOf k l).isSome ↔ k ∈ ids l := by rw [valueOf, isSome_map, find_isSome]

theorem valueOf_eq_none : valueOf k l = none ↔ k ∉ ids l := by
  rw [← valueOf_isSome, not_isSome_iff_eq_none]

theorem valueOf_of_mem (nodup : (ids l).Nodup) (inside : n ∈ l) : valueOf n.id l = some n.value := by
  induction l with
  | nil => cases inside
  | cons first l ih =>
    obtain ⟨absent, rest⟩ := nodup_cons.mp nodup
    rw [valueOf_cons]
    rcases mem_cons.mp inside with rfl | later
    · exact if_pos rfl
    · have other : first.id ≠ n.id := fun same => absent (same ▸ mem_map_of_mem later)
      rw [if_neg other]
      exact ih rest later

theorem exists_of_valueOf {a : α} (found : valueOf k l = some a) : ∃ n ∈ l, n.id = k ∧ n.value = a := by
  obtain ⟨n, here, same⟩ := map_eq_some_iff.mp found
  exact ⟨n, find_mem here, find_id here, same⟩

theorem valueOf_of_sublist {l' : List (Counted κ α)} {a : α} (nodup : (ids l).Nodup)
    (fewer : (l'.map bare).Sublist (l.map bare))
    (found : valueOf k l' = some a) : valueOf k l = some a := by
  obtain ⟨n', inside', rfl, rfl⟩ := exists_of_valueOf found
  obtain ⟨n, inside, same⟩ := mem_map.mp (fewer.subset (mem_map_of_mem inside'))
  obtain ⟨sameId, -, sameValue⟩ := eq_of_bare same
  rw [← sameId, ← sameValue]
  exact valueOf_of_mem nodup inside

theorem valueOf_of_map_bare (same : l.map bare = m.map bare) : valueOf k l = valueOf k m := by
  induction l generalizing m with
  | nil =>
    obtain rfl : m = [] := map_eq_nil_iff.mp same.symm
    rfl
  | cons n l ih =>
    cases m with
    | nil => cases same
    | cons n' m =>
      obtain ⟨head, tail⟩ := cons.inj same
      obtain ⟨sameId, -, sameValue⟩ := eq_of_bare head
      rw [valueOf_cons, valueOf_cons, sameId, sameValue, ih tail]

theorem valueOf_acquire : valueOf k (acquire j l) = valueOf k l := valueOf_of_map_bare map_bare_acquire

theorem valueOf_acquireAll {ks : List κ} : valueOf k (ks.foldl (fun l j => acquire j l) l) = valueOf k l :=
  valueOf_of_map_bare map_bare_acquireAll

theorem valueOf_push : valueOf k (l ++ [n]) = (valueOf k l).or (if n.id = k then some n.value else none) := by
  induction l with
  | nil => exact valueOf_cons
  | cons first l ih =>
    rw [cons_append, valueOf_cons, ih, valueOf_cons]
    split <;> rfl

theorem valueOf_alter {g : α → α} (sameId : ∀ n, (f n).id = n.id) (sameValue : ∀ n, (f n).value = g n.value) :
    valueOf k (alter j f l) = if k = j then (valueOf k l).map g else valueOf k l := by
  induction l with
  | nil => split <;> rfl
  | cons first l ih =>
    rw [alter]
    by_cases here : first.id = j
    · rw [if_pos here, valueOf_cons, valueOf_cons, sameId, sameValue, here]
      by_cases same : k = j
      · rw [if_pos same, if_pos same.symm, if_pos same.symm, map_some]
      · rw [if_neg same, if_neg fun h => same h.symm, if_neg fun h => same h.symm]
    · rw [if_neg here, valueOf_cons, valueOf_cons, ih]
      by_cases same : k = j
      · subst same
        rw [if_neg here, if_neg here]
      · rw [if_neg same, if_neg same]

end

end Counted
