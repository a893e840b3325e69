import Dce.Keys.Model

/- What the calls do to the keys and the values of one list. -/

namespace Dce.Keys

open List

variable {l : List ThreadKeyValue} {e : ThreadKeyValue} {key key' v node : Nat}

theorem isKeyValid_iff : isKeyValid l key = true ↔ ∃ e ∈ l, e.key = key := by simp [isKeyValid]

theorem isKeyValid_cons : isKeyValid (e :: l) key = (decide (e.key = key) || isKeyValid l key) := rfl

theorem getValue_cons : getValue (e :: l) key = if e.key = key then e.value else getValue l key := by
  unfold getValue
  by_cases same : e.key = key
  · simp [same]
  · simp [same]

theorem getValue_of_invalid (invalid : isKeyValid l key = false) : getValue l key = 0 := by
  induction l with
  | nil => rfl
  | cons e l ih =>
    obtain ⟨ne, rest⟩ := Bool.or_eq_false_iff.mp invalid
    rw [getValue_cons, if_neg (of_decide_eq_false ne)]
    exact ih rest

theorem getValue_of_mem (distinct : (l.map ThreadKeyValue.key).Nodup)
    (mem : e ∈ l) : getValue l e.key = e.value := by
  induction l with
  | nil => cases mem
  | cons first l ih =>
    rw [map_cons, nodup_cons] at distinct
    rw [getValue_cons]
    rcases mem_cons.mp mem with rfl | mem
    · rw [if_pos rfl]
    · rw [if_neg fun same => distinct.1 (mem_map.mpr ⟨e, mem, same.symm⟩)]
      exact ih distinct.2 mem

theorem freeKey_invalid {tmp n : Nat} (free : freeKey l tmp n = some key) : isKeyValid l key = false := by
  induction n generalizing tmp with
  | zero => cases free
  | succ n ih =>
    simp only [freeKey] at free
    split at free
    next => exact ih free
    next unused => exact Option.some.inj free ▸ (by simpa using unused)

section

variable {node destructor : Nat}

theorem isKeyValid_push : isKeyValid (l ++ [⟨node, key', destructor, 0⟩]) key =
    (isKeyValid l key || decide (key' = key)) := by
  simp [isKeyValid]

theorem getValue_push : getValue (l ++ [⟨node, key', destructor, 0⟩]) key = getValue l key := by
  induction l with
  | nil => rw [nil_append, getValue_cons]; split <;> rfl
  | cons e l ih => rw [cons_append, getValue_cons, getValue_cons, ih]

end

section

variable (distinct : (l.map ThreadKeyValue.key).Nodup)
include distinct

theorem isKeyValid_eraseP : isKeyValid (l.eraseP fun e => e.key = key') key =
    (isKeyValid l key && decide (key ≠ key')) := by
  induction l with
  | nil => rfl
  | cons e l ih =>
    rw [map_cons, nodup_cons] at distinct
    by_cases mine : e.key = key'
    · rw [eraseP_cons_of_pos (by simpa using mine), isKeyValid_cons]
      by_cases same : key = key'
      · subst same
        have gone : isKeyValid l key = false := by
          by_contra still
          obtain ⟨other, mem, again⟩ := isKeyValid_iff.mp (eq_true_of_ne_false still)
          exact distinct.1 (mem_map.mpr ⟨other, mem, by rw [again, mine]⟩)
        simp [gone]
      · simp [mine, Ne.symm same, same]
    · rw [eraseP_cons_of_neg (by simpa using mine), isKeyValid_cons, isKeyValid_cons, ih distinct.2]
      by_cases here : e.key = key
      · simp [here ▸ mine]
      · simp [here]

theorem getValue_eraseP : getValue (l.eraseP fun e => e.key = key') key = if key = key' then 0
    else getValue l key := by
  by_cases same : key = key'
  · rw [if_pos same]
    exact getValue_of_invalid (by simp [isKeyValid_eraseP distinct, same])
  · rw [if_neg same]
    clear distinct
    induction l with
    | nil => rfl
    | cons e l ih =>
      by_cases mine : e.key = key'
      · rw [eraseP_cons_of_pos (by simpa using mine), getValue_cons, if_neg fun here => same (here.symm.trans mine)]
      · rw [eraseP_cons_of_neg (by simpa using mine), getValue_cons, getValue_cons, ih]

end

theorem setValue_keys : (setValue key v l).map ThreadKeyValue.key = l.map ThreadKeyValue.key := by
  induction l with
  | nil => rfl
  | cons e l ih =>
    simp only [setValue]
    split
    · rfl
    · rw [map_cons, map_cons, ih]

theorem setValue_nodes : (setValue key v l).map ThreadKeyValue.node = l.map ThreadKeyValue.node := by
  induction l with
  | nil => rfl
  | cons e l ih =>
    simp only [setValue]
    split
    · rfl
    · rw [map_cons, map_cons, ih]

theorem isKeyValid_keys {l' : List ThreadKeyValue} (same : l'.map ThreadKeyValue.key = l.map ThreadKeyValue.key) :
    isKeyValid l' key = isKeyValid l key := by
  have by_keys : ∀ l : List ThreadKeyValue, isKeyValid l key = (l.map ThreadKeyValue.key).any fun k =>
    k = key := fun l => by
    simp [isKeyValid, Function.comp_def]
  rw [by_keys, by_keys, same]

theorem getValue_setValue (valid : isKeyValid l key' = true) :
    getValue (setValue key' v l) key = if key = key' then v else getValue l key := by
  induction l with
  | nil => cases valid
  | cons e l ih =>
    simp only [setValue]
    by_cases mine : e.key = key'
    · rw [if_pos mine, getValue_cons, getValue_cons, mine]
      by_cases same : key = key'
      · simp [same]
      · simp [same, Ne.symm same]
    · rw [isKeyValid_cons, decide_eq_false mine] at valid
      rw [if_neg mine, getValue_cons, getValue_cons, ih valid]
      by_cases same : key = key'
      · simp [same, mine]
      · simp [same]

theorem getValue_reset : getValue (l.map fun e => { e with value := 0 }) key = 0 := by
  induction l with
  | nil => rfl
  | cons e l ih => rw [map_cons, getValue_cons, ih, ite_self]

theorem resetNode_keys : (resetNode l node).map ThreadKeyValue.key = l.map ThreadKeyValue.key := by
  rw [resetNode, map_map]
  refine map_congr_left fun e _ => ?_
  simp only [Function.comp_apply]
  split <;> rfl

theorem resetNode_nodes : (resetNode l node).map ThreadKeyValue.node = l.map ThreadKeyValue.node := by
  rw [resetNode, map_map]
  refine map_congr_left fun e _ => ?_
  simp only [Function.comp_apply]
  split <;> rfl

theorem getValue_resetNode (distinct : (l.map ThreadKeyValue.key).Nodup) (nodes : (l.map ThreadKeyValue.node).Nodup)
    (mem : e ∈ l) : getValue (resetNode l e.node) key = if key = e.key then 0 else getValue l key := by
  induction l with
  | nil => cases mem
  | cons first l ih =>
    rw [map_cons, nodup_cons] at distinct nodes
    rw [resetNode, map_cons]
    by_cases mine : first.node = e.node
    · obtain rfl : e = first := by
        rcases mem_cons.mp mem with same | inside
        · exact same
        · exact absurd (mem_map.mpr ⟨e, inside, mine.symm⟩) nodes.1
      have others : (l.map fun x => if x.node = e.node then { x with value := 0 } else x) = l := by
        refine map_congr_left (g := id) (fun x inside => ?_) |>.trans (map_id l)
        exact if_neg fun same => nodes.1 (mem_map.mpr ⟨x, inside, same⟩)
      rw [others, getValue_cons, getValue_cons]
      by_cases same : key = e.key
      · simp [same]
      · simp [same, Ne.symm same]
    · have inside : e ∈ l := by
        rcases mem_cons.mp mem with same | inside
        · exact absurd (same ▸ rfl) mine
        · exact inside
      have rest := ih distinct.2 nodes.2 inside
      rw [resetNode] at rest
      rw [if_neg mine, getValue_cons, getValue_cons, rest]
      by_cases here : first.key = key
      · have ne : key ≠ e.key := fun same => distinct.1 (mem_map.mpr ⟨e, inside, (here.trans same).symm⟩)
        simp [ne]
      · simp [here]

theorem afterNode_subset : ∀ e ∈ afterNode node l, e ∈ l := by
  induction l with
  | nil => exact fun e => id
  | cons first l ih =>
    intro e mem
    simp only [afterNode] at mem
    split at mem
    next => exact mem_cons_of_mem _ mem
    next => exact mem_cons_of_mem _ (ih e mem)

end Dce.Keys
