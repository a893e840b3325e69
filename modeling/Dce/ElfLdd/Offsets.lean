import Dce.ElfLdd.Model

/- An address is translated with the first segment that begins below it. -/

namespace Dce.ElfLdd

variable {w : Nat} {table : List (Phdr w)} {s first : Phdr w} {vma : BitVec w}

def Phdr.Loaded (s : Phdr w) : Prop := s.p_type = .PT_LOAD

instance (s : Phdr w) : Decidable s.Loaded := inferInstanceAs (Decidable (_ = _))

/-- The address is one of the segment. -/
structure Inside (s : Phdr w) (vma : BitVec w) : Prop where
  loaded : s.Loaded
  above : s.p_vaddr.toNat ≤ vma.toNat
  below : vma.toNat < s.p_vaddr.toNat + s.p_memsz.toNat

def loads (table : List (Phdr w)) : List (Phdr w) := table.filter fun s => s.Loaded

/-- The segments follow each other, and no address is in two of them. -/
def Ascending (table : List (Phdr w)) : Prop :=
  (loads table).Pairwise fun s s' => s.p_vaddr.toNat + s.p_memsz.toNat ≤ s'.p_vaddr.toNat

instance (table : List (Phdr w)) : Decidable (Ascending table) := inferInstanceAs (Decidable (List.Pairwise _ _))

/-- Where the segment is in the file, taken from where it is in memory. -/
def Phdr.displacement (s : Phdr w) : BitVec w := s.p_offset - s.p_vaddr

/-- The offset in the file of an address of the segment. -/
def Phdr.offsetOf (s : Phdr w) (vma : BitVec w) : BitVec w := s.p_offset + (vma - s.p_vaddr)

theorem loads_cons (pr : Phdr w) (rest : List (Phdr w)) : loads (pr :: rest) = if pr.Loaded then pr :: loads rest
    else loads rest := by
  unfold loads
  rw [List.filter_cons]
  simp

theorem vaddr_2_foffset_eq (first_is : (loads table).head? = some first) (above : first.p_vaddr ≤ vma) :
    vaddr_2_foffset table vma = first.offsetOf vma := by
  induction table with
  | nil => cases first_is
  | cons pr rest ih =>
    rw [vaddr_2_foffset]
    rw [loads_cons] at first_is
    by_cases loaded : pr.Loaded
    · rw [if_pos loaded] at first_is
      cases first_is
      rw [if_pos ⟨loaded, above⟩, Phdr.offsetOf, BitVec.add_comm]
    · rw [if_neg loaded] at first_is
      rw [if_neg fun both => loaded both.1]
      exact ih first_is

theorem Ascending.first_le (ascending : Ascending table) (mem : s ∈ table) (inside : Inside s vma) :
    ∃ first, (loads table).head? = some first ∧ first.p_vaddr ≤ vma := by
  have listed : s ∈ loads table := List.mem_filter.mpr ⟨mem, decide_eq_true inside.loaded⟩
  unfold Ascending at ascending
  cases all : loads table with
  | nil =>
    rw [all] at listed
    cases listed
  | cons first rest =>
    rw [all] at listed ascending
    refine ⟨first, rfl, BitVec.le_def.mpr ?_⟩
    rcases List.mem_cons.mp listed with rfl | later
    · exact inside.above
    · have order := (List.pairwise_cons.mp ascending).1 s later
      have above := inside.above
      omega

/-- Two segments give an address the same offset exactly if they have the same displacement. -/
theorem offsetOf_eq_iff : first.offsetOf vma = s.offsetOf vma ↔ first.displacement = s.displacement := by
  have shift : ∀ s : Phdr w, s.offsetOf vma = vma + s.displacement := fun s => by
    rw [Phdr.offsetOf, Phdr.displacement, BitVec.sub_eq_add_neg, BitVec.sub_eq_add_neg, ← BitVec.add_assoc,
      ← BitVec.add_assoc,
      BitVec.add_comm vma]
  rw [shift, shift]
  exact BitVec.add_right_inj vma

/-- An address of a segment is translated to its offset in the file exactly if the first segment has the displacement
of this one. -/
theorem vaddr_2_foffset_iff (ascending : Ascending table) (member : s ∈ table) (inside : Inside s vma) :
    vaddr_2_foffset table vma = s.offsetOf vma ↔
      ∃ first, (loads table).head? = some first ∧ first.displacement = s.displacement := by
  obtain ⟨first, first_is, above⟩ := ascending.first_le member inside
  rw [vaddr_2_foffset_eq first_is above, offsetOf_eq_iff]
  refine ⟨fun same => ⟨first, first_is, same⟩, ?_⟩
  rintro ⟨other, other_is, same⟩
  rw [first_is] at other_is
  exact Option.some.inj other_is ▸ same

/-- The text and the data of a library. -/
def textAndData : List (Phdr 64) := [⟨.PT_LOAD, 0, 0, 0x1000⟩, ⟨.PT_LOAD, 0x1000, 0x201000, 0x500⟩]

theorem vaddr_2_foffset_text : vaddr_2_foffset textAndData 0x800 = 0x800 ↔
    ∃ first, (loads textAndData).head? = some first ∧
    first.displacement = (⟨.PT_LOAD, 0, 0, 0x1000⟩ : Phdr 64).displacement :=
  vaddr_2_foffset_iff (s := ⟨.PT_LOAD, 0, 0, 0x1000⟩) (by decide) List.mem_cons_self ⟨rfl, by decide, by decide⟩

/-- The data is looked for at its address in memory. -/
theorem not_translated : ¬ ∀ (table : List (Phdr 64)) (s : Phdr 64) (vma : BitVec 64), Ascending table → s ∈ table →
    Inside s vma →
    vaddr_2_foffset table vma = s.offsetOf vma := by
  intro translated
  have data := translated textAndData ⟨.PT_LOAD, 0x1000, 0x201000, 0x500⟩ 0x201010 (by decide) (by decide)
    ⟨rfl, by decide, by decide⟩
  revert data
  decide

end Dce.ElfLdd
