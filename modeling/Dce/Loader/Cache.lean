import Dce.Lib.Machine
import Mathlib.Data.List.Dedup
import Mathlib.Data.List.DropRight
import Mathlib.Data.List.Nodup

/- The cache of patched libraries, `ElfCache`: an entry and a copy for each file that is loaded. -/

namespace Dce.Loader.Cache

open Function List Option

abbrev Path := List Char

structure FileInfo where
  p_vaddr : Int
  p_memsz : Int
  deps : List Nat

structure ElfCachedFile where
  cachedFilename : Path
  basename : Path
  data_p_vaddr : Int
  data_p_memsz : Int
  id : Nat
  deps : List Nat

structure Overriden where
  source : Path
  target : Path

/-- `id` is the counter of `AllocateId`, and `disk` what the files have; one that cannot be opened is read as an
empty one. -/
structure ElfCache where
  m_files : List ElfCachedFile
  id : Nat
  disk : Path → List UInt8

def GetBasename (filename : Path) : Path := filename.rtakeWhile (· ≠ '/')

/-- The source is read after the destination has been opened, which empties it. -/
def CopyFile (source destination : Path) (disk : Path → List UInt8) : Path → List UInt8 :=
  let disk := update disk destination []
  update disk destination (disk source)

variable (m_overriden : List Overriden) (directory : Path)
  (EditBuffer : List ElfCachedFile → Nat → List UInt8 → Option (List UInt8 × FileInfo)) (disk : Path → List UInt8)

/-- The digits of base 60. -/
def NumberToChar (c : Nat) : Nat :=
  if c < 10 then c + 0x30 else if c < 10 + 25 then c - 10 + 0x41
  else if c < 10 + 25 + 25 then c - (10 + 25) + 0x61 else 0

/-- The bytes that `WriteString` puts over the beginning of a name. `none` is its `NS_FATAL_ERROR`. -/
def WriteString (uid : Nat) : Option (List Nat) :=
  if 60 * 60 * 60 * 60 ≤ uid then none
  else some ([uid / 216000 % 60, uid / 3600 % 60, uid / 60 % 60, uid % 60].map NumberToChar)

/-- `none` is a failed assertion: an empty file cannot be mapped. `EditBuffer` looks for what the file needs among
the entries. -/
def EditFile (m_files : List ElfCachedFile) (selfId : Nat) (data : List UInt8) : Option (List UInt8 × FileInfo) :=
  if data = [] then none else EditBuffer m_files selfId data

/-- `directory` is what `EnsureCacheDirectory` returns. -/
def Add (filename : Path) (cache : ElfCache) : Option (ElfCache × ElfCachedFile) :=
  let basename := GetBasename filename
  match m_overriden.find? (·.source = basename) with
  | some overriden => (cache.m_files.find? (·.basename = overriden.target)).map (cache, ·)
  | none =>
    match cache.m_files.find? (·.basename = basename) with
    | some cached => some (cache, cached)
    | none =>
      let fileCopy := directory ++ '/' :: basename
      let disk := CopyFile filename fileCopy cache.disk
      let selfId := (cache.id + 1) % 2 ^ 32
      (EditFile EditBuffer cache.m_files selfId (disk fileCopy)).map fun (data, fileInfo) =>
        let cached := ⟨fileCopy, basename, fileInfo.p_vaddr, fileInfo.p_memsz, selfId, fileInfo.deps⟩
        (⟨cache.m_files ++ [cached], selfId, update disk fileCopy data⟩, cached)

/-- The cache begins without entries, and `disk` is what the files have then. -/
def machine : Machine ElfCache Path where
  init cache := cache = ⟨[], 0, disk⟩
  step cache filename := (Add m_overriden directory EditBuffer filename cache).map Prod.fst

/-- The copy of the entry, as it is now, and the entry are what was made of the bytes `data` when there were the
entries `before`. -/
def Patched (before : List ElfCachedFile) (now : Path → List UInt8) (data : List UInt8) (e : ElfCachedFile) : Prop :=
  EditFile EditBuffer before e.id data = some (now e.cachedFilename, ⟨e.data_p_vaddr, e.data_p_memsz, e.deps⟩)

/-- No copy is that of two entries, none is changed after it was patched, and nothing else is written. -/
structure Kept (cache : ElfCache) : Prop where
  copies : ∀ e ∈ cache.m_files, e.cachedFilename = directory ++ '/' :: e.basename
  names : (cache.m_files.map (·.basename)).Nodup
  ids : cache.m_files.map (·.id) = (range cache.m_files.length).map fun i => (i + 1) % 2 ^ 32
  last : cache.id = cache.m_files.length % 2 ^ 32
  origin : ∀ before e after, cache.m_files = before ++ e :: after →
    ∃ p, GetBasename p = e.basename ∧ Patched EditBuffer before cache.disk (disk p) e
  others : ∀ q, (∀ e ∈ cache.m_files, q ≠ e.cachedFilename) → cache.disk q = disk q

/-- What a call does to the entries, of which it returns `e`. -/
structure Adds (filename : Path) (cache : ElfCache) (e : ElfCachedFile) (c : ElfCache) : Prop where
  entries : c.m_files = cache.m_files ∨
    c.m_files = cache.m_files ++ [e] ∧ Patched EditBuffer cache.m_files c.disk (disk filename) e
  still : ∀ f ∈ cache.m_files, c.disk f.cachedFilename = cache.disk f.cachedFilename
  named : (∀ o ∈ m_overriden, o.source ≠ GetBasename filename) → e.basename = GetBasename filename

variable {m_overriden directory EditBuffer disk} {filename p q : Path} {cache c : ElfCache} {e f : ElfCachedFile}

theorem getBasename_copy : GetBasename (directory ++ '/' :: GetBasename p) = GetBasename p := by
  have plain : ∀ x ∈ (GetBasename p).reverse, decide (x ≠ '/') = true := fun x mem => by
    simpa using mem_rtakeWhile_imp (mem_reverse.mp mem)
  conv_lhs => rw [GetBasename, rtakeWhile, reverse_append, reverse_cons, append_assoc, takeWhile_append_of_pos plain]
  simp

/-- What a call does: it finds an entry, which it would find again, or makes one, for a file that is no copy. -/
theorem Kept.add (kept : Kept directory EditBuffer disk cache)
    (run : Add m_overriden directory EditBuffer filename cache = some (c, e)) :
    Kept directory EditBuffer disk c ∧ e ∈ c.m_files ∧
      Add m_overriden directory EditBuffer filename c = some (c, e) ∧
      Adds m_overriden EditBuffer disk filename cache e c := by
  have again := run
  unfold Add at run
  dsimp only at run
  split at run
  next overriden own =>
    obtain ⟨f, found, same⟩ := map_eq_some_iff.mp run
    cases same
    refine ⟨kept, mem_of_find?_eq_some found, again, .inl rfl, fun _ _ => rfl, fun outside => ?_⟩
    exact absurd (by simpa using find?_some own) (outside _ (mem_of_find?_eq_some own))
  next own =>
  split at run
  next found =>
    cases run
    have named : e.basename = GetBasename filename := by simpa using find?_some found
    exact ⟨kept, mem_of_find?_eq_some found, again, .inl rfl, fun _ _ => rfl, fun _ => named⟩
  next absent =>
    obtain ⟨⟨data, info⟩, edited, same⟩ := map_eq_some_iff.mp run
    have fresh : ∀ f ∈ cache.m_files, f.basename ≠ GetBasename filename := fun f there => by
      simpa using find?_eq_none.mp absent f there
    have apart : ∀ f ∈ cache.m_files, f.cachedFilename ≠ directory ++ '/' :: GetBasename filename :=
      fun f there same =>
        fresh f there (cons_injective (append_cancel_left ((kept.copies f there).symm.trans same)))
    have elsewhere : ∀ f ∈ cache.m_files, filename ≠ f.cachedFilename := fun f there same => by
      obtain ⟨before, after, split⟩ := append_of_mem there
      obtain ⟨q, named, -⟩ := kept.origin before f after split
      refine fresh f there ?_
      rw [same, kept.copies f there, ← named, getBasename_copy]
    unfold EditFile CopyFile at edited
    rw [update_self] at edited
    split at edited
    next => cases edited
    next full =>
    -- the file itself is not the copy, which is empty then
    have other : filename ≠ directory ++ '/' :: GetBasename filename :=
      fun same => full (by rw [← same, update_self])
    rw [update_of_ne other] at full edited
    rw [kept.others _ elsewhere] at full edited
    obtain ⟨rfl, rfl⟩ := Prod.mk.inj same
    have untouched : ∀ q, q ≠ directory ++ '/' :: GetBasename filename →
        update (CopyFile filename (directory ++ '/' :: GetBasename filename) cache.disk)
        (directory ++ '/' :: GetBasename filename)
          data q = cache.disk q := fun q other => by
      rw [update_of_ne other, CopyFile, update_of_ne other, update_of_ne other]
    have made : Patched EditBuffer cache.m_files
        (update (CopyFile filename (directory ++ '/' :: GetBasename filename) cache.disk)
          (directory ++ '/' :: GetBasename filename) data) (disk filename)
        ⟨directory ++ '/' :: GetBasename filename, GetBasename filename, info.p_vaddr, info.p_memsz,
          (cache.id + 1) % 2 ^ 32, info.deps⟩ := by
      simpa [Patched, EditFile, full] using edited
    refine ⟨⟨forall_mem_append.mpr ⟨kept.copies, by simp⟩, ?_, ?_, ?_, fun before f after split => ?_,
      fun q free => ?_⟩, mem_append_right _ (mem_singleton_self _), ?_,
      .inr ⟨rfl, made⟩, fun f there => untouched _ (apart f there), fun _ => rfl⟩
    · simpa [nodup_append] using ⟨kept.names, fresh⟩
    · simp [kept.ids, range_succ, kept.last]
    · simp [kept.last]
    · -- the last entry is the new one
      rcases eq_nil_or_concat after with rfl | ⟨init, last, rfl⟩
      · obtain ⟨rfl, same⟩ := append_inj' split rfl
        obtain ⟨rfl, -⟩ := cons.inj same
        exact ⟨filename, rfl, made⟩
      · rw [concat_eq_append, ← cons_append, ← append_assoc] at split
        obtain ⟨old, -⟩ := append_inj' split rfl
        obtain ⟨q, named, made⟩ := kept.origin before f init old
        have there : f ∈ cache.m_files := old ▸ mem_append_right _ mem_cons_self
        exact ⟨q, named, made.trans (congrArg (fun bytes => some (bytes, _)) (untouched _ (apart f there)).symm)⟩
    · have new := free _ (mem_append_right _ (mem_singleton_self _))
      exact (untouched q new).trans (kept.others q fun f old => free f (mem_append_left _ old))
    · simp [Add, own, find?_append, absent]

theorem kept_of_reach (reach : (machine m_overriden directory EditBuffer disk).Reach cache) :
    Kept directory EditBuffer disk cache := by
  refine reach.invariant (fun c first => ?_) fun c filename d kept _ run => ?_
  · rw [first]
    exact ⟨nofun, .nil, rfl, rfl, fun before _ _ split =>
      absurd split.symm (append_ne_nil_of_right_ne_nil before (cons_ne_nil _ _)),
      fun _ _ => rfl⟩
  · obtain ⟨⟨d, e⟩, added, rfl⟩ := map_eq_some_iff.mp run
    exact (kept.add added).1

/-- For any files, any overrides and any `EditBuffer`, after every sequence of calls; and a call that is made again
returns the same entry and changes nothing. -/
theorem entries_kept (reach : (machine m_overriden directory EditBuffer disk).Reach cache) :
    Kept directory EditBuffer disk cache ∧
      ∀ filename c e, Add m_overriden directory EditBuffer filename cache = some (c, e) →
        e ∈ c.m_files ∧ Add m_overriden directory EditBuffer filename c = some (c, e) :=
  ⟨kept_of_reach reach, fun _ _ _ run =>
    have added := ((kept_of_reach reach).add run).2
    ⟨added.1, added.2.1⟩⟩

section Identity

variable (m_overriden directory EditBuffer disk)

abbrev Returned := List (Path × ElfCachedFile)

/-- The cache with its calls beside it, each with the entry that it returned. -/
def calls : Machine (ElfCache × Returned) Path :=
  (machine m_overriden directory EditBuffer disk).ledgered [] fun cache filename returned =>
    (Add m_overriden directory EditBuffer filename cache).elim returned fun r => (filename, r.2) :: returned

def Outside (_ : ElfCache × Returned) (filename : Path) : Prop := ∀ o ∈ m_overriden, o.source ≠ GetBasename filename

/-- Each entry is that of the file at the path, different files have different copies and ids, and a path has the
same entry each time. -/
structure Identity (cache : ElfCache) (returned : Returned) : Prop where
  patched : ∀ p e, (p, e) ∈ returned → ∃ before after, cache.m_files = before ++ e :: after ∧
    Patched EditBuffer before cache.disk (disk p) e
  again : ∀ p e f, (p, e) ∈ returned → (p, f) ∈ returned → e = f
  apart : ∀ p q e f, (p, e) ∈ returned → (q, f) ∈ returned → p ≠ q →
    e.cachedFilename ≠ f.cachedFilename ∧ e.id ≠ f.id

/-- Different paths have different last components, and there are not more of these than ids. -/
structure Distinct (paths : List Path) : Prop where
  names : ∀ p ∈ paths, ∀ q ∈ paths, GetBasename p = GetBasename q → p = q
  few : (paths.map GetBasename).dedup.length ≤ 2 ^ 32

/-- What the calls have returned are the entries. -/
structure Served (s : ElfCache × Returned) : Prop where
  kept : Kept directory EditBuffer disk s.1
  entries : ∀ p e, (p, e) ∈ s.2 → e ∈ s.1.m_files ∧ e.basename = GetBasename p
  origin : ∀ before e after, s.1.m_files = before ++ e :: after →
    ∃ p, (p, e) ∈ s.2 ∧ Patched EditBuffer before s.1.disk (disk p) e

variable {m_overriden directory EditBuffer disk} {s t : ElfCache × Returned}

theorem Served.add (served : Served directory EditBuffer disk s) (outside : Outside m_overriden s filename)
    (run : (calls m_overriden directory EditBuffer disk).step s filename = some t) :
    Served directory EditBuffer disk t := by
  obtain ⟨step, noted⟩ := Machine.ledgered_step run
  obtain ⟨⟨c, e⟩, added, same⟩ := map_eq_some_iff.mp step
  obtain ⟨cache, returned⟩ := s
  obtain ⟨c', returned'⟩ := t
  cases same
  obtain rfl : returned' = (filename, e) :: returned := by simpa [added] using noted
  obtain ⟨kept, there, -, adds⟩ := served.kept.add added
  have grows : ∀ f ∈ cache.m_files, f ∈ c.m_files := fun f old => by
    rcases adds.entries with same | ⟨same, -⟩
    · exact same ▸ old
    · exact same ▸ mem_append_left _ old
  refine ⟨kept, fun p f mem => ?_, fun before f after split => ?_⟩
  · rcases mem_cons.mp mem with same | old
    · cases same
      exact ⟨there, adds.named outside⟩
    · exact (served.entries p f old).imp_left (grows f)
  · have before_call (later : List ElfCachedFile) (old : cache.m_files = before ++ f :: later) :
        ∃ p, (p, f) ∈ (filename, e) :: returned ∧ Patched EditBuffer before c.disk (disk p) f := by
      obtain ⟨p, mem, made⟩ := served.origin before f later old
      have still := adds.still f (old ▸ mem_append_right _ mem_cons_self)
      exact ⟨p, mem_cons_of_mem _ mem, made.trans (congrArg (fun bytes => some (bytes, _)) still.symm)⟩
    rcases adds.entries with same | ⟨same, made⟩
    · exact before_call after (same.symm.trans split)
    · rcases eq_nil_or_concat after with rfl | ⟨init, last, rfl⟩
      · obtain ⟨rfl, same⟩ := append_inj' (split.symm.trans same) rfl
        obtain ⟨rfl, -⟩ := cons.inj same
        exact ⟨filename, mem_cons_self, made⟩
      · rw [concat_eq_append, ← cons_append, ← append_assoc] at split
        exact before_call init (append_inj' (same.symm.trans split) rfl).1

theorem Kept.eq_of_basename (kept : Kept directory EditBuffer disk cache) (first : e ∈ cache.m_files)
    (second : f ∈ cache.m_files) (same : e.basename = f.basename) : e = f :=
  inj_on_of_nodup_map kept.names first second same

theorem Served.returned (served : Served directory EditBuffer disk s) (e : ElfCachedFile) (entry : e ∈ s.1.m_files) :
    ∃ p, (p, e) ∈ s.2 := by
  obtain ⟨before, after, split⟩ := append_of_mem entry
  obtain ⟨p, returned, -⟩ := served.origin before e after split
  exact ⟨p, returned⟩

/-- There are as many entries as names. -/
theorem Served.length (served : Served directory EditBuffer disk s) :
    ((s.2.map Prod.fst).map GetBasename).dedup.length = s.1.m_files.length := by
  refine ((perm_ext_iff_of_nodup (nodup_dedup _) served.kept.names).mpr fun name => ?_).length_eq.trans
    (length_map _)
  rw [mem_dedup]
  constructor
  · intro mem
    obtain ⟨p, inside, rfl⟩ := mem_map.mp mem
    obtain ⟨⟨p, e⟩, returned, rfl⟩ := mem_map.mp inside
    obtain ⟨entry, named⟩ := served.entries p e returned
    exact named ▸ mem_map_of_mem entry
  · intro mem
    obtain ⟨e, entry, rfl⟩ := mem_map.mp mem
    obtain ⟨p, returned⟩ := served.returned e entry
    exact (served.entries p e returned).2 ▸ mem_map_of_mem (mem_map_of_mem (f := Prod.fst) returned)

/-- The ids tell the entries apart as long as there are not more of these. -/
theorem Kept.ids_iff (kept : Kept directory EditBuffer disk cache) :
    (∀ e ∈ cache.m_files, ∀ f ∈ cache.m_files, e.id = f.id → e = f) ↔ cache.m_files.length ≤ 2 ^ 32 := by
  rw [← nodup_map_iff_inj_on (Nodup.of_map _ kept.names), kept.ids, nodup_map_iff_inj_on nodup_range]
  simp only [mem_range]
  refine ⟨fun distinct => ?_, fun few i hi j hj same => by omega⟩
  by_contra many
  cases distinct 0 (by omega) (2 ^ 32) (by omega) rfl

/-- After any calls outside the overrides the entries are those of the files exactly if the paths are told apart. -/
theorem identity_iff (reach : (calls m_overriden directory EditBuffer disk).ReachBy (Outside m_overriden) s) :
    Identity EditBuffer disk s.1 s.2 ↔ Distinct (s.2.map Prod.fst) := by
  have served : Served directory EditBuffer disk s := by
    refine reach.invariant (fun s first => ?_) fun s filename t served outside run => served.add outside run
    obtain ⟨first, none⟩ := first
    obtain ⟨cache, returned⟩ := s
    cases none
    exact ⟨kept_of_reach (.start first), nofun, fun before _ _ split =>
      absurd ((congrArg ElfCache.m_files first).symm.trans split).symm
        (append_ne_nil_of_right_ne_nil before (cons_ne_nil _ _))⟩
  constructor
  · intro identity
    refine ⟨forall_mem_map.mpr fun (p, e) he => forall_mem_map.mpr fun (q, f) hf same => ?_, ?_⟩
    · obtain ⟨first, named⟩ := served.entries p e he
      obtain ⟨second, named'⟩ := served.entries q f hf
      have one := served.kept.eq_of_basename first second (named.trans (same.trans named'.symm))
      by_contra other
      exact (identity.apart p q e f he hf other).1 (one ▸ rfl)
    · rw [served.length, ← served.kept.ids_iff]
      intro e first f second same
      obtain ⟨p, he⟩ := served.returned e first
      obtain ⟨q, hf⟩ := served.returned f second
      by_cases equal : p = q
      · exact identity.again p e f he (equal ▸ hf)
      · exact absurd same (identity.apart p q e f he hf equal).2
  · rintro ⟨names, few⟩
    rw [served.length, ← served.kept.ids_iff] at few
    have path {p e} (mem : (p, e) ∈ s.2) : p ∈ s.2.map Prod.fst := mem_map_of_mem (f := Prod.fst) mem
    refine ⟨fun p e he => ?_, fun p e f he hf => ?_, fun p q e f he hf other => ?_⟩
    · obtain ⟨entry, named⟩ := served.entries p e he
      obtain ⟨before, after, split⟩ := append_of_mem entry
      obtain ⟨q, hq, made⟩ := served.origin before e after split
      obtain rfl := names p (path he) q (path hq) (named.symm.trans (served.entries q e hq).2)
      exact ⟨before, after, split, made⟩
    · obtain ⟨first, named⟩ := served.entries p e he
      obtain ⟨second, named'⟩ := served.entries p f hf
      exact served.kept.eq_of_basename first second (named.trans named'.symm)
    · obtain ⟨first, named⟩ := served.entries p e he
      obtain ⟨second, named'⟩ := served.entries q f hf
      have differ : e.basename ≠ f.basename := fun same =>
        other (names p (path he) q (path hf) (named.symm.trans (same.trans named')))
      refine ⟨fun same => differ ?_, fun same => differ (congrArg _ (few e first f second same))⟩
      rw [served.kept.copies e first, served.kept.copies f second] at same
      exact cons_injective (append_cancel_left same)

end Identity

theorem eq_of_NumberToChar {a b : Nat} (same : NumberToChar (a % 60) = NumberToChar (b % 60)) : a % 60 = b % 60 := by
  unfold NumberToChar at same
  split_ifs at same <;> omega

theorem isAlphanum_NumberToChar : ∀ c < 60, (Char.ofNat (NumberToChar c)).isAlphanum := by decide

theorem eq_of_WriteString {a b : Nat} {str : List Nat} (written : WriteString a = some str)
    (same : WriteString a = WriteString b) : a = b := by
  unfold WriteString at written same
  split_ifs at written same with big other
  simp only [map_cons, map_nil, some.injEq, cons.injEq, and_true] at same
  obtain ⟨first, second, third, fourth⟩ := same
  have d := eq_of_NumberToChar first
  have c := eq_of_NumberToChar second
  have b := eq_of_NumberToChar third
  have a := eq_of_NumberToChar fourth
  omega

/-- As long as there are fewer than 60 ^ 4 entries, each has a name to write over its own, of letters and digits, and
no two have the same. -/
theorem names_written (reach : (machine m_overriden directory EditBuffer disk).Reach cache)
    (few : cache.m_files.length < 60 ^ 4) :
    (∀ e ∈ cache.m_files, ∃ str, WriteString e.id = some str ∧ str.length = 4 ∧
      ∀ c ∈ str, (Char.ofNat c).isAlphanum) ∧
      (cache.m_files.map fun e => WriteString e.id).Nodup := by
  have ids : cache.m_files.map (·.id) = (range cache.m_files.length).map (· + 1) := by
    refine (kept_of_reach reach).ids.trans (map_congr_left fun i inside => Nat.mod_eq_of_lt ?_)
    have below := mem_range.mp inside
    omega
  have written : ∀ e ∈ cache.m_files, ∃ str, WriteString e.id = some str ∧ str.length = 4 ∧
      ∀ c ∈ str, (Char.ofNat c).isAlphanum := fun e there => by
    obtain ⟨i, inside, same⟩ := mem_map.mp (ids ▸ mem_map_of_mem there)
    have below := mem_range.mp inside
    refine ⟨_, if_neg (by omega), rfl, forall_mem_map.mpr fun c digit => isAlphanum_NumberToChar c ?_⟩
    simp only [mem_cons, not_mem_nil, or_false] at digit
    omega
  refine ⟨written, ?_⟩
  have distinct : (cache.m_files.map (·.id)).Nodup := ids ▸ nodup_range.map (fun _ _ => Nat.succ.inj)
  refine (pairwise_map.mp distinct).imp_of_mem ?_ |> pairwise_map.mpr
  exact fun there _ other same => other (eq_of_WriteString (written _ there).choose_spec.1 same)

/-- Nothing is patched. -/
def keep (_ : List ElfCachedFile) (_ : Nat) (data : List UInt8) : Option (List UInt8 × FileInfo) :=
  some (data, ⟨0, 0, []⟩)

/-- Two libraries were added, and the first one again. -/
def twoAdded : ElfCache :=
  ((machine [] ['c'] keep fun _ => [0]).replay ⟨[], 0, fun _ => [0]⟩ [['x'], ['y'], ['a', '/', 'x']]).getD
    ⟨[], 0, fun _ => [0]⟩

theorem twoAdded_reach : (machine [] ['c'] keep fun _ => [0]).Reach twoAdded := by
  have run : (machine [] ['c'] keep fun _ => [0]).replay ⟨[], 0, fun _ => [0]⟩ [['x'], ['y'], ['a', '/', 'x']] =
    some twoAdded := rfl
  exact Machine.ReachBy.replay (.start rfl) (fun _ _ => trivial) run

theorem entries_kept_two : Kept ['c'] keep (fun _ => [0]) twoAdded ∧
    twoAdded.m_files.map (·.basename) = [['x'], ['y']] ∧
    ∃ e, Add [] ['c'] keep ['y'] twoAdded = some (twoAdded, e) ∧ e ∈ twoAdded.m_files := by
  have kept := entries_kept twoAdded_reach
  exact ⟨kept.1, rfl, _, rfl, (kept.2 ['y'] twoAdded _ rfl).1⟩

theorem names_written_two : (∀ e ∈ twoAdded.m_files, ∃ str, WriteString e.id = some str ∧ str.length = 4 ∧
      ∀ c ∈ str, (Char.ofNat c).isAlphanum) ∧
    (twoAdded.m_files.map fun e => WriteString e.id).Nodup ∧ twoAdded.m_files.length = 2 := by
  have written := names_written twoAdded_reach (by decide)
  exact ⟨written.1, written.2, rfl⟩

def files (p : Path) : List UInt8 := if p = ['b', '/', 'x'] then [1] else [0]

/-- The cache and what was returned after calls of these paths. -/
def added (paths : List Path) : ElfCache × Returned :=
  ((calls [] ['c'] keep files).replay (⟨[], 0, files⟩, []) paths).getD (⟨[], 0, files⟩, [])

theorem added_reach {paths : List Path}
    (run : (calls [] ['c'] keep files).replay (⟨[], 0, files⟩, []) paths = some (added paths)) :
    (calls [] ['c'] keep files).ReachBy (Outside []) (added paths) := by
  have first : (calls [] ['c'] keep files).ReachBy (Outside []) (⟨[], 0, files⟩, []) := .start ⟨rfl, rfl⟩
  exact first.replay (fun _ _ => nofun) run

theorem identity_again : Identity keep files (added [['x'], ['y'], ['x']]).1 (added [['x'], ['y'], ['x']]).2 :=
  (identity_iff (added_reach rfl)).mpr ⟨by decide, by decide⟩

/-- Two files of one name share the entry of the first. -/
theorem not_identity : ¬ ∀ s, (calls [] ['c'] keep files).ReachBy (Outside []) s → Identity keep files s.1 s.2 := by
  intro all
  let paths : List Path := [['a', '/', 'x'], ['b', '/', 'x']]
  have run : (calls [] ['c'] keep files).ReachBy (Outside []) (added paths) := added_reach rfl
  obtain ⟨e, first, second⟩ : ∃ e, (['a', '/', 'x'], e) ∈ (added paths).2 ∧
      (['b', '/', 'x'], e) ∈ (added paths).2 := ⟨_, .tail _ (.head _), .head _⟩
  exact ((all _ run).apart _ _ e e first second (by decide)).1 rfl

end Dce.Loader.Cache
