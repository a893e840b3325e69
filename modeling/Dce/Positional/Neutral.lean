import Dce.Lib.CInt

/- Seeking, reading and writing in files of the host: `dce_lseek`, `dce_read`, `dce_write`, `dce_pread` and
`dce_pwrite` of `dce-fd.cc` with the methods of `UnixFileFdBase`. -/

namespace Dce.Positional

open CInt

def SEEK_SET : Int := 0
def SEEK_CUR : Int := 1
def SEEK_END : Int := 2
def EBADF : Int := 9
def EINVAL : Int := 22

/-- An open file of the host. It seeks up to `limit`; `region` is what it answers to the other ways of seeking
(`SEEK_DATA` and `SEEK_HOLE`): an errno or a place. -/
structure File where
  content : List UInt8
  append : Bool
  limit : Nat
  region : Int → Int → Except Int Int
  offset : Nat
  within : offset ≤ limit
  long : limit < 2 ^ 63

/-- `openFiles` leads to the object behind a descriptor; `buf` is the buffer of the caller. -/
structure Process where
  openFiles : Int → Option Nat
  objects : Nat → File
  buf : List UInt8
  err : Int

/-- How the host goes about a transfer: it fails with an errno, or moves some bytes, no more than these. -/
inductive Transfer
  | fails (errno : Int)
  | moves (atMost : Nat)

/-- The most that the host moves at once. -/
def MAX_RW_COUNT : Nat := 0x7ffff000

def File.at (file : File) (place : Nat) : File :=
  { file with offset := min place file.limit, within := Nat.min_le_right place file.limit }

/-- Where a seek leads. -/
def File.target (offset whence : Int) (file : File) : Except Int Int :=
  if whence = SEEK_SET then .ok offset
  else if whence = SEEK_CUR then .ok (file.offset + offset)
  else if whence = SEEK_END then .ok (file.content.length + offset)
  else file.region offset whence

/-- A method of a file: the file and the buffer afterwards, and the errno or what it returns. -/
abbrev Method := File → List UInt8 → File × List UInt8 × Except Int Nat

def Lseek (offset whence : Int) : Method := fun file buf =>
  match file.target offset whence with
  | .error errno => (file, buf, .error errno)
  | .ok place =>
    if 0 ≤ place ∧ place ≤ file.limit then (file.at place.toNat, buf, .ok place.toNat)
    else (file, buf, .error EINVAL)

/-- The bytes moved of `count`, where there are or may be `room`. -/
def moved (count atMost room : Nat) : Nat := min (min count atMost) (min room MAX_RW_COUNT)

def Read (count : Nat) (transfer : Transfer) : Method := fun file buf =>
  match transfer with
  | .fails errno => (file, buf, .error errno)
  | .moves atMost =>
    let n := moved count atMost (min (file.content.length - file.offset) (file.limit - file.offset))
    (file.at (file.offset + n), (file.content.drop file.offset).take n ++ buf.drop n, .ok n)

/-- The place where a write begins. -/
def File.writesAt (file : File) : Nat := if file.append then file.content.length else file.offset

def File.put (file : File) (start : Nat) (bytes : List UInt8) : File :=
  { file with content := file.content.take start ++ List.replicate (start - file.content.length) 0 ++ bytes ++
                file.content.drop (start + bytes.length) }

def Write (count : Nat) (transfer : Transfer) : Method := fun file buf =>
  match transfer with
  | .fails errno => (file, buf, .error errno)
  | .moves atMost =>
    let n := moved (min count buf.length) atMost (file.limit - file.writesAt)
    if n = 0 then (file, buf, .ok 0)
    else ((file.put file.writesAt (buf.take n)).at (file.writesAt + n), buf, .ok n)

/-- `OPENED_FD_METHOD (int, ..)`: what the method returns goes through an `int`. -/
def openedFdMethod (fd : Int) (method : Method) (s : Process) : Process × Int :=
  match s.openFiles fd with
  | none => ({ s with err := EBADF }, -1)
  | some n =>
    match method (s.objects n) s.buf with
    | (file, buf, .error errno) =>
        ({ s with objects := Function.update s.objects n file, buf := buf, err := errno }, toInt (-1))
    | (file, buf, .ok retval) => ({ s with objects := Function.update s.objects n file, buf := buf }, toInt retval)

def dce_lseek64 (fd offset whence : Int) : Process → Process × Int := openedFdMethod fd (Lseek offset whence)

def dce_lseek (fd offset whence : Int) : Process → Process × Int := dce_lseek64 fd offset whence

def dce_read (fd : Int) (count : Nat) (transfer : Transfer) : Process → Process × Int :=
  openedFdMethod fd (Read count transfer)

def dce_write (fd : Int) (count : Nat) (transfer : Transfer) : Process → Process × Int :=
  openedFdMethod fd (Write count transfer)

/-- The second half of `positional`: the transfer, and the offset put back where it has not failed. -/
def transferBack (fd currentOffset : Int) (transfer : Process → Process × Int) (s : Process) : Process × Int :=
  let (s, ret) := transfer s
  if -1 = ret then (s, ret)
  else
    let (s, res) := dce_lseek fd currentOffset SEEK_SET s
    if res ≠ currentOffset then (s, -1) else (s, ret)

/-- The body that `dce_pread` and `dce_pwrite` share. -/
def positional (fd offset : Int) (transfer : Process → Process × Int) (s : Process) : Process × Int :=
  let (s, currentOffset) := dce_lseek fd 0 SEEK_CUR s
  if -1 = currentOffset then (s, -1)
  else
    let (s, res) := dce_lseek fd offset SEEK_SET s
    if res ≠ offset then ({ s with err := EINVAL }, -1) else transferBack fd currentOffset transfer s

def dce_pread (fd : Int) (count : Nat) (offset : Int) (transfer : Transfer) : Process → Process × Int :=
  positional fd offset (dce_read fd count transfer)

def dce_pwrite (fd : Int) (count : Nat) (offset : Int) (transfer : Transfer) : Process → Process × Int :=
  positional fd offset (dce_write fd count transfer)

end Dce.Positional

/- What positional reads and writes do to the offset of the file, and what a seek returns. -/

namespace Dce.Positional

open CInt Function

variable {file : File} {s s' : Process} {transfer : Process → Process × Int} {stop : File → List UInt8 → Option Nat}
  {fd offset whence : Int} {n place q : Nat} {method : Method}

/-- Where a transfer begins that is to begin at `offset`: what the seek returns for a place it refuses is -1. -/
def begun (file : File) (offset : Int) : File := if offset = -1 then file else file.at offset.toNat

/-- When the offset of the file is kept; `stop` says at which offset the transfer ends, if it does not fail. -/
inductive Kept (stop : File → List UInt8 → Option Nat) (file : File) (buf : List UInt8) (offset : Int) : Prop
  | untold (failed : toInt file.offset = -1)
  | refused (place : offset ≠ -1) (outside : offset < 0 ∨ file.limit < offset)
  | large (large : 2 ^ 31 ≤ offset) (here : offset = file.offset)
  | failed (small : offset < 2 ^ 31) (fails : stop (begun file offset) buf = none) (here : offset = -1 ∨
      offset = file.offset)
  | restored (small : offset < 2 ^ 31) (done : (stop (begun file offset) buf).isSome) (short : file.offset < 2 ^ 31)
  | ended (small : offset < 2 ^ 31) (negative : toInt file.offset < 0)
      (back : stop (begun file offset) buf = some file.offset)

/-- Where a read ends. -/
def readStop (count : Nat) (t : Transfer) (file : File) (_ : List UInt8) : Option Nat :=
  match t with
  | .fails _ => none
  | .moves atMost =>
      some (file.offset + moved count atMost (min (file.content.length - file.offset) (file.limit - file.offset)))

/-- Where a write ends. -/
def writeStop (count : Nat) (t : Transfer) (file : File) (buf : List UInt8) : Option Nat :=
  match t with
  | .fails _ => none
  | .moves atMost =>
    let n := moved (min count buf.length) atMost (file.limit - file.writesAt)
    some (if n = 0 then file.offset else file.writesAt + n)

/-- What a seek of the host comes to: the new offset, or -1. -/
def resultingOffset (file : File) (offset whence : Int) : Int :=
  match file.target offset whence with
  | .error _ => -1
  | .ok place => if 0 ≤ place ∧ place ≤ file.limit then place else -1

theorem File.ext_offset {file' : File} (content : file'.content = file.content) (append : file'.append = file.append)
    (limit : file'.limit = file.limit) (region : file'.region = file.region) (offset : file'.offset = file.offset) :
    file' = file := by
  cases file'
  subst content append limit region offset
  rfl

@[simp] theorem File.at_offset (file : File) : file.at file.offset = file :=
  File.ext_offset rfl rfl rfl rfl (Nat.min_eq_left file.within)

theorem File.offset_at (fits : place ≤ file.limit) : (file.at place).offset = place := Nat.min_eq_left fits

theorem toInt_failure : toInt (-1) = -1 := by decide

theorem lseek_set (opened : s.openFiles fd = some n) : dce_lseek fd offset SEEK_SET s =
      if 0 ≤ offset ∧ offset ≤ (s.objects n).limit then
        ({ s with objects := update s.objects n ((s.objects n).at offset.toNat) }, toInt offset)
      else ({ s with err := EINVAL }, -1) := by
  by_cases inside : 0 ≤ offset ∧ offset ≤ (s.objects n).limit
  · simp [dce_lseek, dce_lseek64, openedFdMethod, opened, Lseek, File.target, inside]
  · simp [dce_lseek, dce_lseek64, openedFdMethod, opened, Lseek, File.target, inside, toInt_failure]

theorem lseek_cur (opened : s.openFiles fd = some n) :
    dce_lseek fd 0 SEEK_CUR s = (s, toInt (s.objects n).offset) := by
  have inside := (s.objects n).within
  simp [dce_lseek, dce_lseek64, openedFdMethod, opened, Lseek, File.target, SEEK_CUR, SEEK_SET, inside]

/-- A method that fails where `stop` says so, with the offset as it was, and otherwise ends where `stop` says. -/
structure Ends (method : Method) (stop : File → List UInt8 → Option Nat) : Prop where
  fails {file : File} {buf : List UInt8} : stop file buf = none →
    ∃ file' buf' errno, method file buf = (file', buf', .error errno) ∧ file'.offset = file.offset
  moves {file : File} {buf : List UInt8} {q : Nat} : stop file buf = some q →
    ∃ file' buf' count, method file buf = (file', buf', .ok count) ∧ count ≤ MAX_RW_COUNT ∧ file'.offset = q ∧
      file'.limit = file.limit

theorem moved_le (count atMost room : Nat) : moved count atMost room ≤ room ∧
    moved count atMost room ≤ MAX_RW_COUNT :=
  ⟨(Nat.min_le_right _ _).trans (Nat.min_le_left _ _), (Nat.min_le_right _ _).trans (Nat.min_le_right _ _)⟩

theorem read_ends (count : Nat) (t : Transfer) : Ends (Read count t) (readStop count t) where
  fails {file buf} failed := by
    cases t with
    | fails errno => exact ⟨file, buf, errno, rfl, rfl⟩
    | moves atMost => cases failed
  moves {file buf q} done := by
    cases t with
    | fails errno => cases done
    | moves atMost =>
      obtain ⟨room, most⟩ :=
        moved_le count atMost (min (file.content.length - file.offset) (file.limit - file.offset))
      have within := file.within
      cases done
      exact ⟨_, _, _, rfl, most, File.offset_at (by omega), rfl⟩

theorem write_ends (count : Nat) (t : Transfer) : Ends (Write count t) (writeStop count t) where
  fails {file buf} failed := by
    cases t with
    | fails errno => exact ⟨file, buf, errno, rfl, rfl⟩
    | moves atMost => cases failed
  moves {file buf q} done := by
    cases t with
    | fails errno => cases done
    | moves atMost =>
      obtain ⟨room, most⟩ := moved_le (min count buf.length) atMost (file.limit - file.writesAt)
      simp only [writeStop, Option.some.injEq] at done
      simp only [Write]
      split at done
      next nothing =>
        rw [if_pos nothing]
        exact ⟨_, _, _, rfl, Nat.zero_le _, done, rfl⟩
      next some_ =>
        rw [if_neg some_]
        refine ⟨_, _, _, rfl, most, (File.offset_at ?_).trans done, rfl⟩
        change _ ≤ file.limit
        omega

theorem toInt_moved {count : Nat} (most : count ≤ MAX_RW_COUNT) : toInt count ≠ -1 := by
  unfold MAX_RW_COUNT at most
  rw [toInt_eq (by omega) (by omega)]
  omega

theorem toInt_nat_eq_iff {f : Nat} : toInt f = f ↔ f < 2 ^ 31 := by
  rw [toInt_eq_iff]
  omega

theorem toInt_nat_le {f : Nat} (nonneg : 0 ≤ toInt f) : toInt f ≤ f := by
  have low := toInt_emod f
  have bounds := toInt_bounds f
  omega

theorem transferBack_state (fd currentOffset : Int) (transfer : Process → Process × Int) (s : Process) :
    (transferBack fd currentOffset transfer s).1 =
      if -1 = (transfer s).2 then (transfer s).1 else (dce_lseek fd currentOffset SEEK_SET (transfer s).1).1 := by
  unfold transferBack
  dsimp only
  split
  · rfl
  · split <;> rfl

theorem lseek_set_offset (opened : s.openFiles fd = some n) : ((dce_lseek fd offset SEEK_SET s).1.objects n).offset =
      if 0 ≤ offset ∧ offset ≤ (s.objects n).limit then offset.toNat else (s.objects n).offset := by
  rw [lseek_set opened]
  split
  · simp only [update_self]
    exact File.offset_at (by omega)
  next => rfl

/-- The second half of a positional transfer, `f` being the offset that was saved. -/
theorem transferBack_kept_iff {f : Nat} (ends : Ends method stop) (opened : s.openFiles fd = some n)
    (fits : f ≤ (s.objects n).limit) :
    ((transferBack fd (toInt f) (openedFdMethod fd method) s).1.objects n).offset = f ↔
    match stop (s.objects n) s.buf with
      | none => (s.objects n).offset = f
      | some q => f < 2 ^ 31 ∨ toInt f < 0 ∧ q = f := by
  have shown : toInt f = f ↔ f < 2 ^ 31 := toInt_nat_eq_iff
  have smaller : 0 ≤ toInt f → toInt f ≤ f := toInt_nat_le
  generalize toInt f = c at shown smaller ⊢
  rw [transferBack_state]
  cases found : stop (s.objects n) s.buf with
  | none =>
    obtain ⟨file', buf', errno, answer, same⟩ := ends.fails found
    simp [openedFdMethod, opened, answer, toInt_failure, same]
  | some q =>
    obtain ⟨file', buf', count, answer, most, rfl, limit⟩ := ends.moves found
    have counted : ¬ -1 = toInt count := fun failed => toInt_moved most failed.symm
    simp only [openedFdMethod, opened, answer, if_neg counted]
    rw [lseek_set_offset (s := { s with objects := update s.objects n file', buf := buf' }) (n := n) opened]
    simp only [update_self]
    split
    · omega
    · omega

theorem positional_state (opened : s.openFiles fd = some n) : (positional fd offset transfer s).1 =
      if -1 = toInt (s.objects n).offset then s
      else if (dce_lseek fd offset SEEK_SET s).2 ≠ offset then
      { (dce_lseek fd offset SEEK_SET s).1 with err := EINVAL }
      else (transferBack fd (toInt (s.objects n).offset) transfer (dce_lseek fd offset SEEK_SET s).1).1 := by
  unfold positional
  rw [lseek_cur opened]
  dsimp only
  split
  · rfl
  · split <;> rfl

theorem begun_offset (accepted : offset = -1 ∨ 0 ≤ offset ∧ offset ≤ file.limit) :
    (begun file offset).offset = file.offset ↔ offset = -1 ∨ offset = file.offset := by
  unfold begun
  split
  next unplaced => exact iff_of_true rfl (.inl unplaced)
  · rw [File.offset_at (by omega)]
    omega

/-- Of a place to which the file is sought and that an `int` holds. -/
theorem kept_iff_of_small {buf : List UInt8} (told : toInt file.offset ≠ -1) (small : offset < 2 ^ 31)
    (accepted : offset = -1 ∨ 0 ≤ offset ∧ offset ≤ file.limit) :
    Kept stop file buf offset ↔ match stop (begun file offset) buf with
      | none => (begun file offset).offset = file.offset
      | some q => file.offset < 2 ^ 31 ∨ toInt file.offset < 0 ∧ q = file.offset := by
  rw [begun_offset accepted]
  constructor
  · intro kept
    cases kept with
    | untold failed => exact absurd failed told
    | refused place outside => omega
    | large large here => omega
    | failed _ fails here => rwa [fails]
    | restored _ done short =>
      obtain ⟨q, found⟩ := Option.isSome_iff_exists.mp done
      rw [found]
      exact .inl short
    | ended _ negative back =>
      rw [back]
      exact .inr ⟨negative, rfl⟩
  · intro after
    cases found : stop (begun file offset) buf with
    | none =>
      rw [found] at after
      exact .failed small found after
    | some q =>
      rw [found] at after
      rcases after with short | ⟨negative, rfl⟩
      · exact .restored small (found ▸ rfl) short
      · exact .ended small negative found

/-- Of a place to which the file is sought and that an `int` does not hold. -/
theorem kept_iff_of_large {buf : List UInt8} (told : toInt file.offset ≠ -1) (large : ¬ offset < 2 ^ 31)
    (inside : offset ≤ file.limit) : Kept stop file buf offset ↔ offset = file.offset := by
  constructor
  · intro kept
    cases kept with
    | untold failed => exact absurd failed told
    | refused place outside => omega
    | large _ here => exact here
    | failed small | restored small | ended small => exact absurd small large
  · exact fun here => .large (by omega) here

theorem begun_limit : (begun file offset).limit = file.limit := by
  unfold begun
  split <;> rfl

/-- The second half of a positional transfer after its seek. -/
theorem transferBack_kept_iff_kept {buf : List UInt8} (ends : Ends method stop) (opened : s.openFiles fd = some n)
    (sought : s.objects n = begun file offset) (same : s.buf = buf) (told : toInt file.offset ≠ -1)
    (small : offset < 2 ^ 31)
    (accepted : offset = -1 ∨ 0 ≤ offset ∧ offset ≤ file.limit) :
    ((transferBack fd (toInt file.offset) (openedFdMethod fd method) s).1.objects n).offset = file.offset ↔
      Kept stop file buf offset := by
  have fits : file.offset ≤ (s.objects n).limit := by
    rw [sought, begun_limit]
    exact file.within
  rw [transferBack_kept_iff ends opened fits, kept_iff_of_small told small accepted, sought, same]

theorem positional_kept_iff (ends : Ends method stop) (opened : s.openFiles fd = some n) :
    ((positional fd offset (openedFdMethod fd method) s).1.objects n).offset = (s.objects n).offset ↔
      Kept stop (s.objects n) s.buf offset := by
  rw [positional_state opened]
  by_cases untold : toInt (s.objects n).offset = -1
  · rw [if_pos untold.symm]
    exact iff_of_true rfl (.untold untold)
  rw [if_neg fun failed => untold failed.symm, lseek_set opened]
  by_cases inside : 0 ≤ offset ∧ offset ≤ (s.objects n).limit
  · rw [if_pos inside]
    by_cases small : offset < 2 ^ 31
    · have sought : update s.objects n ((s.objects n).at offset.toNat) n = begun (s.objects n) offset := by
        rw [update_self, begun, if_neg (by omega)]
      rw [if_neg fun other => other (toInt_eq (by omega) small)]
      exact transferBack_kept_iff_kept ends opened sought rfl untold small (.inr inside)
    · rw [if_pos fun same => small (toInt_eq_iff.mp same).2, kept_iff_of_large untold small inside.2]
      simp only [update_self]
      rw [File.offset_at (by omega)]
      omega
  · rw [if_neg inside]
    by_cases unplaced : offset = -1
    · have sought : s.objects n = begun (s.objects n) offset := (if_pos unplaced).symm
      rw [if_neg fun other => other unplaced.symm]
      exact transferBack_kept_iff_kept ends opened sought rfl untold (by omega) (.inl unplaced)
    · rw [if_pos fun same => unplaced same.symm]
      exact iff_of_true rfl (.refused unplaced (by omega))

theorem lseek_result (opened : s.openFiles fd = some n) :
    (dce_lseek fd offset whence s).2 = toInt (resultingOffset (s.objects n) offset whence) := by
  simp only [dce_lseek, dce_lseek64, openedFdMethod, opened, Lseek, resultingOffset]
  cases (s.objects n).target offset whence with
  | error errno => rfl
  | ok place =>
    dsimp only
    by_cases inside : 0 ≤ place ∧ place ≤ (s.objects n).limit
    · rw [if_pos inside, if_pos inside]
      dsimp only
      rw [Int.toNat_of_nonneg inside.1]
    · rw [if_neg inside, if_neg inside]

theorem resultingOffset_ge (file : File) (offset whence : Int) : -1 ≤ resultingOffset file offset whence := by
  unfold resultingOffset
  split
  · exact le_rfl
  · split <;> omega

/-- The result of `dce_lseek` is that of the host. -/
theorem lseek_exact_iff (opened : s.openFiles fd = some n) :
    (dce_lseek fd offset whence s).2 = resultingOffset (s.objects n) offset whence ↔
      resultingOffset (s.objects n) offset whence < 2 ^ 31 := by
  have least := resultingOffset_ge (s.objects n) offset whence
  rw [lseek_result opened, toInt_eq_iff]
  omega

/-- In positional reads and writes the offset of the file is kept, and a seek returns the offset that it leads to. -/
theorem neutral_iff (s : Process) (fd : Int) (n : Nat) (opened : s.openFiles fd = some n) (count : Nat)
    (offset whence : Int)
    (t : Transfer) :
    (((dce_pread fd count offset t s).1.objects n).offset = (s.objects n).offset ↔
      Kept (readStop count t) (s.objects n) s.buf offset) ∧
    (((dce_pwrite fd count offset t s).1.objects n).offset = (s.objects n).offset ↔
      Kept (writeStop count t) (s.objects n) s.buf offset) ∧
    ((dce_lseek fd offset whence s).2 = resultingOffset (s.objects n) offset whence ↔
      resultingOffset (s.objects n) offset whence < 2 ^ 31) :=
  ⟨positional_kept_iff (read_ends count t) opened, positional_kept_iff (write_ends count t) opened,
    lseek_exact_iff opened⟩

/-- A file of three bytes behind the descriptor 3. -/
def threeBytes (offset : Nat) (within : offset ≤ 2 ^ 63 - 1) : Process where
  openFiles fd := if fd = 3 then some 0 else none
  objects _ :=
    { content := [1, 2, 3], append := false, limit := 2 ^ 63 - 1, region := fun _ _ => .error EINVAL,
      offset := offset,
      within := within, long := by decide }
  buf := [0, 0]
  err := 0

theorem neutral_threeBytes : ((dce_pread 3 2 1 (.moves 2) (threeBytes 2 (by decide))).1.objects 0).offset = 2 ∧
      (dce_pread 3 2 1 (.moves 2) (threeBytes 2 (by decide))).1.buf = [2, 3] ∧
      (dce_lseek 3 (-1) SEEK_END (threeBytes 2 (by decide))).2 = 2 := by
  have all := neutral_iff (threeBytes 2 (by decide)) 3 0 rfl 2
  exact ⟨(all 1 SEEK_END (.moves 2)).1.mpr (.restored (by decide) rfl (by decide)), by decide,
    (all (-1) SEEK_END (.moves 2)).2.2.mpr (by decide)⟩

/-- A read that fails leaves the file at the place asked for, and beyond 2 GiB a seek returns another offset. -/
theorem not_neutral : ((dce_pread 3 2 0 (.fails EBADF) (threeBytes 2 (by decide))).1.objects 0).offset ≠ 2 ∧
      (dce_lseek 3 (2 ^ 31) SEEK_SET (threeBytes 2 (by decide))).2 ≠ 2 ^ 31 ∧
      ((dce_lseek 3 (2 ^ 31) SEEK_SET (threeBytes 2 (by decide))).1.objects 0).offset = 2 ^ 31 := by
  decide

end Dce.Positional
