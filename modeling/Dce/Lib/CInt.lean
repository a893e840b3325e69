import Mathlib.Algebra.Order.Ring.Int

/- The conversions between the integer types of C on a machine with an `int` of 32 bits and a `long` of 64. -/

namespace CInt

/-- To `int`. -/
def toInt (x : Int) : Int := x.bmod (2 ^ 32)

/-- To `long`. -/
def toLong (x : Int) : Int := x.bmod (2 ^ 64)

/-- To `size_t`. -/
def toSize (x : Int) : Nat := (x % 2 ^ 64).toNat

variable {x y : Int}

theorem toInt_bounds (x : Int) : -2 ^ 31 ≤ toInt x ∧ toInt x < 2 ^ 31 := by
  have lower : -(2 ^ 32 : Nat) / 2 ≤ toInt x := Int.le_bmod (by decide)
  have upper : toInt x < ((2 ^ 32 : Nat) + 1) / 2 := Int.bmod_lt (by decide)
  constructor <;> omega

theorem toInt_eq (lower : -2 ^ 31 ≤ x) (upper : x < 2 ^ 31) : toInt x = x :=
  Int.bmod_eq_of_le (by omega) (by omega)

theorem toInt_eq_iff : toInt x = x ↔ -2 ^ 31 ≤ x ∧ x < 2 ^ 31 := by
  constructor
  · have bounds := toInt_bounds x
    omega
  · exact fun ⟨lower, upper⟩ => toInt_eq lower upper

theorem toInt_congr (same : x % 2 ^ 32 = y % 2 ^ 32) : toInt x = toInt y := by
  have eq : (x % (2 ^ 32 : Nat)).bmod (2 ^ 32) = (y % (2 ^ 32 : Nat)).bmod (2 ^ 32) :=
    congrArg (Int.bmod · (2 ^ 32)) same
  rwa [Int.emod_bmod, Int.emod_bmod] at eq

theorem toInt_emod (x : Int) : toInt x % 2 ^ 32 = x % 2 ^ 32 := Int.bmod_emod

theorem toInt_toLong (x : Int) : toInt (toLong x) = toInt x := by
  refine toInt_congr ?_
  have wide : toLong x % 2 ^ 64 = x % 2 ^ 64 := Int.bmod_emod
  omega

theorem toInt_toSize (x : Int) : toInt (toSize x : Int) = toInt x := by
  refine toInt_congr ?_
  unfold toSize
  omega

theorem toSize_eq {n : Nat} (short : n < 2 ^ 64) : toSize n = n := by
  unfold toSize
  omega

theorem toSize_sub {n k : Nat} (fits : k ≤ n) (short : n < 2 ^ 64) : toSize ((n : Int) - k) = n - k := by
  have cast : (n : Int) - k = (n - k : Nat) := by omega
  rw [cast, toSize_eq (by omega)]

theorem toSize_of_neg (lower : -2 ^ 32 ≤ x) (neg : x < 0) : 2 ^ 63 ≤ toSize x := by
  have moved : x % 2 ^ 64 = x + 2 ^ 64 := by omega
  rw [toSize]
  omega

theorem toSize_lt (x : Int) : toSize x < 2 ^ 64 := by
  unfold toSize
  omega

end CInt
