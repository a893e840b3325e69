import Mathlib.Data.List.Basic
import Mathlib.Tactic.IntervalCases

/- `JsonEscape` of `pamptcp-report.cc`, and how JSON reads its strings. -/

namespace Dce.Report

open List

/-- A `std::ostringstream`: what was written, and what the manipulators have set. -/
structure Stream where
  written : List UInt8
  hex : Bool
  width : Nat
  fill : UInt8

/-- Where no manipulator is in force. -/
def Stream.plain (written : List UInt8) : Stream := ⟨written, false, 0, 0x20⟩

/-- A field is filled on the left up to the width, which is 0 then. -/
def put (text : List UInt8) (oss : Stream) : Stream :=
  { oss with written := oss.written ++ replicate (oss.width - text.length) oss.fill ++ text, width := 0 }

def putInt (n : Nat) (oss : Stream) : Stream :=
  put ((Nat.toDigits (if oss.hex then 16 else 10) n).map Char.toUInt8) oss

/-- One turn of the loop. -/
def escapeChar (oss : Stream) (c : UInt8) : Stream :=
  if c = '\"'.toUInt8 then put ['\\'.toUInt8, '\"'.toUInt8] oss
  else if c = '\\'.toUInt8 then put ['\\'.toUInt8, '\\'.toUInt8] oss
  else if c = 8 then put ['\\'.toUInt8, 'b'.toUInt8] oss
  else if c = 12 then put ['\\'.toUInt8, 'f'.toUInt8] oss
  else if c = '\n'.toUInt8 then put ['\\'.toUInt8, 'n'.toUInt8] oss
  else if c = '\r'.toUInt8 then put ['\\'.toUInt8, 'r'.toUInt8] oss
  else if c = '\t'.toUInt8 then put ['\\'.toUInt8, 't'.toUInt8] oss
  else if c < 0x20 then
    let oss := { put ['\\'.toUInt8, 'u'.toUInt8] oss with hex := true, width := 4, fill := '0'.toUInt8 }
    { putInt c.toNat oss with hex := false, fill := 0x20 }
  else put [c] oss

def JsonEscape (text : List UInt8) : List UInt8 := (text.foldl escapeChar (.plain [])).written

/-- A byte, or the 16 bits of a `\u`. -/
inductive Token
  | byte (c : UInt8)
  | unit (n : Nat)

def hexValue (d : UInt8) : Option Nat :=
  if '0'.toUInt8 ≤ d ∧ d ≤ '9'.toUInt8 then some (d.toNat - 48)
  else if 'a'.toUInt8 ≤ d ∧ d ≤ 'f'.toUInt8 then some (d.toNat - 87)
  else if 'A'.toUInt8 ≤ d ∧ d ≤ 'F'.toUInt8 then some (d.toNat - 55)
  else none

def codeUnit (a b c d : UInt8) : Option Nat := do
  pure ((((← hexValue a) * 16 + (← hexValue b)) * 16 + (← hexValue c)) * 16 + (← hexValue d))

/-- What a character behind a backslash stands for. -/
def short (e : UInt8) : Option UInt8 :=
  if e = '\"'.toUInt8 ∨ e = '\\'.toUInt8 ∨ e = '/'.toUInt8 then some e
  else if e = 'b'.toUInt8 then some 8
  else if e = 'f'.toUInt8 then some 12
  else if e = 'n'.toUInt8 then some 10
  else if e = 'r'.toUInt8 then some 13
  else if e = 't'.toUInt8 then some 9
  else none

/-- What is between the quotes of a string. There is nothing where a control character or a quote is not
escaped, or where an escape is not complete. -/
def tokens : List UInt8 → Option (List Token)
  | [] => some []
  | 0x5c :: 0x75 :: a :: b :: c :: d :: text => (codeUnit a b c d).bind fun n => (tokens text).map (.unit n :: ·)
  | 0x5c :: e :: text => (short e).bind fun c => (tokens text).map (.byte c :: ·)
  | c :: text => if c < 0x20 ∨ c = 0x22 ∨ c = 0x5c then none else (tokens text).map (.byte c :: ·)

def utf8 (n : Nat) : List UInt8 := String.utf8EncodeChar (Char.ofNat n)

/-- The text in UTF-8. There is none where a surrogate is without its other half. -/
def join : List Token → Option (List UInt8)
  | [] => some []
  | .byte c :: rest => (join rest).map (c :: ·)
  | .unit high :: rest =>
    if high < 0xD800 ∨ 0xDFFF < high then (join rest).map (utf8 high ++ ·)
    else
      match rest with
      | .unit low :: rest =>
        if high < 0xDC00 ∧ 0xDC00 ≤ low ∧ low ≤ 0xDFFF then
          (join rest).map (utf8 (0x10000 + (high - 0xD800) * 0x400 + (low - 0xDC00)) ++ ·)
        else none
      | _ => none

def decode (text : List UInt8) : Option (List UInt8) := (tokens text).bind join

/-- What should hold of the escape of a text. -/
structure RoundTrip (s : List UInt8) : Prop where
  visible : ∀ b ∈ JsonEscape s, 0x20 ≤ b
  decodes : decode (JsonEscape s) = some s

variable {c : UInt8} {written text : List UInt8}

/-- What is written for `c`, whatever was written before. -/
def escaped (c : UInt8) : List UInt8 := (escapeChar (.plain []) c).written

theorem put_plain : put text (.plain written) = .plain (written ++ text) := by
  unfold put Stream.plain
  simp

theorem escapeChar_plain : escapeChar (.plain written) c = .plain (written ++ escaped c) := by
  unfold escaped escapeChar
  simp only [put_plain, nil_append, apply_ite Stream.written]
  split_ifs <;> simp [Stream.plain, putInt, put]

theorem foldl_escapeChar (s : List UInt8) : s.foldl escapeChar (.plain written) =
    .plain (written ++ s.flatMap escaped) := by
  induction s generalizing written with
  | nil => simp
  | cons c s ih => rw [foldl_cons, escapeChar_plain, ih, flatMap_cons, append_assoc]

theorem utf8_control {n : Nat} (control : n < 32) : utf8 n = [UInt8.ofNat n] := by
  interval_cases n <;> decide

set_option maxRecDepth 2000 in
/-- A byte is written as one token that stands for it, without a control character. -/
theorem escaped_token (c : UInt8) : (∀ b ∈ escaped c, 0x20 ≤ b) ∧ ∃ token,
    (∀ rest, tokens (escaped c ++ rest) = (tokens rest).map (token :: ·)) ∧
    ∀ l, join (token :: l) = (join l).map (c :: ·) := by
  by_cases plain : 0x20 ≤ c ∧ c ≠ 0x22 ∧ c ≠ 0x5c
  · obtain ⟨visible, noQuote, noBackslash⟩ := plain
    have written : escaped c = [c] := by
      have ne : ∀ d : UInt8, d < 0x20 → c ≠ d := fun d small same => absurd small (UInt8.not_lt.mpr (same ▸ visible))
      unfold escaped escapeChar
      rw [if_neg (show c ≠ '\"'.toUInt8 from noQuote), if_neg (show c ≠ '\\'.toUInt8 from noBackslash),
        if_neg (ne _ (by decide)), if_neg (ne _ (by decide)), if_neg (ne _ (by decide)), if_neg (ne _ (by decide)),
        if_neg (ne _ (by decide)), if_neg (UInt8.not_lt.mpr visible)]
      rfl
    rw [written]
    refine ⟨fun b mem => mem_singleton.mp mem ▸ visible, .byte c, fun rest => ?_, fun l => rfl⟩
    rw [singleton_append, tokens]
    · rw [if_neg (by simp [noQuote, noBackslash, UInt8.not_lt.mpr visible])]
    · exact fun _ _ _ _ _ same => absurd same noBackslash
    · exact fun _ _ same => absurd same noBackslash
  · have codes : c.toNat < 32 ∨ c.toNat = 34 ∨ c.toNat = 92 := by
      by_contra wrong
      refine plain ⟨UInt8.le_iff_toNat_le.mpr ?_, fun same => ?_, fun same => ?_⟩
      · exact Nat.le_of_not_lt fun small => wrong (.inl small)
      · exact wrong (.inr (.inl (same ▸ rfl)))
      · exact wrong (.inr (.inr (same ▸ rfl)))
    obtain ⟨n, rfl, special⟩ : ∃ n, c = UInt8.ofNat n ∧ (n < 32 ∨ n = 34 ∨ n = 92) := ⟨c.toNat, by simp, codes⟩
    clear plain codes
    rcases special with small | rfl | rfl
    · refine ⟨?_, if n ∈ [8, 9, 10, 12, 13] then .byte (UInt8.ofNat n) else .unit n, fun rest => ?_, fun l => ?_⟩
      · interval_cases n <;> decide
      · interval_cases n <;> rfl
      · split
        · rfl
        · have one : join (.unit n :: l) = (join l).map (utf8 n ++ ·) :=
            (join.eq_def _).trans (if_pos (.inl (by omega)))
          rw [one, utf8_control small]
          rfl
    · exact ⟨by decide, .byte 34, fun _ => rfl, fun _ => rfl⟩
    · exact ⟨by decide, .byte 92, fun _ => rfl, fun _ => rfl⟩

theorem roundTrip (s : List UInt8) : RoundTrip s := by
  have result : JsonEscape s = s.flatMap escaped := congrArg Stream.written (foldl_escapeChar s)
  refine ⟨fun b member => ?_, ?_⟩
  · rw [result] at member
    obtain ⟨c, -, inside⟩ := mem_flatMap.mp member
    exact (escaped_token c).1 b inside
  · rw [result]
    clear result
    induction s with
    | nil => rfl
    | cons c s ih =>
      obtain ⟨-, token, first, joins⟩ := escaped_token c
      obtain ⟨l, rest, joined⟩ := Option.bind_eq_some_iff.mp ih
      rw [flatMap_cons, decode, first, rest, Option.map_some, Option.bind_some, joins, joined]
      rfl

end Dce.Report
