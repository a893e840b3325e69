import Dce.Lib.CInt
import Mathlib.Data.List.Basic

/- Names of addresses, `dce_getnameinfo`. -/

namespace Dce.NetDb

/-- What `sa` points to: a `sockaddr_in` with its fields as they are in memory, or an address of another family. -/
inductive Sockaddr
  | inet (sin_port : UInt16) (sin_addr : UInt32)
  | other

def htons (x : UInt16) : UInt16 := x <<< 8 ||| x >>> 8

def htonl (x : UInt32) : UInt32 :=
  let middle : UInt32 := x <<< 8 &&& (0xff0000 : UInt32) ||| x >>> 8 &&& (0xff00 : UInt32)
  x <<< 24 ||| middle ||| x >>> 24

/-- What `snprintf (buffer, n, ..)` writes of a string with this text, its NUL included. It returns the length of the
text. -/
def snprintf (text : List Char) (n : Nat) : List Char := if n = 0 then [] else text.take (n - 1) ++ [Char.ofNat 0]

inductive Code
  | done
  | EAI_FAMILY
  | EAI_SYSTEM
  | EAI_OVERFLOW
  deriving DecidableEq

def EINVAL : Int := 22

/-- What a call returns, what it writes to the buffers (nothing to a null pointer), and the `err` of the thread. -/
structure Answer where
  returned : Code
  host : List Char
  serv : List Char
  err : Int

/-- Whether `r > (int) n` for the `r` of `snprintf`. -/
def Over (text : List Char) (n : UInt32) : Prop := CInt.toInt n.toNat < text.length

instance (text : List Char) (n : UInt32) : Decidable (Over text n) := inferInstanceAs (Decidable (_ < _))

def service (sin_port : UInt16) : List Char := Nat.toDigits 10 (htons sin_port).toNat

/-- `print` is the `Print` of an `Ipv4Address`. -/
def hostname (print : UInt32 → List Char) (sin_addr : UInt32) : List Char := print (htonl sin_addr)

section

variable (print : UInt32 → List Char)

/-- `host` and `serv` are the lengths of the buffers, and nothing for null pointers. What `snprintf` returns is not
negative here. -/
def dce_getnameinfo (sa : Option Sockaddr) (salen : UInt32) (host serv : Option UInt32) (_flags : UInt32)
    (err : Int) : Answer :=
  match sa with
  | none => ⟨.EAI_SYSTEM, [], [], EINVAL⟩
  | some sa =>
    if salen = 0 then ⟨.EAI_SYSTEM, [], [], EINVAL⟩
    else
      match sa with
      | .inet port addr =>
        if salen < 16 then ⟨.EAI_SYSTEM, [], [], EINVAL⟩
        else
          let s := serv.elim [] fun servlen => snprintf (service port) servlen.toNat
          if ∃ servlen ∈ serv, Over (service port) servlen then ⟨.EAI_OVERFLOW, [], s, err⟩
          else
            let h := host.elim [] fun hostlen => snprintf (hostname print addr) hostlen.toNat
            if ∃ hostlen ∈ host, Over (hostname print addr) hostlen then ⟨.EAI_OVERFLOW, h, s, err⟩
            else ⟨.done, h, s, err⟩
      | .other => ⟨.EAI_FAMILY, [], [], err⟩

/-- The address that the call takes. -/
def named : Option Sockaddr → UInt32 → Option (UInt16 × UInt32)
  | some (.inet port addr), salen => if salen < 16 then none else some (port, addr)
  | _, _ => none

/-- The text and its NUL fit in the buffer. -/
def Fits (text : List Char) (n : UInt32) : Prop := text.length + 1 ≤ n.toNat

instance (text : List Char) (n : UInt32) : Decidable (Fits text n) := inferInstanceAs (Decidable (_ ≤ _))

/-- All that is asked for fits. -/
def AllFit (a : UInt16 × UInt32) (host serv : Option UInt32) : Prop :=
  (∀ n ∈ serv, Fits (service a.1) n) ∧ ∀ n ∈ host, Fits (hostname print a.2) n

/-- The call does not truncate silently. -/
structure Honest (sa : Option Sockaddr) (salen : UInt32) (host serv : Option UInt32) (answer : Answer) : Prop where
  fits : answer.returned = .done → ∃ a ∈ named sa salen, AllFit print a host serv ∧
    (∀ n ∈ serv, answer.serv = service a.1 ++ [Char.ofNat 0]) ∧
    ∀ n ∈ host, answer.host = hostname print a.2 ++ [Char.ofNat 0]
  overflow : ∀ a ∈ named sa salen, ¬ AllFit print a host serv → answer.returned = .EAI_OVERFLOW
  bounded : answer.serv.length ≤ serv.elim 0 UInt32.toNat ∧ answer.host.length ≤ host.elim 0 UInt32.toNat

/-- Where the call returns 0 for this address, no buffer is as long as its text. -/
def NoExact (a : UInt16 × UInt32) (host serv : Option UInt32) : Prop :=
  (∃ n ∈ serv, Over (service a.1) n) ∨ (∃ n ∈ host, Over (hostname print a.2) n) ∨
    (∀ n ∈ serv, n.toNat ≠ (service a.1).length) ∧ ∀ n ∈ host, n.toNat ≠ (hostname print a.2).length

end

section

variable {text : List Char} {n : UInt32} {buffer : Option UInt32}

theorem length_snprintf_le (k : Nat) : (snprintf text k).length ≤ k := by
  unfold snprintf
  split
  · exact Nat.zero_le k
  · simp only [List.length_append, List.length_take, List.length_singleton]
    omega

theorem written_le : (buffer.elim [] fun k => snprintf text k.toNat).length ≤ buffer.elim 0 UInt32.toNat := by
  cases buffer with
  | none => exact le_refl 0
  | some k => exact length_snprintf_le k.toNat

theorem snprintf_eq (fits : Fits text n) : snprintf text n.toNat = text ++ [Char.ofNat 0] := by
  unfold Fits at fits
  rw [snprintf, if_neg (by omega), List.take_of_length_le (by omega)]

/-- A length that passes the test is that of the text or leaves room for the NUL. -/
theorem fits_iff (passed : ¬ Over text n) : Fits text n ↔ n.toNat ≠ text.length := by
  unfold Over CInt.toInt at passed
  unfold Fits
  rw [Int.bmod_def] at passed
  split at passed <;> omega

theorem all_fit_iff {print : UInt32 → List Char} {a : UInt16 × UInt32} {host serv : Option UInt32}
    (s : ¬ ∃ n ∈ serv, Over (service a.1) n) (h : ¬ ∃ n ∈ host, Over (hostname print a.2) n) :
    AllFit print a host serv ↔ NoExact print a host serv := by
  rw [NoExact, or_iff_right s, or_iff_right h]
  push Not at s h
  exact and_congr (forall₂_congr fun n inside => fits_iff (s n inside)) (forall₂_congr fun n inside =>
    fits_iff (h n inside))

end

/-- The call is honest exactly where it does not return 0 with a buffer that is as long as its text. -/
theorem getnameinfo_honest_iff (print : UInt32 → List Char) (sa : Option Sockaddr) (salen : UInt32)
    (host serv : Option UInt32)
    (flags : UInt32) (err : Int) :
    Honest print sa salen host serv (dce_getnameinfo print sa salen host serv flags err) ↔
      ∀ a ∈ named sa salen, NoExact print a host serv := by
  have refused (unnamed : named sa salen = none) (code : Code) (e : Int) (failed : code ≠ .done) :
      Honest print sa salen host serv ⟨code, [], [], e⟩ ↔ ∀ a ∈ named sa salen, NoExact print a host serv := by
    rw [unnamed]
    exact iff_of_true ⟨fun good => absurd good failed, by simp [unnamed], Nat.zero_le _, Nat.zero_le _⟩ nofun
  fun_cases dce_getnameinfo print sa salen host serv flags err with
  | case1 => exact refused rfl _ _ (by decide)
  | case2 sa zero => exact refused (by cases sa <;> simp [named, zero]) _ _ (by decide)
  | case3 _ port addr short => exact refused (if_pos short) _ _ (by decide)
  | case4 _ port addr long s past =>
    have here : named (some (.inet port addr)) salen = some (port, addr) := if_neg long
    rw [here]
    exact iff_of_true ⟨nofun, fun _ _ _ => rfl, written_le, Nat.zero_le _⟩ (by rintro _ ⟨⟩; exact .inl past)
  | case5 _ port addr long s passed h past =>
    have here : named (some (.inet port addr)) salen = some (port, addr) := if_neg long
    rw [here]
    exact iff_of_true ⟨nofun, fun _ _ _ => rfl, written_le, written_le⟩ (by rintro _ ⟨⟩; exact .inr (.inl past))
  | case6 _ port addr long s passed h passed' =>
    have here : named (some (.inet port addr)) salen = some (port, addr) := if_neg long
    have exactly : AllFit print (port, addr) host serv ↔ NoExact print (port, addr) host serv :=
      all_fit_iff passed passed'
    rw [here]
    constructor
    · rintro honest _ ⟨⟩
      obtain ⟨_, same, all, _⟩ := honest.fits rfl
      cases here.symm.trans same
      exact exactly.mp all
    · intro good
      have all := exactly.mpr (good _ rfl)
      refine ⟨fun _ => ⟨_, here, all, ?_, ?_⟩, fun a same rest => ?_, written_le, written_le⟩
      · rintro n ⟨⟩
        exact snprintf_eq (all.1 n rfl)
      · rintro n ⟨⟩
        exact snprintf_eq (all.2 n rfl)
      · cases here.symm.trans same
        exact absurd all rest
  | case7 => exact refused rfl _ _ (by decide)

/-- A buffer of two bytes for the port 80 gets `8`, and 0 is returned. -/
theorem not_honest : ¬ Honest (fun _ => "0.0.0.0".toList) (some (.inet 0x5000 0)) 16 none (some 2)
    (dce_getnameinfo (fun _ => "0.0.0.0".toList) (some (.inet 0x5000 0)) 16 none (some 2) 0 0) := by
  intro honest
  obtain ⟨_, ⟨⟩, all, _⟩ := honest.fits (by decide)
  exact absurd (all.1 2 rfl) (by decide)

end Dce.NetDb
