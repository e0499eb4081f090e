import Mathlib.Algebra.Ring.Nat
import Mathlib.Data.List.Induction
import Mathlib.Tactic.Common

/-!
# Decimal representations of fixed width

A number is written with a fixed count of digits, the most significant one first.  Numbers that fit
are read back.
-/

namespace Decimal

/-- The digit of a number below ten. -/
def digit (n : Nat) : UInt8 := UInt8.ofNat (48 + n % 10)

/-- The last `width` digits of a number, with zeros in front. -/
def digits : Nat → Nat → List UInt8
  | 0, _ => []
  | width + 1, n => digits width (n / 10) ++ [digit n]

/-- Whether a byte is a digit. -/
def isDigit (byte : UInt8) : Bool := decide (48 ≤ byte.toNat) && decide (byte.toNat ≤ 57)

/-- The number that digits write. -/
def parse (bytes : List UInt8) : Nat := bytes.foldl (fun n byte => 10 * n + (byte.toNat - 48)) 0

variable {width n : Nat} {bytes : List UInt8}

/-- There are as many digits as are asked for. -/
@[simp] theorem length_digits (width n : Nat) : (digits width n).length = width := by
  induction width generalizing n with
  | zero => rfl
  | succ width ih => rw [digits, List.length_append, ih, List.length_singleton]

/-- A digit is the last one of its number. -/
theorem toNat_digit (n : Nat) : (digit n).toNat = 48 + n % 10 := by
  rw [digit, UInt8.toNat_ofNat']
  omega

/-- The digits are the bytes from 48 to 57. -/
theorem isDigit_iff {byte : UInt8} : isDigit byte = true ↔ 48 ≤ byte.toNat ∧ byte.toNat ≤ 57 := by
  rw [isDigit, Bool.and_eq_true, decide_eq_true_iff, decide_eq_true_iff]

/-- Digits are digits. -/
theorem isDigit_of_mem_digits {byte : UInt8} (h : byte ∈ digits width n) : isDigit byte = true := by
  induction width generalizing n with
  | zero => cases h
  | succ width ih =>
    rcases List.mem_append.mp h with h | h
    · exact ih h
    · obtain rfl := List.mem_singleton.mp h
      rw [isDigit_iff, toNat_digit]
      omega

/-- One more digit counts for itself and moves the others up. -/
theorem parse_concat (bytes : List UInt8) (byte : UInt8) :
    parse (bytes ++ [byte]) = 10 * parse bytes + (byte.toNat - 48) := by
  rw [parse, List.foldl_append]
  rfl

/-- A number that fits is read back. -/
theorem parse_digits (h : n < 10 ^ width) : parse (digits width n) = n := by
  induction width generalizing n with
  | zero =>
    rw [Nat.pow_zero, Nat.lt_one_iff] at h
    rw [h]
    rfl
  | succ width ih =>
    have hless : n / 10 < 10 ^ width := by
      rw [Nat.pow_succ] at h
      omega
    rw [digits, parse_concat, ih hless, toNat_digit]
    omega

end Decimal
