import Mathlib.Order.Basic
import Mathlib.Order.MinMax
import Mathlib.Tactic

/-!
# Fixed-width machine integers

A machine integer is an integer together with the proof that it lies between the bounds of its
type.  Arithmetic on machine integers is checked: `ofInt?` narrows a mathematical integer and
fails exactly when the value is out of range, and every checked operation is `ofInt?` of the
exact mathematical result.  Since the value is carried in `ℤ`, sums and differences of machine
integers of different widths can be compared without conversions.
-/

/-- The integers between `lo` and `hi`, both included. -/
abbrev BoundedInt (lo hi : ℤ) := {x : ℤ // lo ≤ x ∧ x ≤ hi}

namespace BoundedInt

variable {lo hi lo' hi' : ℤ}

/-- Machine integers are ordered by their values. -/
instance : LinearOrder (BoundedInt lo hi) := @Subtype.instLinearOrder ℤ Int.instLinearOrder _

instance (a b : BoundedInt lo hi) : Decidable (a < b) := inferInstanceAs (Decidable (a.val < b.val))

instance (a b : BoundedInt lo hi) : Decidable (a ≤ b) := inferInstanceAs (Decidable (a.val ≤ b.val))

/-- Narrow a mathematical integer, failing when it is out of range. -/
def ofInt? (x : ℤ) : Option (BoundedInt lo hi) :=
  if h : lo ≤ x ∧ x ≤ hi then some ⟨x, h⟩ else none

/-- Checked addition. -/
def checkedAdd (a b : BoundedInt lo hi) : Option (BoundedInt lo hi) := ofInt? (a.val + b.val)

/-- Checked subtraction. -/
def checkedSub (a b : BoundedInt lo hi) : Option (BoundedInt lo hi) := ofInt? (a.val - b.val)

/-- Checked negation. -/
def checkedNeg (a : BoundedInt lo hi) : Option (BoundedInt lo hi) := ofInt? (-a.val)

/-- Checked conversion between integer types. -/
def tryFrom (a : BoundedInt lo hi) : Option (BoundedInt lo' hi') := ofInt? a.val

/-- Narrowing succeeds exactly with the machine integer of the given value. -/
@[simp] theorem ofInt?_eq_some {x : ℤ} {y : BoundedInt lo hi} : ofInt? x = some y ↔ x = y.val := by
  unfold ofInt?
  split
  · simp only [Option.some.injEq, Subtype.ext_iff]
  · rename_i h
    simp only [reduceCtorEq, false_iff]
    rintro rfl
    exact h y.property

/-- Narrowing fails exactly when the value is out of range. -/
theorem ofInt?_eq_none {x : ℤ} :
    (ofInt? x : Option (BoundedInt lo hi)) = none ↔ ¬(lo ≤ x ∧ x ≤ hi) := by
  unfold ofInt?
  split <;> simp_all

/-- Narrowing an in-range value. -/
theorem ofInt?_of_mem {x : ℤ} (h : lo ≤ x ∧ x ≤ hi) :
    (ofInt? x : Option (BoundedInt lo hi)) = some ⟨x, h⟩ := by
  simp

/-- Narrowing the value of a machine integer gives it back. -/
@[simp] theorem ofInt?_val (x : BoundedInt lo hi) : ofInt? x.val = some x := by simp

/-- A checked sum is the sum. -/
@[simp] theorem checkedAdd_eq_some {a b c : BoundedInt lo hi} :
    checkedAdd a b = some c ↔ a.val + b.val = c.val := ofInt?_eq_some

/-- A checked difference is the difference. -/
@[simp] theorem checkedSub_eq_some {a b c : BoundedInt lo hi} :
    checkedSub a b = some c ↔ a.val - b.val = c.val := ofInt?_eq_some

/-- A checked negative is the negative. -/
@[simp] theorem checkedNeg_eq_some {a c : BoundedInt lo hi} :
    checkedNeg a = some c ↔ -a.val = c.val := ofInt?_eq_some

/-- A converted integer has the same value. -/
@[simp] theorem tryFrom_eq_some {a : BoundedInt lo hi} {c : BoundedInt lo' hi'} :
    tryFrom a = some c ↔ a.val = c.val := ofInt?_eq_some

/-- The value of a smaller machine integer is smaller. -/
theorem val_lt_val {a b : BoundedInt lo hi} : a.val < b.val ↔ a < b := Iff.rfl

/-- The order is that of the values. -/
theorem val_le_val {a b : BoundedInt lo hi} : a.val ≤ b.val ↔ a ≤ b := Iff.rfl

/-- The value of a minimum. -/
@[simp] theorem val_min (a b : BoundedInt lo hi) : (min a b).val = min a.val b.val := by
  rcases le_total a b with h | h
  · rw [min_eq_left h, min_eq_left (val_le_val.mpr h)]
  · rw [min_eq_right h, min_eq_right (val_le_val.mpr h)]

/-- The value of a maximum. -/
@[simp] theorem val_max (a b : BoundedInt lo hi) : (max a b).val = max a.val b.val := by
  rcases le_total a b with h | h
  · rw [max_eq_right h, max_eq_right (val_le_val.mpr h)]
  · rw [max_eq_left h, max_eq_left (val_le_val.mpr h)]

end BoundedInt

/-- A signed 64-bit integer. -/
abbrev I64 := BoundedInt (-9223372036854775808) 9223372036854775807

/-- A signed 128-bit integer. -/
abbrev I128 := BoundedInt (-170141183460469231731687303715884105728)
  170141183460469231731687303715884105727

/-- An unsigned 32-bit integer. -/
abbrev U32 := BoundedInt 0 4294967295

/-- An unsigned 64-bit integer. -/
abbrev U64 := BoundedInt 0 18446744073709551615

/-- An unsigned 128-bit integer. -/
abbrev U128 := BoundedInt 0 340282366920938463463374607431768211455

/-! ## Small numbers -/

/-- Zero is in range. -/
theorem I64.zero_range : -9223372036854775808 ≤ (0 : ℤ) ∧ (0 : ℤ) ≤ 9223372036854775807 := by decide

/-- Zero is in range. -/
theorem I128.zero_range : -170141183460469231731687303715884105728 ≤ (0 : ℤ) ∧
    (0 : ℤ) ≤ 170141183460469231731687303715884105727 := by decide

/-- Zero is in range. -/
theorem U64.zero_range : (0 : ℤ) ≤ 0 ∧ (0 : ℤ) ≤ 18446744073709551615 := by decide

/-- One is in range. -/
theorem U64.one_range : (0 : ℤ) ≤ 1 ∧ (1 : ℤ) ≤ 18446744073709551615 := by decide

/-- Only the largest value has no successor. -/
theorem U64.checkedAdd_one_eq_none {a : U64} :
    a.checkedAdd ⟨1, one_range⟩ = none ↔ a.val = 18446744073709551615 := by
  have hrange := a.property
  rw [BoundedInt.checkedAdd, BoundedInt.ofInt?_eq_none]
  dsimp only
  omega

/-- One is not zero. -/
theorem U64.one_ne_zero : ((⟨1, one_range⟩ : U64)).val ≠ 0 := by decide

/-- Zero is in range. -/
theorem U128.zero_range : (0 : ℤ) ≤ 0 ∧ (0 : ℤ) ≤ 340282366920938463463374607431768211455 := by decide

/-- One is in range. -/
theorem U128.one_range : (0 : ℤ) ≤ 1 ∧ (1 : ℤ) ≤ 340282366920938463463374607431768211455 := by decide

/-- Two is in range. -/
theorem U128.two_range : (0 : ℤ) ≤ 2 ∧ (2 : ℤ) ≤ 340282366920938463463374607431768211455 := by decide
