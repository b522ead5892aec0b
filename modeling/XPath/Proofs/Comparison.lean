import XPath.Atomic.Compare
import XPath.Proofs.Decimals

/-!
Comparing exact numbers. Integers and decimals stand for rational numbers, and a value comparison of two of them tells
how these are ordered, unless a decimal is compared with an integer that no decimal can hold.
-/
namespace XPath

namespace ComparisonOp
variable {α : Type} [LinearOrder α]

/-- What the operator says of two values that are ordered. -/
def Holds (op : ComparisonOp) (x y : α) : Prop :=
  match op with
  | eq => x = y
  | ne => x ≠ y
  | lt => x < y
  | le => x ≤ y
  | gt => y < x
  | ge => y ≤ x

instance (op : ComparisonOp) (x y : α) : Decidable (op.Holds x y) :=
  match op with
  | eq => inferInstanceAs (Decidable (x = y))
  | ne => inferInstanceAs (Decidable (x ≠ y))
  | lt => inferInstanceAs (Decidable (x < y))
  | le => inferInstanceAs (Decidable (x ≤ y))
  | gt => inferInstanceAs (Decidable (y < x))
  | ge => inferInstanceAs (Decidable (y ≤ x))

theorem holds_inverse (op : ComparisonOp) (x y : α) : op.inverse.Holds y x ↔ op.Holds x y := by
  cases op <;> simp [inverse, Holds, eq_comm]

/-- Testing the order of two values tells what the operator says of them. -/
theorem test_compare (op : ComparisonOp) (x y : α) : op.test (Ord.compare x y) ↔ op.Holds x y := by
  rcases lt_trichotomy x y with h | rfl | h
  · rw [compare_lt_iff_lt.2 h]
    cases op <;> simp [test, Holds, h, h.le, h.ne, h.not_gt]
  · rw [compare_eq_iff_eq.2 rfl]
    cases op <;> simp [test, Holds]
  · rw [compare_gt_iff_gt.2 h]
    cases op <;> simp [test, Holds, h, h.le, h.ne', h.not_gt]

end ComparisonOp

namespace Atomic
variable {a b : Atomic} {x y : ℚ}

/-- The number that an integer or a decimal stands for. -/
def exactValue? : Atomic → Option ℚ
  | integer _ i => some i
  | decimal d => some d.value
  | _ => none

/-- Two integers, two decimals, or a decimal and an integer that a decimal can hold. -/
def Comparable : Atomic → Atomic → Prop
  | integer _ i, decimal _ | decimal _, integer _ i => i.natAbs < pow2 96
  | _, _ => True

instance (a b : Atomic) : Decidable (a.Comparable b) := by
  unfold Comparable
  split <;> infer_instance

theorem comparable_comm (a b : Atomic) : a.Comparable b ↔ b.Comparable a := by
  cases a <;> cases b <;> rfl

/-- Numbers that are comparable are brought to a common type in which they have the order of the numbers. -/
theorem promote_of_comparable (ha : a.exactValue? = some x) (hb : b.exactValue? = some y) (h : a.Comparable b) :
    ∃ a' b', promote a b = .ok (a', b') ∧ order? a' b' = some (some (compare x y)) := by
  cases a <;> cases b <;> cases ha <;> cases hb
  case integer.integer t i u j =>
    have hcast : compare i j = compare (i : ℚ) j := by
      rw [← cmp_eq_compare, ← cmp_eq_compare, Int.cast_strictMono.cmp_map_eq]
    exact ⟨_, _, rfl, hcast ▸ rfl⟩
  case integer.decimal t i d =>
    obtain ⟨e, he, hvalue⟩ := Decimal.ofInt?_of_lt h
    refine ⟨decimal e, decimal d, ?_, ?_⟩
    · simp only [promote, toDecimal, he]
      rfl
    · rw [← hvalue, ← Decimal.compare_eq]
      rfl
  case decimal.integer d t i =>
    obtain ⟨e, he, hvalue⟩ := Decimal.ofInt?_of_lt h
    refine ⟨decimal d, decimal e, ?_, ?_⟩
    · simp only [promote, toDecimal, he]
      rfl
    · rw [← hvalue, ← Decimal.compare_eq]
      rfl
  case decimal.decimal d e =>
    refine ⟨_, _, rfl, ?_⟩
    rw [← Decimal.compare_eq]
    rfl

theorem promote_of_not_comparable (ha : a.exactValue? = some x) (hb : b.exactValue? = some y) (h : ¬ a.Comparable b) :
    promote a b = .error .decimalTooLarge := by
  have hnone {i : ℤ} (hi : ¬ i.natAbs < pow2 96) := Decimal.ofInt?_of_le (Nat.le_of_not_lt hi)
  cases a <;> cases b <;> cases ha <;> cases hb
  case integer.integer | decimal.decimal => exact absurd trivial h
  case integer.decimal t i d =>
    simp only [promote, toDecimal, hnone h]
    rfl
  case decimal.integer d t i =>
    simp only [promote, toDecimal, hnone h]
    rfl

theorem untypedToString_of_exact (ha : a.exactValue? = some x) : a.untypedToString = a := by
  cases a <;> first | rfl | cases ha

theorem compareValues_eq (op : ComparisonOp) (ha : a.exactValue? = some x) (hb : b.exactValue? = some y) :
    compareValues op a b = if a.Comparable b then .ok (decide (op.Holds x y)) else .error .decimalTooLarge := by
  rw [compareValues, untypedToString_of_exact ha, untypedToString_of_exact hb]
  split
  · next h =>
    obtain ⟨a', b', hpromote, horder⟩ := promote_of_comparable ha hb h
    have htest : op.test (compare x y) = decide (op.Holds x y) := by
      rw [Bool.eq_iff_iff, decide_eq_true_iff, op.test_compare]
    simp only [hpromote, bind, Except.bind, horder, htest]
  · next h =>
    rw [promote_of_not_comparable ha hb h]
    rfl

/-- A value comparison of two exact numbers is an exact one, or it fails because an integer is too large for a
decimal; and with the operands swapped the inverse operator gives the same answer. -/
theorem compareValues_exact (op : ComparisonOp) (ha : a.exactValue? = some x) (hb : b.exactValue? = some y) :
    compareValues op a b = (if a.Comparable b then .ok (decide (op.Holds x y)) else .error .decimalTooLarge) ∧
      compareValues op.inverse b a = compareValues op a b := by
  refine ⟨compareValues_eq op ha hb, ?_⟩
  rw [compareValues_eq op ha hb, compareValues_eq op.inverse hb ha]
  simp only [comparable_comm b a, op.holds_inverse]

/-- The largest mantissa at the largest scale is less than eight. -/
theorem compareValues_exact_largest :
    let a := decimal ⟨false, 79228162514264337593543950335, 28, by decide, by decide⟩
    let b := integer .long 8
    a.exactValue? = some (79228162514264337593543950335 / 10 ^ 28) ∧ b.exactValue? = some 8 ∧ a.Comparable b ∧
      compareValues .lt a b = .ok true ∧ compareValues .gt b a = .ok true := by
  intro a b
  have ha : a.exactValue? = some (79228162514264337593543950335 / 10 ^ 28) := by
    simp [a, exactValue?, Decimal.value, Decimal.signed]
  have hb : b.exactValue? = some 8 := rfl
  have hcomparable : a.Comparable b := by decide
  obtain ⟨hlt, hgt⟩ := compareValues_exact .lt ha hb
  have hholds : ComparisonOp.Holds .lt (79228162514264337593543950335 / 10 ^ 28 : ℚ) 8 := by
    norm_num [ComparisonOp.Holds]
  rw [if_pos hcomparable, decide_eq_true hholds] at hlt
  exact ⟨ha, hb, hcomparable, hlt, hgt.trans hlt⟩

/-- An integer that no decimal can hold is greater than one half, but the two do not compare. -/
theorem compareValues_too_large :
    let a := integer .integer (2 ^ 96)
    let b := decimal ⟨false, 5, 1, by decide, by decide⟩
    a.exactValue? = some (2 ^ 96) ∧ b.exactValue? = some (5 / 10) ∧ ComparisonOp.Holds .gt (2 ^ 96 : ℚ) (5 / 10) ∧
      compareValues .gt a b = .error .decimalTooLarge := by
  refine ⟨by norm_num [exactValue?], by simp [exactValue?, Decimal.value, Decimal.signed], ?_, by decide⟩
  norm_num [ComparisonOp.Holds]

end Atomic
end XPath
