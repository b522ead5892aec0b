import XPath.Atomic.Arithmetic
import XPath.Proofs.Comparison
import XPath.Proofs.Quotients
import Mathlib.Data.Rat.Floor

/-!
The division law. The remainder of two exact numbers is exact, and the quotient of two integers is the exact one
without its fraction. The quotient of decimals is rounded before it loses its fraction, so it is the exact one unless
the rounding reaches the next integer.
-/
namespace XPath

/-- A number without its fraction. -/
def integerPart (x : ℚ) : ℤ := if x < 0 then ⌈x⌉ else ⌊x⌋

section
variable {x y z : ℚ} {i j : ℤ}

theorem integerPart_eq (hx : x = i + z) (hz : |z| < 1) (hsign : 0 ≤ z * x) : integerPart x = i := by
  obtain ⟨hlow, hhigh⟩ := abs_lt.1 hz
  unfold integerPart
  split
  · next hneg =>
    have hz' : z ≤ 0 := nonpos_of_mul_nonneg_left hsign hneg
    rw [Int.ceil_eq_iff]
    constructor <;> linarith
  · next hnonneg =>
    rw [Int.floor_eq_iff]
    rcases (not_lt.1 hnonneg).eq_or_lt with rfl | hpos
    · have hbetween : (-1 : ℚ) < i ∧ (i : ℚ) < 1 := by constructor <;> linarith
      obtain rfl : i = 0 := by
        norm_cast at hbetween
        omega
      norm_num
    · have hz' : 0 ≤ z := nonneg_of_mul_nonneg_left hsign hpos
      constructor <;> linarith

theorem tmod_mul_self_nonneg (i j : ℤ) : 0 ≤ i.tmod j * i := by
  rcases le_total 0 i with hi | hi
  · exact mul_nonneg (Int.tmod_nonneg j hi) hi
  · have hneg := Int.tmod_nonneg j (neg_nonneg.2 hi)
    rw [Int.neg_tmod] at hneg
    exact mul_nonneg_of_nonpos_of_nonpos (neg_nonneg.1 hneg) hi

theorem abs_tmod_lt (i : ℤ) (hj : j ≠ 0) : |i.tmod j| < |j| := by
  rw [Int.abs_eq_natAbs, Int.abs_eq_natAbs, Int.natAbs_tmod]
  exact_mod_cast Nat.mod_lt _ (Int.natAbs_pos.2 hj)

/-- The remainder has the sign of the dividend. -/
theorem tmod_eq (i j : ℤ) :
    i.tmod j = if i < 0 then -((i.natAbs % j.natAbs : ℕ) : ℤ) else (i.natAbs % j.natAbs : ℕ) := by
  have hsize := Int.natAbs_tmod i j
  split
  · next hneg =>
    have hsign := nonpos_of_mul_nonneg_left (tmod_mul_self_nonneg i j) hneg
    omega
  · next hnonneg =>
    have hsign := Int.tmod_nonneg j (not_lt.1 hnonneg)
    omega

theorem integerPart_div (i : ℤ) (hj : j ≠ 0) : integerPart (i / j) = i.tdiv j := by
  have hj' : (j : ℚ) ≠ 0 := mod_cast hj
  have hdivide : (j : ℚ) * i.tdiv j + i.tmod j = i := mod_cast Int.mul_tdiv_add_tmod i j
  refine integerPart_eq (z := i.tmod j / j) ?_ ?_ ?_
  · field_simp
    linarith
  · rw [abs_div, div_lt_one (abs_pos.2 hj')]
    exact_mod_cast abs_tmod_lt i hj
  · have hnonneg : (0 : ℚ) ≤ i.tmod j * i := mod_cast tmod_mul_self_nonneg i j
    rw [div_mul_div_comm]
    exact div_nonneg hnonneg (mul_self_nonneg _)

/-- Numbers with a common denominator are divided as their numerators are. -/
theorem division_of_common {c : ℚ} (hc : 0 < c) (hx : x * c = i) (hy : y * c = j) (hz : z * c = i.tmod j) (hj : j ≠ 0) :
    x = integerPart (x / y) * y + z ∧ |z| < |y| ∧ (z = 0 ∨ 0 < z * x) := by
  have hquotient : x / y = i / j := by rw [← hx, ← hy, mul_div_mul_right _ _ hc.ne']
  have hdivide : (j : ℚ) * i.tdiv j + i.tmod j = i := mod_cast Int.mul_tdiv_add_tmod i j
  rw [hquotient, integerPart_div i hj]
  refine ⟨?_, ?_, ?_⟩
  · rw [← hx, ← hy, ← hz] at hdivide
    refine mul_right_cancel₀ hc.ne' ?_
    linarith
  · have hlt : |(i.tmod j : ℚ)| < |(j : ℚ)| := mod_cast abs_tmod_lt i hj
    rw [← hz, ← hy, abs_mul, abs_mul, abs_of_pos hc] at hlt
    exact lt_of_mul_lt_mul_right hlt hc.le
  · have hnonneg : (0 : ℚ) ≤ i.tmod j * i := mod_cast tmod_mul_self_nonneg i j
    rw [← hx, ← hz, mul_mul_mul_comm] at hnonneg
    have hnonneg' : 0 ≤ z * x := nonneg_of_mul_nonneg_left hnonneg (by positivity)
    refine hnonneg'.eq_or_lt.imp_left fun hzero => ?_
    rcases mul_eq_zero.1 hzero.symm with hz0 | hx0
    · exact hz0
    · rw [hx0, zero_mul] at hx
      obtain rfl : i = 0 := mod_cast hx.symm
      simpa [hc.ne'] using hz

theorem integerPart_eq_floor (x : ℚ) : integerPart x = if x < 0 then -(⌊|x|⌋₊ : ℤ) else ⌊|x|⌋₊ := by
  rw [integerPart, Int.natCast_floor_eq_floor (abs_nonneg x)]
  split
  · next hneg => rw [abs_of_neg hneg, Int.floor_neg, neg_neg]
  · next hnonneg => rw [abs_of_nonneg (not_lt.1 hnonneg)]

/-- A rounded number loses its fraction as the exact one does, unless it is rounded to the next integer. -/
theorem integerPart_of_rounds {v : ℚ} (h : Decimal.RoundsTo |x| |v|) (hsign : 0 ≤ v * x) :
    integerPart v = integerPart x ↔ ¬ Decimal.RoundsTo |x| (⌊|x|⌋₊ + 1) := by
  have hbetween : (⌊|x|⌋₊ : ℚ) ≤ |v| ∧ |v| ≤ ⌊|x|⌋₊ + 1 := by
    obtain ⟨s, n, hrounds, hv⟩ := h
    have hlow : ⌊|x|⌋₊ * 10 ^ s ≤ n := hrounds.nearest.le (by
      push_cast
      exact mul_le_mul_of_nonneg_right (Nat.floor_le (abs_nonneg x)) (by positivity))
    have hhigh : n ≤ (⌊|x|⌋₊ + 1) * 10 ^ s := hrounds.nearest.ge (by
      push_cast
      exact mul_le_mul_of_nonneg_right (Nat.lt_floor_add_one |x|).le (by positivity))
    rw [hv, le_div_iff₀ (by positivity), div_le_iff₀ (by positivity)]
    exact_mod_cast And.intro hlow hhigh
  by_cases hnext : |v| = ⌊|x|⌋₊ + 1
  · have hfloor : ⌊|v|⌋₊ = ⌊|x|⌋₊ + 1 := by
      rw [hnext]
      exact_mod_cast Nat.floor_natCast (⌊|x|⌋₊ + 1)
    rw [integerPart_eq_floor, integerPart_eq_floor x, hfloor]
    refine iff_of_false (fun heq => ?_) (not_not.2 (hnext ▸ h))
    split at heq <;> split at heq <;> omega
  · have hfloor : ⌊|v|⌋₊ = ⌊|x|⌋₊ :=
      (Nat.floor_eq_iff (abs_nonneg v)).2 ⟨hbetween.1, lt_of_le_of_ne hbetween.2 hnext⟩
    rw [integerPart_eq_floor, integerPart_eq_floor x, hfloor]
    refine iff_of_true ?_ fun hrounds => hnext (h.unique hrounds)
    by_cases hzero : ⌊|x|⌋₊ = 0
    · rw [hzero, Nat.cast_zero, neg_zero, ite_self, ite_self]
    · -- Neither number is zero, so they have the same sign.
      have hx : x ≠ 0 := by
        rintro rfl
        exact hzero (by simp)
      have hv : v ≠ 0 := by
        rintro rfl
        exact hzero (by rw [← hfloor]; simp)
      rcases mul_pos_iff.1 (lt_of_le_of_ne hsign (mul_ne_zero hv hx).symm) with ⟨hv, hx⟩ | ⟨hv, hx⟩
      · rw [if_neg hv.not_gt, if_neg hx.not_gt]
      · rw [if_pos hv, if_pos hx]

/-- The quotient of two integers is rounded to the next integer only if the first is large. -/
theorem not_roundsTo_next (hi : |i| < 10 ^ 28) (hj : j ≠ 0) :
    ¬ Decimal.RoundsTo |(i / j : ℚ)| (⌊|(i / j : ℚ)|⌋₊ + 1) := by
  rintro ⟨s, n, hrounds, hn⟩
  have hI : |(i : ℚ)| < 10 ^ 28 := mod_cast hi
  have hJ : 0 < |(j : ℚ)| := abs_pos.2 (mod_cast hj)
  have hpow : (1 : ℚ) ≤ 10 ^ s := one_le_pow₀ (by norm_num)
  have hfull := hrounds.full
  have hnear := (abs_le.1 hrounds.nearest.near).1
  rw [show (n : ℚ) = (⌊|(i / j : ℚ)|⌋₊ + 1) * 10 ^ s by rw [hn]; field_simp] at hnear
  have hfloor := Nat.lt_floor_add_one |(i / j : ℚ)|
  have hnonneg := abs_nonneg (i / j : ℚ)
  have hproduct : |(i / j : ℚ)| * |(j : ℚ)| = |(i : ℚ)| := by
    rw [abs_div]
    field_simp
  generalize |(i / j : ℚ)| = u at *
  -- The numerator is at least one unit below the next multiple of the denominator.
  have hunit : |(i : ℚ)| + 1 ≤ (⌊u⌋₊ + 1) * |(j : ℚ)| := by
    have hlt : |(i : ℚ)| < (⌊u⌋₊ + 1) * |(j : ℚ)| := hproduct ▸ mul_lt_mul_of_pos_right hfloor hJ
    exact_mod_cast Int.add_one_le_iff.2 (show |i| < ((⌊u⌋₊ : ℤ) + 1) * |j| by exact_mod_cast hlt)
  have hden : 2 * 10 ^ s ≤ |(j : ℚ)| := by
    have hclose : ((⌊u⌋₊ + 1) * |(j : ℚ)| - |(i : ℚ)|) * 10 ^ s ≤ |(j : ℚ)| * (1 / 2) := by
      rw [← hproduct]
      nlinarith
    nlinarith
  rcases hfull with rfl | hfull
  · have hhalf : 1 / 2 ≤ u := by
      have hfloor' : (0 : ℚ) ≤ ⌊u⌋₊ := Nat.cast_nonneg _
      nlinarith
    have hnum : |(j : ℚ)| / 2 ≤ |(i : ℚ)| := by
      rw [← hproduct]
      nlinarith
    rw [show Decimal.maxScale = 28 from rfl] at hden
    linarith
  · have hlimit : (Decimal.limit : ℚ) = 79228162514264337593543950336 := mod_cast Decimal.limit_eq
    have hscaled : u * (2 * 10 ^ s) ≤ |(i : ℚ)| := hproduct ▸ mul_le_mul_of_nonneg_left hden hnonneg
    rw [pow_succ] at hfull
    linarith

end

namespace Decimal
variable {a b d : Decimal}

theorem truncate_eq (d : Decimal) : d.truncate = integerPart d.value := by
  have hpow : (10 : ℤ) ^ d.scale ≠ 0 := by positivity
  have hvalue : d.value = (d.signed : ℚ) / ((10 ^ d.scale : ℤ) : ℚ) := by
    rw [value]
    push_cast
    rfl
  rw [hvalue, integerPart_div _ hpow, truncate, signed, pow10_eq]
  split
  · rw [Int.neg_tdiv]
    rfl
  · rfl

theorem signedAt_neg_iff (a : Decimal) (scale : ℕ) : a.signedAt scale < 0 ↔ a.negative ∧ ¬ a.isZero := by
  have hpow : (0 : ℤ) < pow10 (scale - a.scale) := mod_cast Nat.pow_pos (by decide)
  rw [signedAt, ← not_le, mul_nonneg_iff_of_pos_right hpow, signed, isZero, beq_iff_eq]
  split <;> simp_all

/-- The remainder of decimals, at their common scale, is that of the mantissas. -/
theorem rem?_eq {scale : ℕ} (hscale : max a.scale b.scale = scale) (h : a.rem? b = some d) :
    b.value ≠ 0 ∧ d.value * 10 ^ scale = (a.signedAt scale).tmod (b.signedAt scale) := by
  unfold rem? at h
  split at h
  · cases h
  next hb =>
  refine ⟨fun hzero => hb (value_eq_zero_iff.1 hzero), ?_⟩
  have hvalue := a.signedAt_eq (hscale ▸ le_max_left a.scale b.scale)
  have hsign := a.signedAt_neg_iff scale
  rw [tmod_eq]
  split at h
  · next ha =>
    cases h
    rw [value_eq_zero_iff.2 ha, zero_mul] at hvalue
    simp [value_eq_zero_iff.2 (rfl : isZero zero), show a.signedAt scale = 0 from mod_cast hvalue]
  next ha =>
  rw [hscale] at h
  dsimp only at h
  split at h
  · next heq =>
    cases h
    simp [value_eq_zero_iff.2 (rfl : isZero zero), heq]
  split at h
  · next hlt =>
    cases h
    rw [← hvalue, Nat.mod_eq_of_lt hlt]
    refine congrArg Int.cast ?_
    split <;> omega
  · obtain ⟨hnegative, hmantissa, rfl⟩ := eq_of_ofParts? h
    rw [value, div_mul_cancel₀ _ (by positivity), signed, hnegative, hmantissa]
    refine congrArg Int.cast ?_
    by_cases hneg : a.signedAt d.scale < 0
    · rw [if_pos hneg, (hsign.1 hneg).1]
      cases hmod : (a.signedAt d.scale).natAbs % (b.signedAt d.scale).natAbs <;> simp
    · have hpositive : a.negative = false := by
        by_contra hnegative
        exact hneg (hsign.2 ⟨by simpa using hnegative, ha⟩)
      simp [if_neg hneg, hpositive]

end Decimal

namespace Atomic
variable {a b q r v : Atomic} {x y : ℚ} {op : ArithmeticOp}

/-- Two integers, which are not brought to decimals. -/
def AreIntegers : Atomic → Atomic → Prop
  | integer .., integer .. => True
  | _, _ => False

/-- Exact numbers are computed with as integers, or else as decimals of the same values. -/
theorem arithmetic_exact (ha : a.exactValue? = some x) (hb : b.exactValue? = some y) (h : arithmetic op a b = .ok v) :
    (a.AreIntegers b ∧ ∃ i j : ℤ, x = i ∧ y = j ∧ integerArithmetic op i j = .ok v) ∨
      (¬ a.AreIntegers b ∧ ∃ d e, d.value = x ∧ e.value = y ∧ decimalArithmetic op d e = .ok v) := by
  have huntyped {c : Atomic} {z : ℚ} (hc : c.exactValue? = some z) : c.untypedToDouble = .ok c := by
    cases c <;> first | rfl | cases hc
  rw [arithmetic, huntyped ha, huntyped hb] at h
  change (promote a b >>= _) = _ at h
  have hcomparable : a.Comparable b := by
    by_contra hnot
    rw [promote_of_not_comparable ha hb hnot] at h
    cases h
  cases a <;> cases b <;> cases ha <;> cases hb
  case integer.integer t i u j => exact .inl ⟨trivial, i, j, rfl, rfl, h⟩
  case integer.decimal t i d =>
    obtain ⟨e, he, hvalue⟩ := Decimal.ofInt?_of_lt hcomparable
    have hpromote : promote (integer t i) (decimal d) = .ok (decimal e, decimal d) := by
      simp only [promote, toDecimal, he]
      rfl
    rw [hpromote] at h
    exact .inr ⟨id, e, d, hvalue, rfl, h⟩
  case decimal.integer d t i =>
    obtain ⟨e, he, hvalue⟩ := Decimal.ofInt?_of_lt hcomparable
    have hpromote : promote (decimal d) (integer t i) = .ok (decimal d, decimal e) := by
      simp only [promote, toDecimal, he]
      rfl
    rw [hpromote] at h
    exact .inr ⟨id, d, e, rfl, hvalue, h⟩
  case decimal.decimal d e => exact .inr ⟨id, d, e, rfl, rfl, h⟩

theorem exists_of_map_orElse {α : Type} {o : Option α} {e : ErrorCode} {f : α → Atomic}
    (h : (orElse e o).map f = .ok v) : ∃ z, o = some z ∧ f z = v := by
  cases o with
  | none => cases h
  | some z => exact ⟨z, rfl, Except.ok.inj h⟩

theorem modulo_exact (ha : a.exactValue? = some x) (hb : b.exactValue? = some y) (h : arithmetic .modulo a b = .ok r) :
    y ≠ 0 ∧ ∃ z, r.exactValue? = some z ∧ x = integerPart (x / y) * y + z ∧ |z| < |y| ∧ (z = 0 ∨ 0 < z * x) := by
  obtain ⟨-, i, j, rfl, rfl, h⟩ | ⟨-, d, e, rfl, rfl, h⟩ := arithmetic_exact ha hb h
  · simp only [integerArithmetic] at h
    split at h
    · cases h
    · next hj =>
      cases h
      refine ⟨mod_cast hj, _, rfl, ?_⟩
      exact division_of_common (c := 1) one_pos (mul_one _) (mul_one _) (mul_one _) hj
  · simp only [decimalArithmetic] at h
    split at h
    · cases h
    · obtain ⟨z, hrem, rfl⟩ := exists_of_map_orElse h
      obtain ⟨hzero, hvalue⟩ := Decimal.rem?_eq rfl hrem
      refine ⟨hzero, z.value, rfl, ?_⟩
      have hd := d.signedAt_eq (le_max_left d.scale e.scale)
      have he := e.signedAt_eq (le_max_right d.scale e.scale)
      refine division_of_common (by positivity) hd.symm he.symm hvalue fun hj => hzero ?_
      rw [hj, Int.cast_zero] at he
      simpa using he.symm

/-- The quotient is the exact one without its fraction, unless decimals are divided and the rounding reaches the next
integer. -/
theorem integerDivide_exact (ha : a.exactValue? = some x) (hb : b.exactValue? = some y)
    (h : arithmetic .integerDivide a b = .ok q) : ∃ i, q = ofInt i ∧
      (i = integerPart (x / y) ↔ a.AreIntegers b ∨ ¬ Decimal.RoundsTo |x / y| (⌊|x / y|⌋₊ + 1)) := by
  obtain ⟨hintegers, i, j, rfl, rfl, h⟩ | ⟨hmixed, d, e, rfl, rfl, h⟩ := arithmetic_exact ha hb h
  · simp only [integerArithmetic] at h
    split at h
    · cases h
    · next hj =>
      cases h
      exact ⟨_, rfl, iff_of_true (integerPart_div i hj).symm (.inl hintegers)⟩
  · simp only [decimalArithmetic] at h
    split at h
    · cases h
    · obtain ⟨z, hdiv, rfl⟩ := exists_of_map_orElse h
      obtain ⟨hrounds, hsign⟩ := Decimal.div?_rounds hdiv
      refine ⟨_, rfl, ?_⟩
      rw [Decimal.truncate_eq, integerPart_of_rounds hrounds hsign, or_iff_right hmixed]

/-- The division law. The remainder is exact: it is less than the divisor, has the sign of the dividend and is what
the exact quotient without its fraction leaves. So the law holds of the quotient exactly if that is the exact one
without its fraction, which it is unless decimals are divided and the rounding reaches the next integer; and it is as
long as the dividend is less than `10 ^ 28` units of a scale that both operands have. -/
theorem division_law (ha : a.exactValue? = some x) (hb : b.exactValue? = some y)
    (hq : arithmetic .integerDivide a b = .ok q) (hr : arithmetic .modulo a b = .ok r) : y ≠ 0 ∧
    ∃ i z, q = ofInt i ∧ r.exactValue? = some z ∧ x = integerPart (x / y) * y + z ∧ |z| < |y| ∧ (z = 0 ∨ 0 < z * x) ∧
      (x = i * y + z ↔ i = integerPart (x / y)) ∧
      (i = integerPart (x / y) ↔ a.AreIntegers b ∨ ¬ Decimal.RoundsTo |x / y| (⌊|x / y|⌋₊ + 1)) ∧
      ∀ {scale : ℕ} {m n : ℤ}, x * 10 ^ scale = m → y * 10 ^ scale = n → |m| < 10 ^ 28 → i = integerPart (x / y) := by
  obtain ⟨hy, z, hz, hlaw, hlt, hsign⟩ := modulo_exact ha hb hr
  obtain ⟨i, rfl, hi⟩ := integerDivide_exact ha hb hq
  refine ⟨hy, i, z, rfl, hz, hlaw, hlt, hsign, ?_, hi, fun hm hn hsmall => hi.2 (.inr ?_)⟩
  · constructor
    · intro heq
      have hproduct : (i : ℚ) * y = integerPart (x / y) * y := by linarith
      exact_mod_cast mul_right_cancel₀ hy hproduct
    · rintro rfl
      exact hlaw
  · have hpow : ∀ k : ℕ, (10 : ℚ) ^ k ≠ 0 := fun k => by positivity
    rw [← mul_div_mul_right x y (hpow _), hm, hn]
    refine not_roundsTo_next hsmall fun hzero => ?_
    rw [hzero, Int.cast_zero] at hn
    exact hy (by simpa using hn)

/-- Seven and a half by minus two. -/
theorem division_law_mixed :
    let a := decimal ⟨false, 75, 1, by decide, by decide⟩
    let b := integer .byte (-2)
    let r := decimal ⟨false, 15, 1, by decide, by decide⟩
    arithmetic .integerDivide a b = .ok (ofInt (-3)) ∧ arithmetic .modulo a b = .ok r ∧
      integerPart (75 / 10 / -2) = -3 ∧ (75 / 10 : ℚ) = -3 * -2 + 15 / 10 := by
  intro a b r
  have ha : a.exactValue? = some (75 / 10) := by simp [a, exactValue?, Decimal.value, Decimal.signed]
  have hb : b.exactValue? = some (-2) := by norm_num [b, exactValue?]
  have hq : arithmetic .integerDivide a b = .ok (ofInt (-3)) := by decide +kernel
  have hr : arithmetic .modulo a b = .ok r := by decide +kernel
  obtain ⟨-, i, z, hi, hz, -, -, -, hlaw, -, hsmall⟩ := division_law ha hb hq hr
  obtain rfl : i = -3 := by
    cases hi
    rfl
  obtain rfl : z = 15 / 10 := by
    have hr' : r.exactValue? = some (15 / 10) := by simp [r, exactValue?, Decimal.value, Decimal.signed]
    exact Option.some.inj (hz.symm.trans hr')
  have hexact := hsmall (show (75 / 10 : ℚ) * 10 ^ 1 = (75 : ℤ) by norm_num)
    (show (-2 : ℚ) * 10 ^ 1 = (-20 : ℤ) by norm_num) (by decide)
  refine ⟨hq, hr, hexact.symm, ?_⟩
  have hsum := hlaw.2 hexact
  exact_mod_cast hsum

/-- The largest mantissa by eight: the quotient has seven eighths, and is rounded up. -/
theorem division_rounds_up :
    let a := decimal ⟨false, 79228162514264337593543950335, 0, by decide, by decide⟩
    let b := decimal ⟨false, 8, 0, by decide, by decide⟩
    a.exactValue? = some 79228162514264337593543950335 ∧ b.exactValue? = some 8 ∧
      arithmetic .integerDivide a b = .ok (ofInt 9903520314283042199192993792) ∧
      arithmetic .modulo a b = .ok (decimal ⟨false, 7, 0, by decide, by decide⟩) ∧
      integerPart (79228162514264337593543950335 / 8) = 9903520314283042199192993791 ∧
      (79228162514264337593543950335 : ℚ) ≠ 9903520314283042199192993792 * 8 + 7 ∧
      arithmetic .integerDivide (ofInt 79228162514264337593543950335) (ofInt 8) =
        .ok (ofInt 9903520314283042199192993791) := by
  refine ⟨?_, ?_, by decide +kernel, by decide +kernel, ?_, by norm_num, by decide +kernel⟩
  · simp [exactValue?, Decimal.value, Decimal.signed]
  · simp [exactValue?, Decimal.value, Decimal.signed]
  · exact integerPart_eq (z := 7 / 8) (by norm_num) (by norm_num) (by norm_num)

end Atomic

end XPath
