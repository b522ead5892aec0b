import XPath.Token.Lexer
import Mathlib.Algebra.Order.Field.Basic
import Mathlib.Algebra.Order.Field.Rat
import Mathlib.Data.List.Induction
import Mathlib.Tactic.FieldSimp
import Mathlib.Tactic.Linarith
import Mathlib.Tactic.NormNum
import Mathlib.Tactic.Positivity
import Mathlib.Tactic.Ring

/-!
The numbers that decimals stand for: how they are ordered, which integers are among them, and how they are read from
digits.
-/
namespace XPath
namespace Lexer
variable {c : Char} {ds es : List Char}

/-! Digits. -/

theorem digitsValue_append (ds es : List Char) :
    digitsValue (ds ++ es) = digitsValue ds * 10 ^ es.length + digitsValue es := by
  induction es using List.reverseRecOn with
  | nil => simp [digitsValue]
  | append_singleton es c ih =>
    have hlast (fs : List Char) : digitsValue (fs ++ [c]) = digitsValue fs * 10 + (c.toNat - '0'.toNat) := by
      simp [digitsValue]
    rw [← List.append_assoc, hlast, hlast, ih, List.length_append, List.length_singleton, pow_succ]
    ring

theorem digitsValue_cons (c : Char) (ds : List Char) :
    digitsValue (c :: ds) = (c.toNat - '0'.toNat) * 10 ^ ds.length + digitsValue ds := by
  have happend := digitsValue_append [c] ds
  simpa [digitsValue] using happend

theorem toNat_sub_lt (h : c.isDigit) : c.toNat - '0'.toNat < 10 := by
  simp [Char.isDigit, UInt32.le_iff_toNat_le] at h
  have : c.toNat = c.val.toNat := rfl
  have : '0'.toNat = 48 := rfl
  omega

theorem digitsValue_lt (h : ∀ c ∈ ds, c.isDigit) : digitsValue ds < 10 ^ ds.length := by
  induction ds with
  | nil => simp [digitsValue]
  | cons c ds ih =>
    obtain ⟨hc, hds⟩ := List.forall_mem_cons.1 h
    have hdigit := toNat_sub_lt hc
    have hrest := ih hds
    rw [digitsValue_cons, List.length_cons, pow_succ]
    nlinarith

end Lexer

namespace Decimal
open Lexer

/-- The number that a decimal stands for. -/
def value (d : Decimal) : ℚ := d.signed / 10 ^ d.scale

theorem signed_eq (d : Decimal) : (d.signed : ℚ) = if d.negative then -(d.mantissa : ℚ) else d.mantissa := by
  unfold signed
  split <;> simp

theorem abs_value (d : Decimal) : |d.value| = d.mantissa / 10 ^ d.scale := by
  have hsigned : |(d.signed : ℚ)| = d.mantissa := by
    rw [signed_eq]
    split <;> simp
  rw [value, abs_div, hsigned, abs_of_pos (by positivity)]

theorem value_eq (d : Decimal) : d.value = if d.negative then -|d.value| else |d.value| := by
  rw [abs_value, value, signed_eq]
  split <;> ring

theorem value_eq_zero_iff {d : Decimal} : d.value = 0 ↔ d.isZero := by
  rw [← abs_eq_zero, abs_value, isZero, beq_iff_eq]
  simp

theorem eq_of_ofParts? {negative : Bool} {m s : ℕ} {d : Decimal} (h : ofParts? negative m s = some d) :
    d.negative = negative ∧ d.mantissa = m ∧ d.scale = s := by
  unfold ofParts? at h
  split at h
  · cases h
    exact ⟨rfl, rfl, rfl⟩
  · cases h

/-- Zeros at the end of a mantissa can be dropped, together with their places. -/
theorem div_pow_of_dvd {k m s : ℕ} (hk : k ≤ s) (hm : 10 ^ k ∣ m) :
    ((m / 10 ^ k : ℕ) : ℚ) / 10 ^ (s - k) = m / 10 ^ s := by
  obtain ⟨t, rfl⟩ := Nat.exists_eq_add_of_le hk
  obtain ⟨n, rfl⟩ := hm
  rw [Nat.mul_div_cancel_left _ (Nat.pow_pos (by decide)), Nat.add_sub_cancel_left, pow_add]
  push_cast
  field_simp

theorem signedAt_eq (d : Decimal) {scale : ℕ} (h : d.scale ≤ scale) :
    (d.signedAt scale : ℚ) = d.value * 10 ^ scale := by
  have hpow : (10 : ℚ) ^ scale = 10 ^ d.scale * 10 ^ (scale - d.scale) := by rw [← pow_add, Nat.add_sub_cancel' h]
  rw [signedAt, value, hpow, show pow10 (scale - d.scale) = 10 ^ (scale - d.scale) from rfl]
  push_cast
  field_simp

/-- Decimals are ordered as the numbers that they stand for. -/
theorem compare_eq (a b : Decimal) : a.compare b = Ord.compare a.value b.value := by
  have hcast : StrictMono ((↑) : ℤ → ℚ) := Int.cast_strictMono
  have hscale : StrictMono fun x : ℚ => x * 10 ^ max a.scale b.scale := fun x y hxy => by
    simpa using hxy
  calc a.compare b
      = cmp (a.signedAt (max a.scale b.scale)) (b.signedAt (max a.scale b.scale)) := (cmp_eq_compare _ _).symm
    _ = cmp (a.signedAt (max a.scale b.scale) : ℚ) (b.signedAt (max a.scale b.scale) : ℚ) := (hcast.cmp_map_eq _ _).symm
    _ = cmp a.value b.value := by
      rw [signedAt_eq a (le_max_left _ _), signedAt_eq b (le_max_right _ _)]
      exact hscale.cmp_map_eq _ _
    _ = Ord.compare a.value b.value := cmp_eq_compare _ _

/-- An integer that a decimal can hold becomes one of the same value. -/
theorem ofInt?_of_lt {i : ℤ} (h : i.natAbs < pow2 96) : ∃ d, ofInt? i = some d ∧ d.value = i := by
  have hparts : i.natAbs < pow2 96 ∧ 0 ≤ 28 := ⟨h, Nat.zero_le _⟩
  refine ⟨_, dif_pos hparts, ?_⟩
  have hsigned : signed ⟨i < 0, i.natAbs, 0, hparts.1, hparts.2⟩ = i := by
    simp only [signed, decide_eq_true_eq]
    split <;> omega
  rw [value, hsigned, pow_zero, div_one]

theorem ofInt?_of_le {i : ℤ} (h : pow2 96 ≤ i.natAbs) : ofInt? i = none :=
  dif_neg fun hparts => absurd hparts.1 h.not_gt

/-! Reading digits. -/

variable {ds rest : List Char} {m s M S : ℕ}

theorem ne_point (h : c.isDigit) : c ≠ '.' := by
  rintro rfl
  cases h

/-- Digits before the point are all read. -/
theorem readDigits_whole (hds : ∀ c ∈ ds, c.isDigit) (h : m * 10 ^ ds.length + digitsValue ds < limit) :
    readDigits (ds ++ rest) m s false = readDigits rest (m * 10 ^ ds.length + digitsValue ds) s false := by
  induction ds generalizing m with
  | nil => simp [digitsValue]
  | cons c ds ih =>
    obtain ⟨hc, hds⟩ := List.forall_mem_cons.1 hds
    have hvalue : m * 10 ^ (c :: ds).length + digitsValue (c :: ds) =
        (m * 10 + (c.toNat - '0'.toNat)) * 10 ^ ds.length + digitsValue ds := by
      rw [digitsValue_cons, List.length_cons, pow_succ]
      ring
    rw [hvalue] at h ⊢
    have hnext : ¬ limit ≤ m * 10 + (c.toNat - '0'.toNat) := by
      have hpow : 1 ≤ 10 ^ ds.length := Nat.one_le_pow _ _ (by decide)
      have hle := Nat.le_mul_of_pos_right (m * 10 + (c.toNat - '0'.toNat)) hpow
      omega
    rw [List.cons_append, readDigits, if_neg (ne_point hc), ← ih hds h]
    simp only [hc, Bool.not_true, Bool.false_and, Bool.false_eq_true, if_false, hnext]

/-- Where a number has a decimal, its digits are zeros from the place on where they do not fit. -/
theorem digits_of_full (hds : ∀ c ∈ ds, c.isDigit) (hM : M < limit) (hS : S ≤ 28)
    (hvalue : M * 10 ^ (s + ds.length) = (m * 10 ^ ds.length + digitsValue ds) * 10 ^ S)
    (hfull : 28 ≤ s ∨ limit * 10 ^ ds.length ≤ (m * 10 ^ ds.length + digitsValue ds) * 10) :
    S ≤ s ∧ digitsValue ds = 0 := by
  have hle : S ≤ s := by
    rcases hfull with hfull | hfull
    · omega
    · by_contra hlt
      have hpow : 10 ^ S = 10 * 10 ^ s * 10 ^ (S - (s + 1)) := by
        rw [← pow_succ', ← pow_add]
        congr 1
        omega
      have hlimit : limit * 10 ^ (s + ds.length) ≤ M * 10 ^ (s + ds.length) := calc
        limit * 10 ^ (s + ds.length) = limit * 10 ^ ds.length * 10 ^ s := by ring
        _ ≤ (m * 10 ^ ds.length + digitsValue ds) * 10 * 10 ^ s := Nat.mul_le_mul_right _ hfull
        _ ≤ (m * 10 ^ ds.length + digitsValue ds) * 10 * 10 ^ s * 10 ^ (S - (s + 1)) :=
          Nat.le_mul_of_pos_right _ (Nat.pow_pos (by decide))
        _ = M * 10 ^ (s + ds.length) := by
          rw [hvalue, hpow]
          ring
      exact absurd (Nat.le_of_mul_le_mul_right hlimit (Nat.pow_pos (by decide))) hM.not_ge
  obtain ⟨k, rfl⟩ := Nat.exists_eq_add_of_le hle
  have hcancel : M * 10 ^ k * 10 ^ ds.length = m * 10 ^ ds.length + digitsValue ds := by
    refine Nat.eq_of_mul_eq_mul_right (Nat.pow_pos (n := S) (show 0 < 10 by decide)) ?_
    rw [← hvalue]
    ring
  have hdvd : 10 ^ ds.length ∣ digitsValue ds :=
    (Nat.dvd_add_right (Dvd.intro_left m rfl)).1 (hcancel ▸ Dvd.intro_left _ rfl)
  exact ⟨hle, Nat.eq_zero_of_dvd_of_lt hdvd (digitsValue_lt hds)⟩

/-- Digits after the point are read as far as they fit; so a number that has a decimal is read exactly. -/
theorem readDigits_fraction (hds : ∀ c ∈ ds, c.isDigit) (hm : m < limit) (hs : s ≤ 28) (hM : M < limit) (hS : S ≤ 28)
    (hvalue : M * 10 ^ (s + ds.length) = (m * 10 ^ ds.length + digitsValue ds) * 10 ^ S) :
    ∃ m' s', readDigits ds m s true = some (m', s') ∧ m' < limit ∧ s' ≤ 28 ∧ M * 10 ^ s' = m' * 10 ^ S ∧
      (s + ds.length = S → s' = S) := by
  induction ds generalizing m s with
  | nil => exact ⟨m, s, rfl, hm, hs, by simpa [digitsValue] using hvalue, id⟩
  | cons c ds ih =>
    obtain ⟨hc, hrest⟩ := List.forall_mem_cons.1 hds
    have hnext : m * 10 ^ (c :: ds).length + digitsValue (c :: ds) =
        (m * 10 + (c.toNat - '0'.toNat)) * 10 ^ ds.length + digitsValue ds := by
      rw [digitsValue_cons, List.length_cons, pow_succ]
      ring
    rw [readDigits, if_neg (ne_point hc)]
    simp only [hc, Bool.not_true, Bool.false_eq_true, if_false, Bool.true_and]
    split
    · next hfull =>
      -- There is no room for the digit, and it is a zero.
      have hfull : 28 ≤ s ∨
          limit * 10 ^ (c :: ds).length ≤ (m * 10 ^ (c :: ds).length + digitsValue (c :: ds)) * 10 := by
        rcases Bool.or_eq_true_iff.1 hfull with hscale | hlimit
        · exact .inl (beq_iff_eq.1 hscale).ge
        · refine .inr ?_
          have := Nat.mul_le_mul_right (10 ^ ds.length) (of_decide_eq_true hlimit)
          rw [hnext, List.length_cons, pow_succ, ← mul_assoc]
          omega
      obtain ⟨hle, hzero⟩ := digits_of_full hds hM hS hvalue hfull
      have hdigit : c.toNat - '0'.toNat = 0 := by
        rw [digitsValue_cons] at hzero
        simpa using Nat.eq_zero_of_add_eq_zero_right hzero
      have hequal : M * 10 ^ s = m * 10 ^ S := by
        rw [hzero, Nat.add_zero] at hvalue
        refine Nat.eq_of_mul_eq_mul_right (Nat.pow_pos (n := (c :: ds).length) (show 0 < 10 by decide)) ?_
        rw [mul_assoc, ← pow_add, hvalue]
        ring
      rw [hdigit]
      refine ⟨m, s, rfl, hm, hs, hequal, fun hscale => ?_⟩
      rw [List.length_cons] at hscale
      omega
    · next hfit =>
      obtain ⟨hscale, hlimit⟩ := Bool.or_eq_false_iff.1 (Bool.eq_false_iff.2 hfit)
      have hs' : s + 1 ≤ 28 := Nat.lt_of_le_of_ne hs (beq_eq_false_iff_ne.1 hscale)
      have hm' := Nat.lt_of_not_le (of_decide_eq_false hlimit)
      have hlength : s + 1 + ds.length = s + (c :: ds).length := by
        rw [List.length_cons]
        omega
      rw [if_neg (of_decide_eq_false hlimit), ← hlength]
      rw [hnext, ← hlength] at hvalue
      exact ih hrest hm' hs' hvalue

theorem ofParts?_eq {m s : ℕ} (hm : m < limit) (hs : s ≤ 28) : ofParts? false m s = some ⟨false, m, s, hm, hs⟩ :=
  dif_pos ⟨hm, hs⟩

theorem parse?_of_digits {cs : List Char} (hsign : ∀ c ∈ cs.head?, c ≠ '-' ∧ c ≠ '+') (hdigit : ∃ c ∈ cs, c.isDigit) :
    parse? (String.ofList cs) = (readDigits cs 0 0 false).bind fun (m, s) => ofParts? false m s := by
  have hany : cs.any Char.isDigit = true := List.any_eq_true.2 hdigit
  rw [parse?, String.toList_ofList]
  split
  next negative digits hparts =>
    split at hparts
    · next rest => exact absurd rfl (hsign '-' rfl).1
    · next rest => exact absurd rfl (hsign '+' rfl).2
    · obtain ⟨rfl, rfl⟩ := Prod.mk.inj hparts
      simp [hany]

/-- A decimal that stands for a number of decimal places has no sign. -/
theorem mantissa_of_value {d : Decimal} {n k : ℕ} (h : d.value = n / 10 ^ k) :
    d.signed = d.mantissa ∧ d.mantissa * 10 ^ k = n * 10 ^ d.scale := by
  have hsigned : d.signed * 10 ^ k = (n * 10 ^ d.scale : ℕ) := by
    rw [value] at h
    field_simp at h
    rw [Nat.mul_comm]
    exact_mod_cast h
  have hpositive : d.signed = d.mantissa := by
    have hle : 0 ≤ d.signed := by
      refine nonneg_of_mul_nonneg_left ?_ (show (0 : ℤ) < 10 ^ k by positivity)
      rw [hsigned]
      exact Int.natCast_nonneg _
    unfold signed at hle ⊢
    split <;> simp_all
  refine ⟨hpositive, ?_⟩
  rw [hpositive] at hsigned
  exact_mod_cast hsigned

/-- The digits of a number that has a decimal are read as that number, and as the decimal itself where they are as many
after the point as it has places. -/
theorem parse?_digits {whole fraction : List Char} {d : Decimal} (hdigits : ∀ c ∈ whole ++ fraction, c.isDigit)
    (hne : whole ++ fraction ≠ []) (hvalue : d.value = digitsValue (whole ++ fraction) / 10 ^ fraction.length) :
    ∃ e, parse? (String.ofList (whole ++ '.' :: fraction)) = some e ∧ e.value = d.value ∧
      (d.negative = false → fraction.length = d.scale → e = d) := by
  have hten (n : ℕ) : 0 < 10 ^ n := Nat.pow_pos (by decide)
  obtain ⟨hpositive, hmantissa⟩ := mantissa_of_value hvalue
  obtain ⟨hwhole, hfraction⟩ := List.forall_mem_append.1 hdigits
  have hsplit : d.mantissa * 10 ^ (0 + fraction.length) =
      ((0 * 10 ^ whole.length + digitsValue whole) * 10 ^ fraction.length + digitsValue fraction) * 10 ^ d.scale := by
    rw [Nat.zero_mul, Nat.zero_add, Nat.zero_add, ← digitsValue_append, hmantissa]
  have hlt : 0 * 10 ^ whole.length + digitsValue whole < limit := by
    refine lt_of_le_of_lt ?_ d.mantissa_lt
    refine Nat.le_of_mul_le_mul_right ?_ (hten fraction.length)
    calc (0 * 10 ^ whole.length + digitsValue whole) * 10 ^ fraction.length
        ≤ digitsValue (whole ++ fraction) := by
          rw [digitsValue_append, Nat.zero_mul, Nat.zero_add]
          exact Nat.le_add_right _ _
      _ ≤ d.mantissa * 10 ^ fraction.length := hmantissa ▸ Nat.le_mul_of_pos_right _ (hten _)
  obtain ⟨m, s, hread, hm, hs, hequal, hscale⟩ :=
    readDigits_fraction hfraction hlt (Nat.zero_le _) d.mantissa_lt d.scale_le hsplit
  have hsign : ∀ c ∈ (whole ++ '.' :: fraction).head?, c ≠ '-' ∧ c ≠ '+' := by
    cases whole with
    | nil => simp
    | cons c whole =>
      have hc := (List.forall_mem_cons.1 hwhole).1
      rintro _ ⟨⟩
      constructor <;> (rintro rfl; cases hc)
  have hdigit : ∃ c ∈ whole ++ '.' :: fraction, c.isDigit := by
    obtain ⟨c, hc⟩ := List.exists_mem_of_ne_nil _ hne
    exact ⟨c, by simp at hc ⊢; tauto, hdigits c hc⟩
  refine ⟨⟨false, m, s, hm, hs⟩, ?_, ?_, fun hnegative hplaces => ?_⟩
  · rw [parse?_of_digits hsign hdigit, readDigits_whole hwhole hlt, readDigits, if_pos rfl, if_neg Bool.false_ne_true,
      hread]
    exact ofParts?_eq hm hs
  · have hrational : (d.mantissa : ℚ) * 10 ^ s = m * 10 ^ d.scale := mod_cast hequal
    simp only [value, hpositive]
    simp only [signed, Bool.false_eq_true, if_false]
    push_cast
    field_simp
    linarith
  · obtain rfl : s = d.scale := hscale ((Nat.zero_add _).trans hplaces)
    obtain rfl : d.mantissa = m := Nat.eq_of_mul_eq_mul_right (hten _) hequal
    cases d
    simp_all

end Decimal
end XPath
