import XPath.Proofs.Decimals

/-!
Quotients of decimals. A quotient is the exact one, rounded at the largest scale at which it fits. Long division finds
it because at every step the digits so far and the remainder make up the exact quotient.
-/
namespace XPath.Decimal
variable {x y z : ℚ} {m n s t : ℕ}

theorem limit_eq : limit = 79228162514264337593543950336 := rfl

/-- The integer next to a number, and the even one of two. -/
structure IsNearest (x : ℚ) (n : ℕ) : Prop where
  near : |x - n| ≤ 1 / 2
  even : |x - n| = 1 / 2 → Even n

namespace IsNearest

theorem natCast (n : ℕ) : IsNearest n n := by
  constructor <;> norm_num

theorem le (h : IsNearest x n) (hm : (m : ℚ) ≤ x) : m ≤ n := by
  have hnear := (abs_le.1 h.near).2
  have hlt : (m : ℚ) < n + 1 := by linarith
  exact Nat.lt_succ_iff.1 (mod_cast hlt)

theorem ge (h : IsNearest x n) (hm : x ≤ m) : n ≤ m := by
  have hnear := (abs_le.1 h.near).1
  have hlt : (n : ℚ) < m + 1 := by linarith
  exact Nat.lt_succ_iff.1 (mod_cast hlt)

/-- An integer plus a proper fraction goes up to the next integer where the fraction is more than a half, or a half
above an odd one. -/
theorem of_fraction {f : ℚ} (hf : 0 ≤ f) (hf' : f < 1) (up : Bool) (hup : up ↔ 1 / 2 < f ∨ f = 1 / 2 ∧ ¬ Even m) :
    IsNearest (m + f) (if up then m + 1 else m) := by
  cases up with
  | true =>
    have hdistance : (m : ℚ) + f - (m + 1 : ℕ) = -(1 - f) := by
      push_cast
      ring
    rw [if_pos rfl]
    constructor <;> rw [hdistance, abs_neg, abs_of_nonneg (by linarith)]
    · obtain h | ⟨h, -⟩ := hup.1 rfl <;> linarith
    · intro hhalf
      obtain h | ⟨-, hodd⟩ := hup.1 rfl
      · linarith
      · exact Nat.even_add_one.2 hodd
  | false =>
    have hdown : ¬ (1 / 2 < f ∨ f = 1 / 2 ∧ ¬ Even m) := fun h => Bool.false_ne_true (hup.2 h)
    push Not at hdown
    rw [if_neg Bool.false_ne_true]
    constructor <;> rw [add_sub_cancel_left, abs_of_nonneg hf]
    exacts [hdown.1, hdown.2]

theorem unique (h : IsNearest x m) (h' : IsNearest x n) : m = n := by
  wlog hlt : m < n generalizing m n
  · exact (Nat.lt_or_eq_of_le (Nat.le_of_not_lt hlt)).elim (fun hlt => (this h' h hlt).symm) Eq.symm
  -- Both are as far as possible from the number, so both are even.
  have hm := (abs_le.1 h.near).2
  have hn := (abs_le.1 h'.near).1
  have hnext : n = m + 1 := by
    refine Nat.le_antisymm (Nat.lt_succ_iff.1 ?_) hlt
    have : (n : ℚ) < m + 1 + 1 := by linarith
    exact mod_cast this
  subst hnext
  push_cast at hn
  have hmeven := h.even (by rw [abs_of_nonneg] <;> linarith)
  have hneven := h'.even (by push_cast; rw [abs_of_nonpos] <;> linarith)
  exact absurd hmeven (Nat.even_add_one.1 hneven)

/-- Half a unit below the limit is too much, since the limit is even. -/
theorem lt_of_fits (h : IsNearest x n) (hn : n < limit) : x < limit - 1 / 2 := by
  have hnear := (abs_le.1 h.near).2
  have hfits : (n : ℚ) + 1 ≤ limit := mod_cast hn
  refine lt_of_le_of_ne (by linarith) fun heq => ?_
  have hlast : n + 1 = limit := by
    refine Nat.le_antisymm hn ?_
    have : (limit : ℚ) ≤ n + 1 := by linarith
    exact mod_cast this
  have hsum : (n : ℚ) + 1 = limit := mod_cast hlast
  have heven := h.even (by rw [heq, ← hsum, abs_of_nonneg] <;> linarith)
  exact absurd (hlast ▸ Nat.even_add_one.not.2 (not_not.2 heven)) (by decide)

end IsNearest

/-! When a fraction is more than a half, or a half. -/

section Half
variable {den digit r : ℕ} {f : ℚ} {inexact odd : Bool}

theorem half_lt_div (hden : 0 < den) : 1 / 2 < (r : ℚ) / den ↔ den < 2 * r := by
  rw [lt_div_iff₀ (Nat.cast_pos.2 hden), ← Nat.cast_lt (α := ℚ)]
  push_cast
  constructor <;> intro <;> linarith

theorem div_eq_half (hden : 0 < den) : (r : ℚ) / den = 1 / 2 ↔ 2 * r = den := by
  rw [div_eq_iff (Nat.cast_ne_zero.2 hden.ne'), ← Nat.cast_inj (R := ℚ)]
  push_cast
  constructor <;> intro <;> linarith

/-- A digit and the fraction of it that was cut off. -/
theorem half_of_digit (hf : 0 ≤ f) (hf' : f < 1) (hinexact : inexact ↔ f ≠ 0) :
    (5 < digit || (digit == 5 && (inexact || odd))) = true ↔
      1 / 2 < (digit + f) / 10 ∨ (digit + f) / 10 = 1 / 2 ∧ odd := by
  rcases lt_trichotomy digit 5 with hless | rfl | hmore
  · have hless' : (digit : ℚ) ≤ 4 := mod_cast Nat.le_of_lt_succ hless
    have hbelow : (digit + f) / 10 < 1 / 2 := by linarith
    exact iff_of_false (by simp [hless.le.not_gt, hless.ne]) (by rintro (h | ⟨h, -⟩) <;> linarith)
  · have hhalf : 1 / 2 < ((5 : ℕ) + f) / 10 ↔ f ≠ 0 := by
      rw [← hf.lt_iff_ne']
      constructor <;> intro <;> linarith
    have htie : ((5 : ℕ) + f) / 10 = 1 / 2 ↔ f = 0 := by
      constructor <;> intro <;> linarith
    rw [hhalf, htie]
    by_cases hzero : f = 0 <;> simp [hinexact, hzero]
  · have hmore' : (6 : ℚ) ≤ digit := mod_cast hmore
    have habove : 1 / 2 < (digit + f) / 10 := by linarith
    exact iff_of_true (by simp [hmore]) (.inl habove)

end Half

/-- What stands for a number at a scale: the mantissa is rounded, and at a larger scale it would not fit. -/
structure Rounds (x : ℚ) (s n : ℕ) : Prop where
  nearest : IsNearest (x * 10 ^ s) n
  fits : n < limit
  scale_le : s ≤ maxScale
  full : s = maxScale ∨ (limit : ℚ) - 1 / 2 ≤ x * 10 ^ (s + 1)

/-- The decimal number to which a number is rounded. -/
def RoundsTo (x z : ℚ) : Prop := ∃ s n, Rounds x s n ∧ z = n / 10 ^ s

namespace Rounds

/-- A number does not fit at a larger scale than the one at which it is full. -/
theorem scale_ge (h : Rounds x s m) (h' : Rounds x t n) : t ≤ s := by
  by_contra! hlt
  obtain rfl | hfull := h.full
  · exact absurd h'.scale_le hlt.not_ge
  have hroom := h'.nearest.lt_of_fits h'.fits
  have hlimit : (1 : ℚ) ≤ limit := mod_cast show 1 ≤ limit by decide
  have hgrows : x * 10 ^ (s + 1) ≤ x * 10 ^ (s + 1) * 10 ^ (t - (s + 1)) :=
    le_mul_of_one_le_right (by linarith) (one_le_pow₀ (by norm_num))
  rw [mul_assoc, ← pow_add, Nat.add_sub_cancel' hlt] at hgrows
  linarith

theorem unique (h : Rounds x s m) (h' : Rounds x t n) : s = t ∧ m = n := by
  obtain rfl := Nat.le_antisymm (h'.scale_ge h) (h.scale_ge h')
  exact ⟨rfl, h.nearest.unique h'.nearest⟩

/-- A place is dropped where the mantissa would reach the limit. -/
theorem unscaleOver {q : ℕ} {f : ℚ} (hx : x * 10 ^ (s + 1) = q + f) (hf : 0 ≤ f) (hf' : f < 1)
    (hfull : (limit : ℚ) - 1 / 2 ≤ q + f) (hfits : q / 10 + 1 < limit) (hs : s ≤ maxScale) {inexact : Bool}
    (hinexact : inexact ↔ f ≠ 0) : Rounds x s (Decimal.unscaleOver q inexact) := by
  have hdigit : q % 10 ≤ 9 := Nat.lt_succ_iff.1 (Nat.mod_lt q (by decide))
  have hdigit' : ((q % 10 : ℕ) : ℚ) ≤ 9 := mod_cast hdigit
  have hsplit : (10 : ℚ) * (q / 10 : ℕ) + (q % 10 : ℕ) = q := mod_cast Nat.div_add_mod q 10
  have hplace : x * 10 ^ s = (q / 10 : ℕ) + ((q % 10 : ℕ) + f) / 10 := by
    rw [pow_succ, ← mul_assoc] at hx
    linarith
  have hround : Decimal.unscaleOver q inexact =
      if 5 < q % 10 || (q % 10 == 5 && (inexact || q / 10 % 2 == 1)) then q / 10 + 1 else q / 10 := rfl
  rw [hround]
  refine ⟨hplace ▸ .of_fraction (by positivity) (by linarith) _ ?_, ?_, hs, .inr (hx ▸ hfull)⟩
  · rw [half_of_digit hf hf' hinexact, Nat.even_iff]
    simp
  · split <;> omega

/-- A quotient that is rounded up to the limit loses a place. -/
theorem carry {f : ℚ} (hx : x * 10 ^ (s + 1) = (limit - 1 : ℕ) + f) (hf : 1 / 2 ≤ f) (hf' : f < 1)
    (hs : s ≤ maxScale) : Rounds x s (limit / 10 + 1) := by
  have hlast : (limit : ℚ) - 1 = (limit - 1 : ℕ) := by rw [Nat.cast_sub (by decide), Nat.cast_one]
  have hinexact : true = true ↔ f ≠ 0 := iff_of_true rfl (by linarith)
  exact unscaleOver hx (by linarith) hf' (by rw [← hlast]; linarith) (by decide) hs hinexact

end Rounds

namespace RoundsTo

theorem unique (h : RoundsTo x y) (h' : RoundsTo x z) : y = z := by
  obtain ⟨s, m, hm, rfl⟩ := h
  obtain ⟨t, n, hn, rfl⟩ := h'
  obtain ⟨rfl, rfl⟩ := hm.unique hn
  rfl

/-- A number with a decimal is rounded to itself. -/
theorem of_exact (hx : x * 10 ^ s = n) (hn : n < limit) (hs : s ≤ maxScale) : RoundsTo x x := by
  have hself : IsNearest (x * 10 ^ s) n ∧ x = n / 10 ^ s :=
    ⟨hx ▸ .natCast n, by rw [← hx]; field_simp⟩
  -- Places are added up to the largest scale at which the mantissa fits.
  induction hk : maxScale - s generalizing s n with
  | zero => exact ⟨s, n, ⟨hself.1, hn, hs, .inl (by omega)⟩, hself.2⟩
  | succ k ih =>
    have hnext : x * 10 ^ (s + 1) = (n * 10 : ℕ) := by
      rw [pow_succ, ← mul_assoc, hx]
      push_cast
      rfl
    by_cases hfits : n * 10 < limit
    · exact ih hnext hfits (by omega) ⟨hnext ▸ .natCast _, by rw [← hnext]; field_simp⟩ (by omega)
    · have hfull : (limit : ℚ) ≤ (n * 10 : ℕ) := mod_cast Nat.le_of_not_lt hfits
      exact ⟨s, n, ⟨hself.1, hn, hs, .inr (by rw [hnext]; linarith)⟩, hself.2⟩

end RoundsTo

/-! Long division. -/

variable {den fuel q r p : ℕ} {scale scale' : ℤ} {seen seen' : Bool}

/-- The quotient so far and the remainder of a division, at a scale. -/
structure Pending (x : ℚ) (den q r : ℕ) (scale : ℤ) : Prop where
  value : x * 10 ^ scale = q + r / den
  remainder_lt : r < den
  fits : q < limit
  scale_le : scale ≤ maxScale

/-- A mantissa at a scale that stands for what a number is rounded to. -/
structure Settled (x : ℚ) (n : ℕ) (scale : ℤ) : Prop where
  rounds : RoundsTo x (n / 10 ^ scale)
  fits : n < limit
  scale_nonneg : 0 ≤ scale
  scale_le : scale ≤ maxScale

theorem Rounds.settled (h : Rounds x s n) : Settled x n s :=
  ⟨⟨s, n, h, by rw [zpow_natCast]⟩, h.fits, Int.natCast_nonneg s, mod_cast h.scale_le⟩

theorem pow10_eq (n : ℕ) : pow10 n = 10 ^ n := rfl

theorem room_le (q n : ℕ) : room q n ≤ n := by
  induction n with
  | zero => exact Nat.le_refl 0
  | succ n ih =>
    rw [room]
    split
    · exact Nat.le_refl _
    · exact ih.trans (Nat.le_succ n)

theorem full_of_room (h : room q n = 0) : n = 0 ∨ limit ≤ q * 10 := by
  induction n with
  | zero => exact .inl rfl
  | succ n ih =>
    rw [room] at h
    split at h
    · cases h
    · next hfull =>
      rcases ih h with rfl | hlimit
      · exact .inr (Nat.le_of_not_lt hfull)
      · exact .inr hlimit

/-- A quotient is extended by at most nine places, and within the largest scale. -/
theorem extension_le (h : extension q r scale = some p) (hscale : scale ≤ maxScale) :
    p ≤ 9 ∧ scale + p ≤ maxScale := by
  have hmax : maxScale = 28 := rfl
  unfold extension at h
  split at h
  · have := Option.some.inj h
    omega
  · dsimp only at h
    split at h
    · cases h
    · have hroom := room_le q (min 9 (28 - scale).toNat)
      have := Option.some.inj h
      omega

/-- There is no extension only where there is a remainder and no room for another digit. -/
theorem full_of_extension (h : extension q r scale = some 0) (hscale : scale ≤ maxScale) (hr : ¬ (r = 0 ∧ 0 ≤ scale)) :
    0 ≤ scale ∧ (scale = maxScale ∨ limit ≤ q * 10) := by
  have hmax : maxScale = 28 := rfl
  unfold extension at h
  split at h
  · next hzero =>
    have := Option.some.inj h
    omega
  · dsimp only at h
    split at h
    · cases h
    · next hnonneg =>
      have hroom := Option.some.inj h
      refine ⟨by omega, (full_of_room hroom).imp_left fun hplaces => ?_⟩
      omega

namespace Pending

theorem den_pos (h : Pending x den q r scale) : (0 : ℚ) < den := mod_cast h.remainder_lt.pos

/-- Without a remainder the quotient is exact. -/
theorem settled (h : Pending x den q 0 scale) (hscale : 0 ≤ scale) : Settled x q scale := by
  obtain ⟨s, rfl⟩ := Int.eq_ofNat_of_zero_le hscale
  have hx : x * 10 ^ s = q := by simpa using h.value
  have hexact : (q : ℚ) / 10 ^ (s : ℤ) = x := by
    rw [← hx, zpow_natCast]
    field_simp
  exact ⟨by rw [hexact]; exact .of_exact hx h.fits (mod_cast h.scale_le), h.fits, hscale, h.scale_le⟩

/-- Some more places of the quotient, with the remainder that is then left. -/
theorem extend (h : Pending x den q r scale) (places : ℕ) :
    x * 10 ^ (scale + places) = (q * 10 ^ places + r * 10 ^ places / den : ℕ) + (r * 10 ^ places % den : ℕ) / den ∧
      r * 10 ^ places % den < den := by
  refine ⟨?_, Nat.mod_lt _ h.remainder_lt.pos⟩
  have hden := h.den_pos
  have hdivide : (den : ℚ) * (r * 10 ^ places / den : ℕ) + (r * 10 ^ places % den : ℕ) = r * 10 ^ places :=
    mod_cast Nat.div_add_mod (r * 10 ^ places) den
  rw [zpow_add₀ (by norm_num), ← mul_assoc, h.value, zpow_natCast]
  push_cast
  field_simp
  linarith

/-- The quotient is rounded up where the remainder is more than half of the divisor, or half of it after an odd one. -/
theorem nearest (h : Pending x den q r s) :
    IsNearest (x * 10 ^ s) (if den < 2 * r || (2 * r == den && q % 2 == 1) then q + 1 else q) := by
  have hden := h.den_pos
  have hx : x * 10 ^ s = q + r / den := by simpa using h.value
  rw [hx]
  refine .of_fraction (by positivity) ((div_lt_one hden).2 (mod_cast h.remainder_lt)) _ ?_
  rw [half_lt_div h.remainder_lt.pos, div_eq_half h.remainder_lt.pos, Nat.even_iff]
  simp

/-- Where there is no room for another place, the quotient is rounded at this scale, or at the next smaller one if
that makes it reach the limit. -/
theorem settled_round (h : Pending x den q r scale) (hscale : 0 ≤ scale) (hfull : scale = maxScale ∨ limit ≤ q * 10)
    (hround : roundQuotient q r den scale = some (n, scale')) : Settled x n scale' := by
  obtain ⟨s, rfl⟩ := Int.eq_ofNat_of_zero_le hscale
  have hden := h.den_pos
  have hx : x * 10 ^ s = q + r / den := by simpa using h.value
  have hs : s ≤ maxScale := mod_cast h.scale_le
  have hnext : s = maxScale ∨ (limit : ℚ) - 1 / 2 ≤ x * 10 ^ (s + 1) := by
    refine hfull.imp (fun hmax => Int.ofNat.inj hmax) fun hlimit => ?_
    have hlimit : (limit : ℚ) ≤ q * 10 := mod_cast hlimit
    have hfraction : (0 : ℚ) ≤ r / den := by positivity
    rw [pow_succ, ← mul_assoc, hx]
    linarith
  have hnearest := h.nearest
  unfold roundQuotient at hround
  generalize hup : (den < 2 * r || (2 * r == den && q % 2 == 1)) = up at hround hnearest
  cases up with
  | false =>
    cases hround
    exact Rounds.settled ⟨hnearest, h.fits, hs, hnext⟩
  | true =>
    simp only [Bool.not_true, Bool.false_eq_true, if_false] at hround
    split at hround
    · next hfits =>
      cases hround
      exact Rounds.settled ⟨hnearest, hfits, hs, hnext⟩
    · next hlimit =>
      split at hround
      · next hpositive =>
        cases hround
        obtain ⟨t, rfl⟩ : ∃ t, s = t + 1 := Nat.exists_eq_add_one.2 (mod_cast hpositive)
        obtain rfl : q = limit - 1 := Nat.eq_sub_of_add_eq (Nat.le_antisymm h.fits (Nat.le_of_not_lt hlimit))
        have hhalf : 1 / 2 ≤ (r : ℚ) / den := by
          rcases Bool.or_eq_true_iff.1 hup with habove | htie
          · exact ((half_lt_div h.remainder_lt.pos).2 (of_decide_eq_true habove)).le
          · exact ((div_eq_half h.remainder_lt.pos).2 (beq_iff_eq.1 (Bool.and_eq_true_iff.1 htie).1)).ge
        have hcarry := Rounds.carry hx hhalf ((div_lt_one hden).2 (mod_cast h.remainder_lt)) (Nat.le_of_succ_le hs)
        have hplace : ((t + 1 : ℕ) : ℤ) - 1 = t := by
          push_cast
          ring
        exact hplace ▸ hcarry.settled
      · cases hround

/-- Where the places that were found do not fit, the last of them is dropped. -/
theorem settled_over (h : Pending x den q r scale) (hplaces : p ≤ 9) (hscale : scale + p ≤ maxScale)
    (hshifted : q * pow10 p < limit) (hover : limit ≤ q * pow10 p + r * pow10 p / den) (hpositive : 1 ≤ scale + p) :
    Settled x (Decimal.unscaleOver (q * pow10 p + r * pow10 p / den) (r * pow10 p % den != 0)) (scale + p - 1) := by
  rw [pow10_eq] at hshifted hover ⊢
  obtain ⟨hvalue, hremainder⟩ := h.extend p
  obtain ⟨s, hs⟩ : ∃ s : ℕ, scale + p = (s + 1 : ℕ) := ⟨(scale + p - 1).toNat, by omega⟩
  have hplace : scale + p - 1 = s := by omega
  have hden := h.den_pos
  have hdigits : r * 10 ^ p / den < 10 ^ 9 := by
    have hpow : 10 ^ p ≤ 10 ^ 9 := Nat.pow_le_pow_right (by decide) hplaces
    rw [Nat.div_lt_iff_lt_mul h.remainder_lt.pos, Nat.mul_comm (10 ^ 9)]
    exact Nat.mul_lt_mul_of_lt_of_le h.remainder_lt hpow (Nat.pow_pos (by decide))
  rw [hs, zpow_natCast] at hvalue
  rw [hplace]
  have hlt : ((r * 10 ^ p % den : ℕ) : ℚ) / den < 1 := (div_lt_one hden).2 (mod_cast hremainder)
  refine (Rounds.unscaleOver hvalue (by positivity) hlt ?_ ?_ (by omega) ?_).settled
  · have hover' : (limit : ℚ) ≤ (q * 10 ^ p + r * 10 ^ p / den : ℕ) := mod_cast hover
    have hfraction : (0 : ℚ) ≤ (r * 10 ^ p % den : ℕ) / den := by positivity
    linarith
  · have := limit_eq
    omega
  · rw [bne_iff_ne, div_ne_zero_iff, Nat.cast_ne_zero]
    exact (and_iff_left hden.ne').symm

end Pending

/-- Long division comes to an end with what the exact quotient is rounded to. -/
theorem longDivide_settled (h : Pending x den q r scale) (hfuel : maxScale < scale + fuel)
    (hdivide : longDivide den fuel q r scale seen = some (n, scale', seen')) : Settled x n scale' := by
  -- Each step adds to the scale, which stays within the largest one, so the fuel does not run out.
  induction fuel generalizing q r scale seen with
  | zero =>
    have := h.scale_le
    omega
  | succ fuel ih =>
    rw [longDivide] at hdivide
    dsimp only at hdivide
    split at hdivide
    · next hexact =>
      simp only [Bool.and_eq_true, decide_eq_true_eq] at hexact
      obtain ⟨rfl, hscale⟩ := hexact
      cases hdivide
      exact h.settled hscale
    · next hexact =>
      split at hdivide
      · cases hdivide
      · next hextension =>
        obtain ⟨⟨n', t⟩, hround, heq⟩ := Option.map_eq_some_iff.1 hdivide
        cases heq
        have hfull := full_of_extension hextension h.scale_le (by simpa using hexact)
        exact h.settled_round hfull.1 hfull.2 hround
      · next places hplaces hextension =>
        obtain ⟨hnine, hscale⟩ := extension_le hextension h.scale_le
        obtain ⟨hvalue, hremainder⟩ := h.extend places
        split at hdivide
        · cases hdivide
        · next hshifted =>
          split at hdivide
          · next hfits =>
            have hpositive : places ≠ 0 := hplaces
            exact ih ⟨hvalue, hremainder, hfits, hscale⟩ (by omega) hdivide
          · next hover =>
            split at hdivide
            · cases hdivide
            · next hscale' =>
              cases hdivide
              exact h.settled_over hnine hscale (Nat.lt_of_not_le hshifted) (Nat.le_of_not_lt hover) (by omega)

/-! Trailing zeros. -/

/-- Dropping zeros leaves the number as it is. -/
theorem dropZeros_eq {places lowBits : ℕ} (h : dropZeros places lowBits m s = (n, t)) :
    (n : ℚ) / 10 ^ t = m / 10 ^ s := by
  unfold dropZeros at h
  split at h
  · next hzeros =>
    obtain ⟨-, hplaces, hdvd⟩ := hzeros
    obtain ⟨rfl, rfl⟩ := Prod.mk.inj h
    exact div_pow_of_dvd hplaces (Nat.dvd_of_mod_eq_zero hdvd)
  · obtain ⟨rfl, rfl⟩ := Prod.mk.inj h
    rfl

theorem unscale_eq (m s : ℕ) : ((unscale m s).1 : ℚ) / 10 ^ (unscale m s).2 = m / 10 ^ s := by
  have hsteps (steps : List (ℕ × ℕ)) (p : ℕ × ℕ) :
      ((steps.foldl (fun p r => dropZeros r.1 r.2 p.1 p.2) p).1 : ℚ) /
        10 ^ (steps.foldl (fun p r => dropZeros r.1 r.2 p.1 p.2) p).2 = p.1 / 10 ^ p.2 := by
    induction steps generalizing p with
    | nil => rfl
    | cons step steps ih => exact (ih _).trans (dropZeros_eq rfl)
  exact hsteps _ (m, s)

/-! The quotient of two decimals. -/

variable {a b d : Decimal}

theorem pending_div (a : Decimal) (hb : b.isZero = false) :
    Pending |a.value / b.value| b.mantissa (a.mantissa / b.mantissa) (a.mantissa % b.mantissa) (a.scale - b.scale) := by
  have hden : 0 < b.mantissa := Nat.pos_of_ne_zero (by simpa [isZero] using hb)
  have hden' : (0 : ℚ) < b.mantissa := mod_cast hden
  have hdivide : (b.mantissa : ℚ) * (a.mantissa / b.mantissa : ℕ) + (a.mantissa % b.mantissa : ℕ) = a.mantissa :=
    mod_cast Nat.div_add_mod a.mantissa b.mantissa
  refine ⟨?_, Nat.mod_lt _ hden, (Nat.div_le_self _ _).trans_lt a.mantissa_lt, ?_⟩
  · rw [abs_div, abs_value, abs_value, zpow_sub₀ (by norm_num), zpow_natCast, zpow_natCast]
    field_simp
    linarith
  · have := a.scale_le
    have : maxScale = 28 := rfl
    omega

/-- A quotient has the size of the exact one, rounded, and the sign of the exact one. -/
theorem div?_rounds (h : a.div? b = some d) :
    RoundsTo |a.value / b.value| |d.value| ∧ 0 ≤ d.value * (a.value / b.value) := by
  unfold div? at h
  split at h
  · cases h
  next hb =>
  rw [Bool.not_eq_true] at hb
  split at h
  · next ha =>
    cases h
    have hzero : value zero = 0 := value_eq_zero_iff.2 rfl
    rw [value_eq_zero_iff.2 ha, hzero, zero_div, abs_zero, mul_zero]
    exact ⟨.of_exact (s := 0) (n := 0) (by norm_num) (by decide) (by decide), le_rfl⟩
  next ha =>
  obtain ⟨⟨q, t, seen⟩, hdivide, h⟩ := Option.bind_eq_some_iff.1 h
  have hfuel : (maxScale : ℤ) < (a.scale - b.scale : ℤ) + (64 : ℕ) := by
    have := b.scale_le
    have : maxScale = 28 := rfl
    omega
  have hsettled := longDivide_settled (pending_div a hb) hfuel hdivide
  obtain ⟨m, s, hparts, hequal⟩ : ∃ m s : ℕ, ofParts? (a.negative != b.negative && m != 0) m s = some d ∧
      (m : ℚ) / 10 ^ s = q / 10 ^ t := by
    obtain ⟨s, rfl⟩ := Int.eq_ofNat_of_zero_le hsettled.scale_nonneg
    rw [zpow_natCast]
    cases seen with
    | true => exact ⟨_, _, h, unscale_eq q s⟩
    | false => exact ⟨_, _, h, rfl⟩
  obtain ⟨hnegative, hmantissa, hscale⟩ := eq_of_ofParts? hparts
  have hsize : |d.value| = q / 10 ^ t := by rw [abs_value, hmantissa, hscale, hequal]
  refine ⟨hsize ▸ hsettled.rounds, ?_⟩
  by_cases hzero : d.value = 0
  · rw [hzero, zero_mul]
  · -- The result has a sign where one of the operands has one.
    have hsign : d.negative = (a.negative != b.negative) := by
      rw [value_eq_zero_iff, isZero, beq_iff_eq, hmantissa] at hzero
      rw [hnegative, bne_iff_ne.2 hzero, Bool.and_true]
    rw [value_eq d, value_eq a, value_eq b, hsign]
    have hd := abs_nonneg d.value
    have hq : 0 ≤ |a.value| / |b.value| := by positivity
    cases a.negative <;> cases b.negative <;> simp [neg_div, div_neg] <;> positivity

end XPath.Decimal
