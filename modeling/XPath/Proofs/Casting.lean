import XPath.Proofs.Comparison
import XPath.Proofs.Spelling

/-!
Casting. A cast that succeeds gives a value of the type that was asked for, and an integer that lies within its bounds.
Numbers and booleans come back from their text, because what is written of them is read as what they are.
-/
namespace XPath

namespace Blank

theorem trim_eq_self {cs : List Char} (h : ∀ c ∈ cs, isWhite c = false) : trim cs = cs := by
  have hkept {ds : List Char} (hds : ∀ c ∈ ds, isWhite c = false) : ds.dropWhile isWhite = ds := by
    cases ds with
    | nil => rfl
    | cons c ds => rw [List.dropWhile_cons_of_neg (by simp [hds])]
  rw [trim, hkept h, hkept fun c hc => h c (List.mem_reverse.1 hc), List.reverse_reverse]

theorem isWhite_of_isDigit {c : Char} (h : c.isDigit) : isWhite c = false := by
  have hrange : 48 ≤ c.toNat ∧ c.toNat ≤ 57 := by
    simpa [Char.isDigit, UInt32.le_iff_toNat_le] using h
  unfold isWhite
  simp only [Bool.or_eq_false_iff, Bool.and_eq_false_iff, decide_eq_false_iff_not]
  omega

end Blank

namespace Lexical
variable {cs : List Char} {negative : Bool} {d : Decimal}

/-- A minus and digits, with or without a point. -/
def signed (negative : Bool) (cs : List Char) : List Char := if negative then '-' :: cs else cs

theorem splitSign_signed (h : ∀ c ∈ cs, c.isDigit ∨ c = '.') : splitSign (signed negative cs) = (negative, cs) := by
  cases negative with
  | true => rfl
  | false =>
    have hminus : '-' ∉ cs := fun hmem => by simpa using h _ hmem
    have hplus : '+' ∉ cs := fun hmem => by simpa using h _ hmem
    unfold signed splitSign
    split
    · simp_all
    · simp_all
    · rfl

theorem trim_signed (h : ∀ c ∈ cs, c.isDigit ∨ c = '.') : Blank.trim (signed negative cs) = signed negative cs := by
  refine Blank.trim_eq_self fun c hc => ?_
  have hchar : c = '-' ∨ c.isDigit ∨ c = '.' := by
    cases negative with
    | true => exact (List.mem_cons.1 hc).imp_right (h c)
    | false => exact .inr (h c hc)
  obtain rfl | hdigit | rfl := hchar
  · rfl
  · exact Blank.isWhite_of_isDigit hdigit
  · rfl

theorem integer?_signed (hne : cs ≠ []) (hdigits : ∀ c ∈ cs, c.isDigit) :
    integer? (String.ofList (signed negative cs)) =
      some (if negative then -(digitsValue cs : ℤ) else digitsValue cs) := by
  have hcs : ∀ c ∈ cs, c.isDigit ∨ c = '.' := fun c hc => .inl (hdigits c hc)
  have hvalid : (cs.isEmpty || !cs.all Char.isDigit) = false := by
    simpa [List.isEmpty_iff, hne] using hdigits
  rw [integer?, String.toList_ofList, trim_signed hcs, splitSign_signed hcs]
  simp [hvalid]

theorem decimal_signed (hcs : ∀ c ∈ cs, c.isDigit ∨ c = '.') (hdigit : ∃ c ∈ cs, c.isDigit)
    (hpoint : cs.count '.' ≤ 1) (h : Decimal.parse? (String.ofList cs) = some d) :
    decimal (String.ofList (signed negative cs)) = .ok (if negative then d.neg else d) := by
  have hvalid :
      (cs.isEmpty || cs == ['.'] || !cs.all (fun c => c.isDigit || c == '.') || 1 < cs.count '.') = false := by
    obtain ⟨c, hc, hdigit⟩ := hdigit
    have hne : cs ≠ ['.'] := by
      rintro rfl
      rw [List.mem_singleton.1 hc] at hdigit
      cases hdigit
    simp only [Bool.or_eq_false_iff, List.isEmpty_eq_false_iff, beq_eq_false_iff_ne, Bool.not_eq_false',
      decide_eq_false_iff_not, List.all_eq_true]
    refine ⟨⟨⟨List.ne_nil_of_mem hc, hne⟩, fun c hc => ?_⟩, hpoint.not_gt⟩
    simpa using hcs c hc
  rw [decimal, String.toList_ofList, trim_signed hcs, splitSign_signed hcs]
  dsimp only
  rw [hvalid, h]
  rfl

/-- What is written of an integer is read as it. -/
theorem integer?_toString (i : ℤ) : integer? (toString i) = some i := by
  have hread (negative : Bool) (n : ℕ) : integer? (String.ofList (signed negative (Nat.toDigits 10 n))) =
      some (if negative then -(n : ℤ) else n) := by
    have hvalue : digitsValue (Nat.toDigits 10 n) = n := Lexer.digitsValue_toDigits n
    rw [integer?_signed Nat.toDigits_ne_nil fun _ => Nat.isDigit_of_mem_toDigits (by decide) (by decide), hvalue]
  cases i with
  | ofNat n =>
    have htext : toString (Int.ofNat n) = String.ofList (signed false (Nat.toDigits 10 n)) :=
      Nat.toString_eq_ofList_toDigits
    rw [htext, hread]
    rfl
  | negSucc n =>
    have htext : toString (Int.negSucc n) = String.ofList (signed true (Nat.toDigits 10 (n + 1))) := by
      change "-" ++ toString (n + 1) = _
      rw [Nat.toString_eq_ofList_toDigits]
      exact String.toList_inj.1 (by simp [signed])
    rw [htext, hread]
    rfl

end Lexical

namespace Decimal
open Lexer
variable {m m' n s s' : ℕ}

/-- The digits of a decimal, at least one of them before the point. -/
def paddedDigits (d : Decimal) : List Char :=
  List.replicate (d.scale + 1 - (Nat.toDigits 10 d.mantissa).length) '0' ++ Nat.toDigits 10 d.mantissa

/-- The digits of a decimal with the point, if there are places after it. -/
def unsignedText (d : Decimal) : List Char :=
  let whole := d.paddedDigits.length - d.scale
  if d.scale = 0 then d.paddedDigits else d.paddedDigits.take whole ++ '.' :: d.paddedDigits.drop whole

theorem display_eq (d : Decimal) : d.display = String.ofList (Lexical.signed d.negative d.unsignedText) := rfl

theorem isDigit_of_mem_paddedDigits (d : Decimal) : ∀ c ∈ d.paddedDigits, c.isDigit := by
  intro c hc
  rcases List.mem_append.1 hc with hzero | hdigit
  · obtain rfl := List.eq_of_mem_replicate hzero
    rfl
  · exact Nat.isDigit_of_mem_toDigits (by decide) (by decide) hdigit

theorem digitsValue_paddedDigits (d : Decimal) : digitsValue d.paddedDigits = d.mantissa := by
  have hzeros (k : ℕ) : digitsValue (List.replicate k '0') = 0 := by
    induction k with
    | zero => rfl
    | succ k ih => rw [List.replicate_succ, digitsValue_cons, ih]; simp
  rw [paddedDigits, digitsValue_append, hzeros, Nat.zero_mul, Nat.zero_add, digitsValue_toDigits]

theorem scale_lt_length_paddedDigits (d : Decimal) : d.scale < d.paddedDigits.length := by
  have hpositive : 0 < (Nat.toDigits 10 d.mantissa).length := List.length_pos_of_ne_nil Nat.toDigits_ne_nil
  rw [paddedDigits, List.length_append, List.length_replicate]
  omega

theorem paddedDigits_ne_nil (d : Decimal) : d.paddedDigits ≠ [] :=
  List.ne_nil_of_length_pos (Nat.zero_lt_of_lt d.scale_lt_length_paddedDigits)

/-- Either there are only digits, or a point before the places. -/
theorem unsignedText_cases (d : Decimal) : (d.scale = 0 ∧ d.unsignedText = d.paddedDigits) ∨
    ∃ whole fraction, whole ++ fraction = d.paddedDigits ∧ fraction.length = d.scale ∧
      d.unsignedText = whole ++ '.' :: fraction := by
  unfold unsignedText
  dsimp only
  split
  · next hscale => exact .inl ⟨hscale, rfl⟩
  · have hlength := d.scale_lt_length_paddedDigits
    refine .inr ⟨_, _, List.take_append_drop _ _, ?_, rfl⟩
    rw [List.length_drop]
    omega

/-- The digits of a decimal are read as its size. -/
theorem parse?_unsignedText (d : Decimal) : parse? (String.ofList d.unsignedText) = some d.abs := by
  have hdigits := d.isDigit_of_mem_paddedDigits
  have hvalue := d.digitsValue_paddedDigits
  have hne := d.paddedDigits_ne_nil
  obtain ⟨hscale, htext⟩ | ⟨whole, fraction, happend, hplaces, htext⟩ := d.unsignedText_cases
  · obtain ⟨c, hc⟩ := List.exists_mem_of_ne_nil _ hne
    have hsign : ∀ c ∈ d.paddedDigits.head?, c ≠ '-' ∧ c ≠ '+' := fun c hc => by
      have hdigit := hdigits c (List.mem_of_mem_head? hc)
      constructor <;> (rintro rfl; cases hdigit)
    have hsize : 0 * 10 ^ d.paddedDigits.length + digitsValue d.paddedDigits = d.mantissa := by rw [hvalue]; simp
    have hread : readDigits (d.paddedDigits ++ []) 0 0 false = some (d.mantissa, 0) := by
      rw [readDigits_whole hdigits (hsize ▸ d.mantissa_lt), hsize]
      rfl
    rw [List.append_nil] at hread
    rw [htext, parse?_of_digits hsign ⟨c, hc, hdigits c hc⟩, hread, ← hscale]
    exact ofParts?_eq d.mantissa_lt d.scale_le
  · have hsame : d.abs.value = digitsValue (whole ++ fraction) / 10 ^ fraction.length := by
      rw [happend, hvalue, hplaces]
      rfl
    obtain ⟨e, he, -, hexact⟩ := parse?_digits (happend ▸ hdigits) (happend ▸ hne) hsame
    rw [htext, he, hexact rfl hplaces]

theorem mem_unsignedText (d : Decimal) : ∀ c ∈ d.unsignedText, c ∈ d.paddedDigits ∨ c = '.' := by
  intro c hc
  obtain ⟨-, htext⟩ | ⟨whole, fraction, happend, -, htext⟩ := d.unsignedText_cases
  · exact .inl (htext ▸ hc)
  · rw [htext, List.mem_append, List.mem_cons] at hc
    rw [← happend, List.mem_append]
    tauto

theorem mem_unsignedText_of_mem {c : Char} {d : Decimal} (hc : c ∈ d.paddedDigits) : c ∈ d.unsignedText := by
  obtain ⟨-, htext⟩ | ⟨whole, fraction, happend, -, htext⟩ := d.unsignedText_cases
  · exact htext ▸ hc
  · rw [← happend, List.mem_append] at hc
    rw [htext, List.mem_append, List.mem_cons]
    tauto

theorem count_unsignedText (d : Decimal) : d.unsignedText.count '.' ≤ 1 := by
  have hcount : d.paddedDigits.count '.' = 0 :=
    List.count_eq_zero.2 fun hmem => ne_point (d.isDigit_of_mem_paddedDigits _ hmem) rfl
  obtain ⟨-, htext⟩ | ⟨whole, fraction, happend, -, htext⟩ := d.unsignedText_cases
  · rw [htext, hcount]
    exact Nat.zero_le 1
  · rw [← happend, List.count_append] at hcount
    rw [htext, List.count_append, List.count_cons_self]
    omega

/-- A decimal is read from what is written of it. -/
theorem decimal_display (d : Decimal) : Lexical.decimal d.display = .ok d := by
  obtain ⟨c, hc⟩ := List.exists_mem_of_ne_nil _ d.paddedDigits_ne_nil
  have hdigits := d.isDigit_of_mem_paddedDigits
  have hcs : ∀ c ∈ d.unsignedText, c.isDigit ∨ c = '.' := fun c hc => (d.mem_unsignedText c hc).imp_left (hdigits c)
  rw [display_eq, Lexical.decimal_signed hcs ⟨c, mem_unsignedText_of_mem hc, hdigits c hc⟩ d.count_unsignedText
    d.parse?_unsignedText]
  obtain ⟨negative, mantissa, scale, hmantissa, hscale⟩ := d
  cases negative <;> rfl

/-! Numbers without trailing zeros. -/

theorem strip_eq (h : strip n m s = (m', s')) : (m' : ℚ) / 10 ^ s' = m / 10 ^ s ∧ m' ≤ m ∧ s' ≤ s := by
  induction n generalizing m s with
  | zero =>
    cases h
    exact ⟨rfl, le_rfl, le_rfl⟩
  | succ n ih =>
    rw [strip] at h
    split at h
    · next hzero =>
      obtain ⟨hvalue, hm, hs⟩ := ih h
      have hdrop := div_pow_of_dvd (k := 1) hzero.1 (Nat.dvd_of_mod_eq_zero hzero.2)
      exact ⟨hvalue.trans hdrop, hm.trans (Nat.div_le_self _ _), hs.trans (Nat.sub_le _ _)⟩
    · cases h
      exact ⟨rfl, le_rfl, le_rfl⟩

/-- Without trailing zeros a decimal is the same number. -/
theorem value_normalize (d : Decimal) : d.normalize.value = d.value := by
  unfold normalize
  split
  · next hzero =>
    rw [value_eq_zero_iff.2 hzero]
    exact value_eq_zero_iff.2 rfl
  · cases hstrip : strip d.scale d.mantissa d.scale with
    | mk m s =>
      obtain ⟨hvalue, hm, hs⟩ := strip_eq hstrip
      have hparts : m < pow2 96 ∧ s ≤ 28 := ⟨hm.trans_lt d.mantissa_lt, hs.trans d.scale_le⟩
      have hsome : ofParts? d.negative m s = some ⟨d.negative, m, s, hparts.1, hparts.2⟩ := dif_pos hparts
      dsimp only
      rw [hsome, Option.getD_some, value_eq, abs_value, hvalue, ← abs_value]
      exact d.value_eq.symm

end Decimal

namespace Atomic
variable {a v : Atomic} {t w : AtomicType}

/-- A cast to an integer type takes the integer part and looks at the bounds. -/
theorem cast_integer (ht : t.derivesFrom .integer) (hne : a.type ≠ t) :
    a.cast t = a.toInteger >>= fun i => if t.inBounds i then .ok (integer t i) else .error .invalidCast := by
  unfold cast
  rw [if_neg hne]
  cases t <;> first | rfl | cases ht

theorem cast_integer_bounded (ht : t.derivesFrom .integer) (hne : a.type ≠ t) (h : a.cast t = .ok v) :
    ∃ i, v = integer t i ∧ t.inBounds i := by
  rw [cast_integer ht hne] at h
  cases htruncate : a.toInteger with
  | error e =>
    rw [htruncate] at h
    cases h
  | ok i =>
    rw [htruncate] at h
    simp only [bind, Except.bind] at h
    split at h
    · next hbounds =>
      cases h
      exact ⟨i, rfl, hbounds⟩
    · cases h

/-- A cast that succeeds gives a value of the target type. -/
theorem type_cast (h : a.cast t = .ok v) : v.type = t := by
  by_cases htype : a.type = t
  · rw [cast.eq_def, if_pos htype] at h
    cases h
    exact htype
  by_cases ht : t.derivesFrom .integer
  · obtain ⟨i, rfl, -⟩ := cast_integer_bounded ht htype h
    rfl
  · rw [cast.eq_def, if_neg htype] at h
    have hmap {α : Type} {r : Except ErrorCode α} {f : α → Atomic} (hf : ∀ x, (f x).type = t) (h : r.map f = .ok v) :
        v.type = t := by
      cases r with
      | error e => cases h
      | ok x =>
        cases h
        exact hf x
    cases t
    case string | untypedAtomic =>
      cases h
      rfl
    case boolean | decimal | float | double => exact hmap (fun _ => rfl) h
    all_goals first | cases h | exact absurd ht (by decide)

/-- Booleans, decimals, and integers that lie within the bounds of their type. -/
def IsBounded : Atomic → Prop
  | boolean _ | decimal _ => True
  | integer t i => t.derivesFrom .integer ∧ t.inBounds i
  | _ => False

/-- The same value, a decimal without trailing zeros. -/
def normalized : Atomic → Atomic
  | decimal d => decimal d.normalize
  | a => a

theorem type_ne_text (h : a.IsBounded) : a.type ≠ .string ∧ a.type ≠ .untypedAtomic := by
  cases a with
  | integer t i =>
    constructor <;> (rintro rfl; exact absurd h.1 (by decide))
  | boolean | decimal => exact ⟨nofun, nofun⟩
  | untyped | string | float | double => cases h

/-- The text of a value, as a string or untyped, is cast to the value. -/
theorem cast_of_text {s : Atomic} (h : a.IsBounded) (hs : s = string a.text ∨ s = untyped a.text) :
    s.cast a.type = .ok a.normalized := by
  cases a with
  | boolean b => obtain rfl | rfl := hs <;> cases b <;> decide +kernel
  | decimal d =>
    have hread : s.toDecimal = .ok d.normalize := by obtain rfl | rfl := hs <;> exact d.normalize.decimal_display
    have hcast : s.cast .decimal = s.toDecimal.map decimal := by obtain rfl | rfl := hs <;> rfl
    exact hcast.trans (by rw [hread]; rfl)
  | integer t i =>
    have hread : s.toInteger = .ok i := by
      obtain rfl | rfl := hs <;> exact congrArg (orElse .invalidCast) (Lexical.integer?_toString i)
    have hne : s.type ≠ t := by
      obtain rfl | rfl := hs
      exacts [(type_ne_text h).1.symm, (type_ne_text h).2.symm]
    change s.cast t = _
    rw [cast_integer h.1 hne, hread]
    exact if_pos h.2
  | untyped | string | float | double => cases h

theorem compareValues_normalized (h : a.IsBounded) : compareValues .eq a.normalized a = .ok true := by
  have hexact {v : Atomic} {x : ℚ} (hv : v.exactValue? = some x) (ha : a.exactValue? = some x)
      (hcomparable : v.Comparable a) : compareValues .eq v a = .ok true := by
    rw [compareValues_eq .eq hv ha, if_pos hcomparable]
    exact congrArg Except.ok (decide_eq_true rfl)
  cases a with
  | boolean b => cases b <;> rfl
  | decimal d => exact hexact (congrArg some d.value_normalize) rfl trivial
  | integer t i => exact hexact rfl rfl trivial
  | untyped | string | float | double => cases h

/-- A cast that succeeds gives a value of the target type, and an integer within its bounds if the value was not of
that type before. Every boolean, decimal and integer within the bounds of its type comes back from its text as an
equal value, which is the same one but for the trailing zeros of a decimal. -/
theorem cast_lands_and_returns (a : Atomic) (t : AtomicType) :
    (∀ v, a.cast t = .ok v → v.type = t ∧
      (t.derivesFrom .integer → a.type ≠ t → ∃ i, v = integer t i ∧ t.inBounds i)) ∧
    (a.IsBounded → ∀ w ∈ [AtomicType.string, .untypedAtomic], ∃ s, a.cast w = .ok s ∧ s.type = w ∧
      s.cast a.type = .ok a.normalized ∧ a.normalized.type = a.type ∧ compareValues .eq a.normalized a = .ok true) := by
  refine ⟨fun v hv => ⟨type_cast hv, fun ht hne => cast_integer_bounded ht hne hv⟩, fun h w hw => ?_⟩
  obtain ⟨s, hs, htext⟩ : ∃ s, a.cast w = .ok s ∧ (s = string a.text ∨ s = untyped a.text) := by
    have hne := type_ne_text h
    obtain rfl | hw := List.mem_cons.1 hw
    · exact ⟨_, if_neg hne.1, .inl rfl⟩
    · obtain rfl := List.mem_singleton.1 hw
      exact ⟨_, if_neg hne.2, .inr rfl⟩
  have hback := cast_of_text h htext
  exact ⟨s, hs, type_cast hs, hback, type_cast hback, compareValues_normalized h⟩

/-- One and a half below zero, with two trailing zeros: as a byte it is minus one, and from its text it comes back
without the zeros. -/
theorem cast_lands_and_returns_negative :
    let a := decimal ⟨true, 1500, 3, by decide, by decide⟩
    (∃ i, a.cast .byte = .ok (integer .byte i) ∧ AtomicType.inBounds .byte i) ∧
      ∃ s, a.cast .untypedAtomic = .ok s ∧ s.cast .decimal = .ok (decimal ⟨true, 15, 1, by decide, by decide⟩) := by
  intro a
  obtain ⟨hlands, hreturns⟩ := cast_lands_and_returns a .byte
  have hbyte : a.cast .byte = .ok (integer .byte (-1)) := by decide +kernel
  obtain ⟨i, heq, hbounds⟩ := (hlands _ hbyte).2 (by decide) (by decide)
  obtain ⟨s, hs, -, hback, -⟩ := hreturns trivial .untypedAtomic (by decide)
  exact ⟨⟨i, heq ▸ hbyte, hbounds⟩, s, hs, hback⟩

end Atomic
end XPath
