import XPath.Number.Binary

/-! The shortest decimal that reads back as a given binary number, and the two ways of writing it. -/
namespace XPath

/-- A decimal magnitude `digits · pow10 exponent`. -/
structure Scientific where
  digits : Nat
  exponent : Int
  deriving DecidableEq, Repr

namespace Scientific

/-- The exponent of the leading digit of `num / den`. -/
def magnitude (num den : Nat) : Int :=
  let t := (digitCount num : Int) - digitCount den
  let (n, d) := if 0 ≤ t then (num, den * pow10 t.toNat) else (num * pow10 (-t).toNat, den)
  if d ≤ n then t else t - 1

/-- The two neighbours of `num / den` on the grid of multiples of `pow10 exponent`, and whether the
upper one is at least as near. -/
def neighbours (num den : Nat) (exponent : Int) : Nat × Nat × Bool :=
  let (n, d) :=
    if 0 ≤ exponent then (num, den * pow10 exponent.toNat) else (num * pow10 (-exponent).toNat, den)
  (n / d, n / d + 1, d ≤ 2 * (n % d))

/-- Of `num / den`, the decimal of `count` digits that satisfies `ok` and is nearest, if one does. -/
def nearest? (ok : Scientific → Bool) (num den count : Nat) : Option Scientific :=
  let e := magnitude num den - count + 1
  let (lo, hi, up) := neighbours num den e
  match ok ⟨lo, e⟩, ok ⟨hi, e⟩ with
  | true, true => some (if up then ⟨hi, e⟩ else ⟨lo, e⟩)
  | true, false => some ⟨lo, e⟩
  | false, true => some ⟨hi, e⟩
  | false, false => none

/-- Drops trailing zeros, at most `n` of them. -/
def strip : Nat → Scientific → Scientific
  | 0, s => s
  | n + 1, s => if s.digits ≠ 0 ∧ s.digits % 10 = 0 then strip n ⟨s.digits / 10, s.exponent + 1⟩ else s

/-- The fewest digits that read back as the number, and of those the nearest; a tie goes up. -/
def shortest (f : FloatFormat) (mantissa : Nat) (exponent : Int) : Scientific :=
  if mantissa = 0 then ⟨0, 0⟩
  else
    let (num, den) := Binary.ratio mantissa exponent
    let ok (s : Scientific) :=
      Binary.ofScientific f false s.digits s.exponent == .finite false mantissa exponent
    let found := (List.range 17).findSome? fun k => nearest? ok num den (k + 1)
    strip 20 (found.getD ⟨0, 0⟩)

/-- Plain notation, without an exponent. -/
def positional (s : Scientific) : String :=
  let ds := Nat.toDigits 10 s.digits
  if 0 ≤ s.exponent then
    String.ofList (if s.digits = 0 then ['0'] else ds ++ List.replicate s.exponent.toNat '0')
  else
    let places := (-s.exponent).toNat
    let padded := List.replicate (places + 1 - ds.length) '0' ++ ds
    let whole := padded.length - places
    String.ofList (padded.take whole ++ '.' :: padded.drop whole)

/-- The mantissa with one digit before the point, and the exponent of ten. -/
def normalized (s : Scientific) : String × Int :=
  match Nat.toDigits 10 s.digits with
  | [] => ("0", 0)
  | [d] => (String.ofList [d], s.exponent)
  | d :: ds => (String.ofList (d :: '.' :: ds), s.exponent + ds.length)

end Scientific

namespace Binary

/-- Shortest digits in plain notation. -/
def plain (f : FloatFormat) : Binary → String
  | nan => "NaN"
  | infinite s => if s then "-inf" else "inf"
  | finite s m e => (if s then "-" else "") ++ (Scientific.shortest f m e).positional

/-- Shortest digits with an exponent, which is always written. -/
def exponential (f : FloatFormat) : Binary → String
  | nan => "NaN"
  | infinite s => if s then "-inf" else "inf"
  | finite s m e =>
    let (digits, e) := (Scientific.shortest f m e).normalized
    (if s then "-" else "") ++ digits ++ "e" ++ toString e

/-- The canonical text of a floating-point value: plain between a millionth and a million, else a
mantissa with a decimal point and an exponent. The exponent form has the digits of a double. -/
def canonical (f : FloatFormat) (x : Binary) : String :=
  match x with
  | nan => "NaN"
  | infinite s => if s then "-INF" else "INF"
  | finite s m e =>
    let big := ofScientific .double false 1 6
    let small := ofScientific .double false 1 (-6)
    if m = 0 || (compare? x.abs small != some .lt && compare? x.abs big == some .lt) then x.plain f
    else
      match x.convert .double with
      | finite _ m' e' =>
        let (digits, e10) := (Scientific.shortest .double m' e').normalized
        let digits := if digits.contains '.' then digits else digits ++ ".0"
        (if s then "-" else "") ++ digits ++ "E" ++ toString e10
      | _ => (if s then "-" else "") ++ (Scientific.shortest f m e).positional

end Binary
end XPath
