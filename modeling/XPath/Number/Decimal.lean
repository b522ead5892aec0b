import XPath.Number.Binary

/-!
Decimal numbers of limited size: a sign, a mantissa below `2 ^ 96` and a scale of at most 28 places.
Sums and products are exact and then rounded, a half to even, to the largest scale that fits.
-/
namespace XPath

structure Decimal where
  negative : Bool
  mantissa : Nat
  scale : Nat
  mantissa_lt : mantissa < pow2 96
  scale_le : scale ≤ 28
  deriving DecidableEq, Repr

namespace Decimal

def maxScale : Nat := 28

def limit : Nat := pow2 96

/-- The number with these parts, if they are in range; the sign of zero is as given. -/
def ofParts? (negative : Bool) (mantissa scale : Nat) : Option Decimal :=
  if h : mantissa < pow2 96 ∧ scale ≤ 28 then some ⟨negative, mantissa, scale, h.1, h.2⟩ else none

def zero : Decimal := ⟨false, 0, 0, by decide, by decide⟩
def one : Decimal := ⟨false, 1, 0, by decide, by decide⟩

instance : Inhabited Decimal := ⟨zero⟩

def isZero (d : Decimal) : Bool := d.mantissa == 0

/-- Negation turns the sign, also of zero. -/
def neg (d : Decimal) : Decimal := { d with negative := !d.negative }

def abs (d : Decimal) : Decimal := { d with negative := false }

/-- The mantissa with its sign. -/
def signed (d : Decimal) : Int := if d.negative then -d.mantissa else d.mantissa

/-- The mantissa that the number would have at a larger scale. -/
def signedAt (d : Decimal) (scale : Nat) : Int := d.signed * pow10 (scale - d.scale)

/-- An integer as a decimal, if it is small enough. -/
def ofInt? (i : Int) : Option Decimal := ofParts? (i < 0) i.natAbs 0

/-- A magnitude of any size rounded to the largest scale that fits, dropping at least `drop` places
and at most all. -/
def fitFrom (mantissa scale : Nat) : Nat → Nat → Option (Nat × Nat)
  | drop, fuel =>
    let m := roundHalfEven mantissa (pow10 drop)
    if m < limit then some (m, scale - drop)
    else match fuel with
      | 0 => none
      | fuel + 1 => if drop < scale then fitFrom mantissa scale (drop + 1) fuel else none

/-- A signed magnitude of any size and scale as the nearest decimal; zero is positive. -/
def round? (negative : Bool) (mantissa scale : Nat) : Option Decimal :=
  (fitFrom mantissa scale (scale - maxScale) scale).bind fun (m, s) =>
    ofParts? (negative && m != 0) m s

/-- A zero operand leaves the other one as it is. A sum of zero is positive, unless both mantissas
take one word of 32 bits: it then has the sign of the first operand. -/
def add? (a b : Decimal) : Option Decimal :=
  if a.isZero then some b
  else if b.isZero then some a
  else
    let scale := max a.scale b.scale
    let sum := a.signedAt scale + b.signedAt scale
    if sum = 0 then ofParts? (a.negative && a.mantissa < pow2 32 && b.mantissa < pow2 32) 0 scale
    else round? (sum < 0) sum.natAbs scale

def sub? (a b : Decimal) : Option Decimal := if b.isZero then some (if a.isZero then b else a) else add? a b.neg

/-- A zero factor gives plain zero, and so does a product of one-word mantissas beyond 47 places. -/
def mul? (a b : Decimal) : Option Decimal :=
  let scale := a.scale + b.scale
  if a.isZero || b.isZero then some zero
  else if a.mantissa < pow2 32 && b.mantissa < pow2 32 && 47 < scale then some zero
  else round? (a.negative != b.negative) (a.mantissa * b.mantissa) scale

/-- The most places, at most `fuel`, by which `q` can be scaled up within the limit. -/
def room (q : Nat) : Nat → Nat
  | 0 => 0
  | n + 1 => if q * pow10 (n + 1) < limit then n + 1 else room q n

/-- Drops one place of a quotient that reached the limit. -/
def unscaleOver (q : Nat) (inexact : Bool) : Nat :=
  let r := q % 10
  if 5 < r || (r == 5 && (inexact || q / 10 % 2 == 1)) then q / 10 + 1 else q / 10

/-- Rounds a quotient with remainder `r / den`. -/
def roundQuotient (q r den : Nat) (scale : Int) : Option (Nat × Int) :=
  let up := den < 2 * r || (2 * r == den && q % 2 == 1)
  if !up then some (q, scale)
  else if q + 1 < limit then some (q + 1, scale)
  else if 1 ≤ scale then some (limit / 10 + 1, scale - 1) else none

/-- By how many places to extend a quotient with remainder `r`; none if the scale stays negative. -/
def extension (q r : Nat) (scale : Int) : Option Nat :=
  if r = 0 then some (min 9 (-scale).toNat)
  else
    let x := room q (min 9 (28 - scale).toNat)
    if (x : Int) + scale < 0 then none else some x

/-- Long division, up to nine places at a time: the quotient `q`, the remainder `r` of the divisor
`den`, and the scale so far. The last component tells whether a remainder was seen. -/
def longDivide (den : Nat) : Nat → Nat → Nat → Int → Bool → Option (Nat × Int × Bool)
  | 0, q, _, scale, seen => some (q, scale, seen)
  | fuel + 1, q, r, scale, seen =>
    let seen := seen || r != 0
    if r = 0 && 0 ≤ scale then some (q, scale, seen)
    else match extension q r scale with
      | none => none
      | some 0 => (roundQuotient q r den scale).map fun (q, scale) => (q, scale, seen)
      | some places =>
        let shifted := q * pow10 places
        let q := shifted + r * pow10 places / den
        let r := r * pow10 places % den
        let scale := scale + places
        if limit ≤ shifted then none
        else if q < limit then longDivide den fuel q r scale seen
        else if scale < 1 then none
        else some (unscaleOver q (r != 0), scale - 1, seen)

/-- Drops `places` zeros if the quick test on the low bits and the division itself allow it. -/
def dropZeros (places lowBits : Nat) (q scale : Nat) : Nat × Nat :=
  if q % pow2 lowBits = 0 ∧ places ≤ scale ∧ q % pow10 places = 0 then (q / pow10 places, scale - places)
  else (q, scale)

/-- Removes trailing zeros of a quotient, eight places while the low word is zero, then four, two and
one at most once each; what then remains is kept. -/
def unscale (q scale : Nat) : Nat × Nat :=
  let step := fun (p : Nat × Nat) (r : Nat × Nat) => dropZeros r.1 r.2 p.1 p.2
  [(8, 32), (8, 32), (8, 32), (4, 4), (2, 2), (1, 1)].foldl step (q, scale)

/-- The quotient to as many places as fit, rounded half to even. -/
def div? (a b : Decimal) : Option Decimal :=
  if b.isZero then none
  else if a.isZero then some zero
  else do
    let scale : Int := a.scale - b.scale
    let (q, scale, seen) ←
      longDivide b.mantissa 64 (a.mantissa / b.mantissa) (a.mantissa % b.mantissa) scale false
    let (q, scale) := if seen then unscale q scale.toNat else (q, scale.toNat)
    ofParts? (a.negative != b.negative && q != 0) q scale

/-- The remainder of truncating division, exact, with the sign of the dividend. -/
def rem? (a b : Decimal) : Option Decimal :=
  if b.isZero then none
  else if a.isZero then some zero
  else
    let scale := max a.scale b.scale
    let x := (a.signedAt scale).natAbs
    let y := (b.signedAt scale).natAbs
    if x = y then some zero
    else if x < y then some a
    else ofParts? (a.negative && x % y != 0) (x % y) scale

/-- Reads digits with at most one point. Digits after the point that do not fit round the last one
that does, half up, and the rest of the text is not looked at. -/
def readDigits : List Char → Nat → Nat → Bool → Option (Nat × Nat)
  | [], m, s, _ => some (m, s)
  | c :: cs, m, s, point =>
    if c = '.' then (if point then none else readDigits cs m s true)
    else if !c.isDigit then none
    else
      let d := c.toNat - '0'.toNat
      let next := m * 10 + d
      if point && (s == maxScale || limit ≤ next) then
        if d < 5 then some (m, s)
        else if m + 1 < limit then some (m + 1, s)
        else if s = 0 then none
        else some ((m + 5) / 10, s - 1)
      else if limit ≤ next then none
      else readDigits cs next (if point then s + 1 else s) point

/-- Reads a decimal with an optional sign; zero is positive. -/
def parse? (text : String) : Option Decimal :=
  let (negative, digits) := match text.toList with
    | '-' :: cs => (true, cs)
    | '+' :: cs => (false, cs)
    | cs => (false, cs)
  if !digits.any Char.isDigit then none
  else (readDigits digits 0 0 false).bind fun (m, s) => ofParts? (negative && m != 0) m s

def compare (a b : Decimal) : Ordering :=
  let scale := max a.scale b.scale
  Ord.compare (a.signedAt scale) (b.signedAt scale)

/-- The integer part, toward zero. -/
def truncate (d : Decimal) : Int :=
  let i : Int := (d.mantissa / pow10 d.scale : Nat)
  if d.negative then -i else i

/-- Drops the trailing zeros after the point, at most `n` of them. -/
def strip : Nat → Nat → Nat → Nat × Nat
  | 0, m, s => (m, s)
  | n + 1, m, s => if 0 < s ∧ m % 10 = 0 then strip n (m / 10) (s - 1) else (m, s)

/-- The same number without trailing zeros after the point; zero is plain zero. -/
def normalize (d : Decimal) : Decimal :=
  if d.isZero then zero
  else
    let (m, s) := strip d.scale d.mantissa d.scale
    (ofParts? d.negative m s).getD d

/-- Every place of the scale is written, and the sign also of zero. -/
def display (d : Decimal) : String :=
  let ds := Nat.toDigits 10 d.mantissa
  let padded := List.replicate (d.scale + 1 - ds.length) '0' ++ ds
  let whole := padded.length - d.scale
  let text := if d.scale = 0 then padded else padded.take whole ++ '.' :: padded.drop whole
  String.ofList (if d.negative then '-' :: text else text)

/-- The text of a decimal value, without trailing zeros. -/
def canonical (d : Decimal) : String := d.normalize.display

/-- The nearest double of the whole part plus that of the fraction, rounded back to the scale. -/
def toDouble (d : Decimal) : Binary :=
  let f := FloatFormat.double
  if d.scale = 0 then Binary.ofInt f d.signed
  else
    let power := pow10 d.scale
    let whole := Binary.ofInt f (d.mantissa / power : Nat)
    let precision := Binary.ofInt f power
    let fraction := (Binary.ofInt f (d.mantissa % power : Nat)).div f precision
    let value :=
      if fraction.isZero then whole
      else (((whole.add f fraction).mul f precision).round f).div f precision
    if d.negative then value.neg else value

/-- Shifts a binary fraction into a decimal one: each lost power of two is taken out of the mantissa,
or else a factor of five is put in while it fits. Returns the mantissa and its power of ten. -/
def fromNegativePower : Nat → Nat → Int → Nat × Int
  | 0, m, e => (m, e)
  | n + 1, m, e =>
    if m % 2 = 0 then fromNegativePower n (m / 2) (e + 1)
    else if m * 5 < limit then fromNegativePower n (m * 5) e
    else fromNegativePower n (m / 2) (e + 1)

def fromPositivePower : Nat → Nat → Int → Nat × Int
  | 0, m, e => (m, e)
  | n + 1, m, e =>
    if m < pow2 95 then fromPositivePower n (m * 2) (e - 1) else fromPositivePower n (m / 5) e

/-- Multiplies by ten until the power of ten is zero. -/
def raise : Nat → Nat → Option Nat
  | 0, m => some m
  | n + 1, m => if m * 10 < limit then raise n (m * 10) else none

/-- Divides by ten with rounding until at most 28 places are left, or nothing is. -/
def lower : Nat → Nat → Int → Nat × Int
  | 0, m, e => (m, e)
  | n + 1, m, e =>
    if -28 ≤ e then (m, e)
    else if m / 10 = 0 then (0, 0)
    else lower n (if 5 ≤ m % 10 then m / 10 + 1 else m / 10) (e + 1)

/-- Divides by ten with rounding until no more than 52 bits are left. -/
def shed : Nat → Nat → Int → Nat × Int
  | 0, m, e => (m, e)
  | n + 1, m, e =>
    if e < 0 ∧ pow2 52 ≤ m then shed n (if 5 ≤ m % 10 then m / 10 + 1 else m / 10) (e + 1) else (m, e)

/-- A finite double to its decimal precision of about 52 bits; none if it is too large. -/
def ofDouble? : Binary → Option Decimal
  | .finite s m e =>
    if m = 0 then some { zero with negative := s }
    else do
      let (m, e10) :=
        if e < 0 then fromNegativePower (-e).toNat m e else fromPositivePower e.toNat m e
      let m ← raise e10.toNat m
      let e10 := min e10 0
      let (m, e10) := lower 1200 m e10
      let (m, e10) := shed 29 m e10
      let (m, scale) := strip 29 m (-e10).toNat
      ofParts? (s && m != 0) m scale
  | _ => none

end Decimal
end XPath
