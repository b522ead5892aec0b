import XPath.Number.Rounding

/-!
Binary floating-point numbers as exact mathematics: a sign, an integer mantissa and a power of two.
Every operation computes the exact result and rounds it once, to the nearest number of the format,
a half to the even mantissa.
-/
namespace XPath

/-- The precision in bits and the range of exponents of the integer mantissa. -/
structure FloatFormat where
  precision : Nat
  minExponent : Int
  maxExponent : Int
  deriving DecidableEq, Repr

namespace FloatFormat

def single : FloatFormat := ⟨24, -149, 104⟩
def double : FloatFormat := ⟨53, -1074, 971⟩

end FloatFormat

/-- A finite number is its mantissa times two to its exponent. -/
inductive Binary where
  | nan
  | infinite (negative : Bool)
  | finite (negative : Bool) (mantissa : Nat) (exponent : Int)
  deriving DecidableEq, Repr, Inhabited

namespace Binary

def zero (f : FloatFormat) (negative : Bool) : Binary := finite negative 0 f.minExponent

/-- Numerator and denominator of `mantissa · pow2 exponent`. -/
def ratio (mantissa : Nat) (exponent : Int) : Nat × Nat :=
  if 0 ≤ exponent then (mantissa * pow2 exponent.toNat, 1) else (mantissa, pow2 (-exponent).toNat)

/-- The pair whose quotient is `num / den / pow2 exponent`. -/
def scaled (num den : Nat) (exponent : Int) : Nat × Nat :=
  if 0 ≤ exponent then (num, den * pow2 exponent.toNat) else (num * pow2 (-exponent).toNat, den)

/-- The exponent whose mantissas have full precision at `num / den`. -/
def exponentOf (f : FloatFormat) (num den : Nat) : Int :=
  let e := (Nat.log2 num : Int) - Nat.log2 den - f.precision + 1
  let (n, d) := scaled num den e
  max f.minExponent (if n / d < pow2 (f.precision - 1) then e - 1 else e)

/-- The number of the format nearest to `num / den`. -/
def ofRatio (f : FloatFormat) (negative : Bool) (num den : Nat) : Binary :=
  if num = 0 then zero f negative
  else
    let e := exponentOf f num den
    let (n, d) := scaled num den e
    let q := roundHalfEven n d
    let (q, e) := if q = pow2 f.precision then (pow2 (f.precision - 1), e + 1) else (q, e)
    if f.maxExponent < e then infinite negative else finite negative q e

def ofInt (f : FloatFormat) (i : Int) : Binary := ofRatio f (i < 0) i.natAbs 1

/-- `digits · pow10 exponent`, rounded. Beyond `pow10 400` either way the answer is already certain. -/
def ofScientific (f : FloatFormat) (negative : Bool) (digits : Nat) (exponent : Int) : Binary :=
  let size := exponent + digitCount digits
  if digits = 0 || size < -400 then zero f negative
  else if 400 < size then infinite negative
  else if 0 ≤ exponent then ofRatio f negative (digits * pow10 exponent.toNat) 1
  else ofRatio f negative digits (pow10 (-exponent).toNat)

/-- The same value in another format, rounded. -/
def convert (f : FloatFormat) : Binary → Binary
  | finite s m e => let (n, d) := ratio m e; ofRatio f s n d
  | x => x

def isNaN : Binary → Bool
  | nan => true
  | _ => false

def isFinite : Binary → Bool
  | finite .. => true
  | _ => false

def isZero : Binary → Bool
  | finite _ m _ => m == 0
  | _ => false

def isNegative : Binary → Bool
  | nan => false
  | infinite s => s
  | finite s _ _ => s

def neg : Binary → Binary
  | nan => nan
  | infinite s => infinite !s
  | finite s m e => finite (!s) m e

def abs : Binary → Binary
  | nan => nan
  | infinite _ => infinite false
  | finite _ m e => finite false m e

/-- The signed mantissa at a smaller exponent. -/
def signedAt (s : Bool) (m : Nat) (e : Int) (low : Int) : Int :=
  let i : Int := m * pow2 (e - low).toNat
  if s then -i else i

/-- An exact sum of zero is negative only if both operands are. -/
def add (f : FloatFormat) : Binary → Binary → Binary
  | nan, _ | _, nan => nan
  | infinite s, infinite t => if s = t then infinite s else nan
  | infinite s, finite .. | finite .., infinite s => infinite s
  | finite s m e, finite t n g =>
    let low := min e g
    let sum := signedAt s m e low + signedAt t n g low
    if sum = 0 then zero f (s && t)
    else let (a, b) := ratio sum.natAbs low; ofRatio f (sum < 0) a b

def sub (f : FloatFormat) (a b : Binary) : Binary := add f a b.neg

def mul (f : FloatFormat) : Binary → Binary → Binary
  | nan, _ | _, nan => nan
  | infinite s, infinite t => infinite (s != t)
  | infinite s, finite t m _ | finite t m _, infinite s => if m = 0 then nan else infinite (s != t)
  | finite s m e, finite t n g => let (a, b) := ratio (m * n) (e + g); ofRatio f (s != t) a b

def div (f : FloatFormat) : Binary → Binary → Binary
  | nan, _ | _, nan | infinite _, infinite _ => nan
  | infinite s, finite t .. => infinite (s != t)
  | finite s .., infinite t => zero f (s != t)
  | finite s m e, finite t n g =>
    if n = 0 then (if m = 0 then nan else infinite (s != t))
    else
      let (a, b) := ratio m (e - g)
      ofRatio f (s != t) a (b * n)

/-- The remainder of truncating division, exact, with the sign of the dividend. -/
def rem (f : FloatFormat) : Binary → Binary → Binary
  | nan, _ | _, nan | infinite _, _ => nan
  | finite s m e, infinite _ => finite s m e
  | finite s m e, finite _ n g =>
    if n = 0 then nan
    else
      let low := min e g
      let r := (m * pow2 (e - low).toNat) % (n * pow2 (g - low).toNat)
      let (a, b) := ratio r low
      ofRatio f s a b

/-- Numeric order; nothing compares with NaN, and the two zeros are equal. -/
def compare? : Binary → Binary → Option Ordering
  | nan, _ | _, nan => none
  | infinite s, infinite t => some (if s = t then .eq else if s then .lt else .gt)
  | infinite s, finite .. => some (if s then .lt else .gt)
  | finite .., infinite t => some (if t then .gt else .lt)
  | finite s m e, finite t n g =>
    let low := min e g
    some (compare (signedAt s m e low) (signedAt t n g low))

/-- The integer part, toward zero; none of a number that is not finite. -/
def truncate? : Binary → Option Int
  | finite s m e =>
    let (a, b) := ratio m e
    some (if s then -(a / b : Nat) else (a / b : Nat))
  | _ => none

/-- Whether the number is finite and has no fractional part. -/
def isIntegral : Binary → Bool
  | finite _ m e => let (a, b) := ratio m e; a % b == 0
  | _ => false

/-- Replaces a finite magnitude `num / den` by an integer, keeping the sign. -/
def toIntegral (f : FloatFormat) (rule : Bool → Nat → Nat → Nat) : Binary → Binary
  | finite s m e => let (a, b) := ratio m e; ofRatio f s (rule s a b) 1
  | x => x

def trunc (f : FloatFormat) : Binary → Binary := toIntegral f fun _ a b => a / b

def floor (f : FloatFormat) : Binary → Binary :=
  toIntegral f fun s a b => if s then (a + b - 1) / b else a / b

def ceil (f : FloatFormat) : Binary → Binary :=
  toIntegral f fun s a b => if s then a / b else (a + b - 1) / b

/-- To the nearest integer, a half away from zero. -/
def round (f : FloatFormat) : Binary → Binary := toIntegral f fun _ a b => roundHalfUp a b

end Binary
end XPath
