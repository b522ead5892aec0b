import XPath.Atomic
import XPath.Text.Blank

/-! Casting between atomic types, with the lexical forms that text is read in. -/
namespace XPath

namespace Lexical

/-- The sign, if there is one, and the rest. -/
def splitSign : List Char → Bool × List Char
  | '-' :: cs => (true, cs)
  | '+' :: cs => (false, cs)
  | cs => (false, cs)

def digitsValue (ds : List Char) : Nat := ds.foldl (fun n c => n * 10 + (c.toNat - '0'.toNat)) 0

def integer? (s : String) : Option Int :=
  let (negative, ds) := splitSign (Blank.trim s.toList)
  if ds.isEmpty || !ds.all Char.isDigit then none
  else
    let n : Int := digitsValue ds
    some (if negative then -n else n)

/-- Digits with at most one point and at least one digit; a value that is too large has an error of
its own. -/
def decimal (s : String) : Except ErrorCode Decimal :=
  let (negative, cs) := splitSign (Blank.trim s.toList)
  if cs.isEmpty || cs == ['.'] || !cs.all (fun c => c.isDigit || c == '.') || 1 < cs.count '.' then
    .error .invalidCast
  else match Decimal.parse? (String.ofList cs) with
    | some d => .ok (if negative then d.neg else d)
    | none => .error .decimalTooLarge

/-- A number in decimal notation with an optional exponent; all of the text. -/
def scientific? (f : FloatFormat) (cs : List Char) : Option Binary :=
  let (negative, cs) := splitSign cs
  let whole := cs.takeWhile Char.isDigit
  let rest := cs.drop whole.length
  let (fraction, rest) := match rest with
    | '.' :: r => (r.takeWhile Char.isDigit, r.dropWhile Char.isDigit)
    | r => ([], r)
  let digits := whole ++ fraction
  if digits.isEmpty then none
  else
    let value (e : Int) :=
      some (Binary.ofScientific f negative (digitsValue digits) (e - fraction.length))
    match rest with
    | [] => value 0
    | c :: r =>
      let (down, ds) := splitSign r
      if (c == 'e' || c == 'E') && !ds.isEmpty && ds.all Char.isDigit then
        let e : Int := digitsValue ds
        value (if down then -e else e)
      else none

def double? (s : String) : Option Binary :=
  let cs := Blank.trim s.toList
  match String.ofList cs with
  | "INF" | "+INF" => some (.infinite false)
  | "-INF" => some (.infinite true)
  | "NaN" => some .nan
  | _ => scientific? .double cs

def boolean? (s : String) : Option Bool :=
  match String.ofList (Blank.trim s.toList) with
  | "true" | "1" => some true
  | "false" | "0" => some false
  | _ => none

end Lexical

namespace Atomic

def orElse (e : ErrorCode) : Option α → Except ErrorCode α
  | some a => .ok a
  | none => .error e

def toBoolean : Atomic → Except ErrorCode Bool
  | string s | untyped s => orElse .invalidCast (Lexical.boolean? s)
  | a => .ok a.truth

def toDouble : Atomic → Except ErrorCode Binary
  | string s | untyped s => orElse .invalidCast (Lexical.double? s)
  | boolean b => .ok (Binary.ofInt .double b.toNat)
  | integer _ i => .ok (Binary.ofInt .double i)
  | decimal d => .ok d.toDouble
  | float x => .ok (x.convert .double)
  | double x => .ok x

/-- By way of a double. -/
def toFloat (a : Atomic) : Except ErrorCode Binary := a.toDouble.map (·.convert .single)

def toDecimal : Atomic → Except ErrorCode Decimal
  | string s | untyped s => Lexical.decimal s
  | boolean b => .ok (if b then Decimal.one else Decimal.zero)
  | integer _ i => orElse .decimalTooLarge (Decimal.ofInt? i)
  | decimal d => .ok d
  | float x | double x =>
    if x.isFinite then orElse .decimalTooLarge (Decimal.ofDouble? (x.convert .double))
    else .error .invalidLexical

/-- The integer part of a number. One of more than 127 bits cannot be taken from a float. -/
def toInteger : Atomic → Except ErrorCode Int
  | string s | untyped s => orElse .invalidCast (Lexical.integer? s)
  | boolean b => .ok b.toNat
  | integer _ i => .ok i
  | decimal d => .ok d.truncate
  | float x | double x => orElse .invalidLexical (x.truncate?.filter (·.natAbs < pow2 127))

/-- The value as `cast as` gives it. -/
def cast (a : Atomic) (target : AtomicType) : Except ErrorCode Atomic :=
  if a.type = target then .ok a
  else match target with
    | .string => .ok (string a.text)
    | .untypedAtomic => .ok (untyped a.text)
    | .boolean => a.toBoolean.map boolean
    | .decimal => a.toDecimal.map decimal
    | .float => a.toFloat.map float
    | .double => a.toDouble.map double
    | .anyAtomicType | .anySimpleType | .notationType => .error .abstractCast
    | t =>
      if t.derivesFrom .integer then do
        let i ← a.toInteger
        if t.inBounds i then .ok (integer t i) else .error .invalidCast
      else .error .typeMismatch

def castable (a : Atomic) (target : AtomicType) : Bool := (a.cast target).isOk

end Atomic
end XPath
