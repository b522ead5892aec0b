import XPath.Expr
import XPath.ErrorCode
import XPath.Number.Shortest

/-! Atomic values, their text and their truth. -/
namespace XPath

inductive Atomic where
  /-- The value of a node without a schema type. -/
  | untyped (s : String)
  | string (s : String)
  | boolean (b : Bool)
  /-- An integer and the integer type it was made as. -/
  | integer (type : AtomicType) (i : Int)
  | decimal (d : Decimal)
  | float (x : Binary)
  | double (x : Binary)
  deriving DecidableEq, Repr, Inhabited

namespace Atomic

def type : Atomic → AtomicType
  | untyped _ => .untypedAtomic
  | string _ => .string
  | boolean _ => .boolean
  | integer t _ => t
  | decimal _ => .decimal
  | float _ => .float
  | double _ => .double

def ofInt (i : Int) : Atomic := integer .integer i

def isNumeric : Atomic → Bool
  | integer .. | decimal _ | float _ | double _ => true
  | _ => false

def isNaN : Atomic → Bool
  | float x | double x => x.isNaN
  | _ => false

def isUntyped : Atomic → Bool
  | untyped _ => true
  | _ => false

/-- The truth of a sequence with this item alone. -/
def truth : Atomic → Bool
  | boolean b => b
  | string s | untyped s => !s.isEmpty
  | integer _ i => i != 0
  | decimal d => !d.isZero
  | float x | double x => !(x.isNaN || x.isZero)

def text : Atomic → String
  | string s | untyped s => s
  | boolean b => if b then "true" else "false"
  | integer _ i => toString i
  | decimal d => d.canonical
  | float x => x.canonical .single
  | double x => x.canonical .double

/-- The value of a number as a double. -/
def toDouble? : Atomic → Option Binary
  | integer _ i => some (Binary.ofInt .double i)
  | decimal d => some d.toDouble
  | float x => some (x.convert .double)
  | double x => some x
  | _ => none

/-- The value of a number that is integral and fits a machine word. -/
def toIndex? (a : Atomic) : Option Int :=
  match a with
  | integer _ i => if -pow2 63 ≤ i ∧ i < pow2 63 then some i else none
  | _ => a.toDouble?.bind fun x =>
    if x.isIntegral then x.truncate?.bind fun i => if i.natAbs < pow2 63 then some i else none
    else none

/-- The position, counted from one, that a number selects as a predicate. -/
def position? (a : Atomic) : Option Nat :=
  match if a.isNumeric then a.toIndex? else none with
  | some (.ofNat (n + 1)) => some (n + 1)
  | _ => none

/-- The constant that writes the value. Derived integers, floats and untyped values have none. -/
def toConstant? : Atomic → Option Constant
  | string s => some (.string s)
  | boolean b => some (.boolean b)
  | integer t i => if t = .integer then some (.integer i) else none
  | decimal d => some (.decimal d)
  | double x => some (.double x)
  | untyped _ | float _ => none

def ofConstant : Constant → Atomic
  | .boolean b => boolean b
  | .integer i => ofInt i
  | .decimal d => decimal d
  | .double x => double x
  | .string s => string s

end Atomic
end XPath
