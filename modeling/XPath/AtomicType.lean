import XPath.Name

/-! The built-in schema types, their derivation hierarchy and the profiles that admit them. -/
namespace XPath

inductive AtomicType where
  | anyType | anySimpleType | untyped | anyAtomicType | string | untypedAtomic | boolean | decimal
  | nonPositiveInteger | negativeInteger | nonNegativeInteger | positiveInteger | integer
  | long | int | short | byte | unsignedLong | unsignedInt | unsignedShort | unsignedByte
  | float | double | notationType
  deriving DecidableEq, Repr, Inhabited

namespace AtomicType

def all : List AtomicType :=
  [anyType, anySimpleType, untyped, anyAtomicType, string, untypedAtomic, boolean, decimal,
    nonPositiveInteger, negativeInteger, nonNegativeInteger, positiveInteger, integer,
    long, int, short, byte, unsignedLong, unsignedInt, unsignedShort, unsignedByte,
    float, double, notationType]

def localName : AtomicType → String
  | anyType => "anyType"
  | anySimpleType => "anySimpleType"
  | untyped => "untyped"
  | anyAtomicType => "anyAtomicType"
  | string => "string"
  | untypedAtomic => "untypedAtomic"
  | boolean => "boolean"
  | decimal => "decimal"
  | nonPositiveInteger => "nonPositiveInteger"
  | negativeInteger => "negativeInteger"
  | nonNegativeInteger => "nonNegativeInteger"
  | positiveInteger => "positiveInteger"
  | integer => "integer"
  | long => "long"
  | int => "int"
  | short => "short"
  | byte => "byte"
  | unsignedLong => "unsignedLong"
  | unsignedInt => "unsignedInt"
  | unsignedShort => "unsignedShort"
  | unsignedByte => "unsignedByte"
  | float => "float"
  | double => "double"
  | notationType => "NOTATION"

def ofLocalName? (s : String) : Option AtomicType := all.find? (·.localName = s)

/-- Only names in the schema namespace name a type. -/
def ofName? (n : Name) : Option AtomicType :=
  if n.uri = some Namespaces.schema then ofLocalName? n.localPart else none

def parent : AtomicType → Option AtomicType
  | anyType => none
  | anySimpleType | untyped => some anyType
  | anyAtomicType => some anySimpleType
  | untypedAtomic | string | boolean | float | double | decimal | notationType =>
    some anyAtomicType
  | integer => some decimal
  | nonPositiveInteger | long | nonNegativeInteger => some integer
  | negativeInteger => some nonPositiveInteger
  | int => some long
  | short => some int
  | byte => some short
  | positiveInteger | unsignedLong => some nonNegativeInteger
  | unsignedInt => some unsignedLong
  | unsignedShort => some unsignedInt
  | unsignedByte => some unsignedShort

/-- The number of steps up to `anyType`. -/
def depth : AtomicType → Nat
  | anyType => 0
  | anySimpleType | untyped => 1
  | anyAtomicType => 2
  | untypedAtomic | string | boolean | float | double | decimal | notationType => 3
  | integer => 4
  | nonPositiveInteger | long | nonNegativeInteger => 5
  | negativeInteger | int | positiveInteger | unsignedLong => 6
  | short | unsignedInt => 7
  | byte | unsignedShort => 8
  | unsignedByte => 9

/-- The type, its parent, and so on, for at most `n` steps. -/
def climb : Nat → AtomicType → List AtomicType
  | 0, a => [a]
  | n + 1, a => a :: (match a.parent with
    | none => []
    | some b => climb n b)

/-- The type itself, its parent, and so on up to `anyType`. -/
def ancestors (a : AtomicType) : List AtomicType := climb a.depth a

def derivesFrom (a b : AtomicType) : Bool := a.ancestors.contains b

/-- The nearest common ancestor. -/
def common (a b : AtomicType) : AtomicType := (a.ancestors.find? b.derivesFrom).getD anyType

/-- No value has one of these as its own type, so they cannot be cast to. -/
def isAbstract : AtomicType → Bool
  | anyAtomicType | anySimpleType | notationType => true
  | _ => false

def isAtomic (a : AtomicType) : Bool := a.derivesFrom anyAtomicType

def isNumeric (a : AtomicType) : Bool := a.derivesFrom decimal || a = float || a = double

/-- The inclusive bounds of an integer type; a missing bound is unlimited. -/
def bounds : AtomicType → Option (Option Int × Option Int)
  | integer => some (none, none)
  | nonPositiveInteger => some (none, some 0)
  | negativeInteger => some (none, some (-1))
  | nonNegativeInteger => some (some 0, none)
  | positiveInteger => some (some 1, none)
  | long => some (some (-9223372036854775808), some 9223372036854775807)
  | int => some (some (-2147483648), some 2147483647)
  | short => some (some (-32768), some 32767)
  | byte => some (some (-128), some 127)
  | unsignedLong => some (some 0, some 18446744073709551615)
  | unsignedInt => some (some 0, some 4294967295)
  | unsignedShort => some (some 0, some 65535)
  | unsignedByte => some (some 0, some 255)
  | _ => none

/-- Whether the number lies within the bounds of the type. -/
def inBounds (t : AtomicType) (i : Int) : Bool :=
  match t.bounds with
  | some (lo, hi) => lo.all (· ≤ i) && hi.all (i ≤ ·)
  | none => true

end AtomicType

/-- Which types a query may name. The basic profile has no derived integer types. -/
inductive Profile where
  | basic | full
  deriving DecidableEq, Repr

namespace Profile

def allows : Profile → AtomicType → Bool
  | full, _ => true
  | basic, t => t ∈ [AtomicType.anyType, .anySimpleType, .untyped, .anyAtomicType, .string,
      .untypedAtomic, .boolean, .decimal, .integer, .float, .double]

end Profile
end XPath
