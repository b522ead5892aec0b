import XPath.Atomic.Arithmetic

/-! Comparison of atomic values, of single ones and of the members of sequences. -/
namespace XPath.Atomic

/-- Text is ordered by code points. -/
def compareText (s t : String) : Ordering := compareOfLessAndEq s t

/-- The order of two values of one type; the outer none is for types that do not compare, the inner one
for NaN. -/
def order? : Atomic → Atomic → Option (Option Ordering)
  | integer _ i, integer _ j => some (some (compare i j))
  | decimal x, decimal y => some (some (x.compare y))
  | float x, float y | double x, double y => some (x.compare? y)
  | string s, string t => some (some (compareText s t))
  | boolean b, boolean c => some (some (compare b.toNat c.toNat))
  | _, _ => none

/-- An untyped operand of a value comparison is read as a string. -/
def untypedToString : Atomic → Atomic
  | untyped s => string s
  | a => a

/-- A value comparison. NaN differs from everything, itself included. -/
def compareValues (op : ComparisonOp) (a b : Atomic) : Except ErrorCode Bool := do
  let (a, b) ← promote a.untypedToString b.untypedToString
  match order? a b with
  | none => .error .typeMismatch
  | some none => .ok (op == .ne)
  | some (some o) => .ok (op.test o)

/-- An untyped value read as the other operand of a general comparison asks: as a double beside a
number, else as the other's type. -/
def untypedAs (a other : Atomic) : Except ErrorCode Atomic :=
  if other.isNumeric then a.cast .double else a.cast other.type

/-- One pair of a general comparison. -/
def compareGeneral (op : ComparisonOp) (a b : Atomic) : Except ErrorCode Bool := do
  match a.isUntyped, b.isUntyped with
  | true, false => compareValues op (← untypedAs a b) b
  | false, true => compareValues op a (← untypedAs b a)
  | _, _ => compareValues op a b

/-- Whether two values are of one type and equal. All values that are not numbers are the same, and so are
decimals with more or fewer zeros at the end. -/
def same (a b : Atomic) : Bool :=
  match a, b with
  | decimal x, decimal y => x.compare y == .eq
  | float x, float y | double x, double y => (x.isNaN && y.isNaN) || x.compare? y == some .eq
  | _, _ => a == b

end XPath.Atomic
