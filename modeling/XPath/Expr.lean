import XPath.Function
import XPath.Number.Decimal

/-!
The expression tree. Every expression is an operator applied to operands and carries a note: where it
was written and what is known about it. Expressions are grouped by the number of operands, so that a
pass over the tree needs to name only the operators that it treats specially.
-/
namespace XPath

/-- An atomic constant. -/
inductive Constant where
  | boolean (b : Bool)
  | integer (i : Int)
  | decimal (d : Decimal)
  | double (x : Binary)
  | string (s : String)
  deriving DecidableEq, Repr, Inhabited

namespace Constant

def type : Constant → AtomicType
  | boolean _ => .boolean
  | integer _ => .integer
  | decimal _ => .decimal
  | double _ => .double
  | string _ => .string

end Constant

inductive ArithmeticOp where
  | add | subtract | multiply | divide | integerDivide | modulo
  deriving DecidableEq, Repr, Inhabited

inductive ComparisonOp where
  | eq | ne | lt | le | gt | ge
  deriving DecidableEq, Repr, Inhabited

namespace ComparisonOp

/-- The operator that gives the same answer with the operands swapped. -/
def inverse : ComparisonOp → ComparisonOp
  | eq => eq
  | ne => ne
  | lt => gt
  | le => ge
  | gt => lt
  | ge => le

/-- Whether the operator holds of two values in this order. -/
def test : ComparisonOp → Ordering → Bool
  | eq, o => o == .eq
  | ne, o => o != .eq
  | lt, o => o == .lt
  | le, o => o != .gt
  | gt, o => o == .gt
  | ge, o => o != .lt

end ComparisonOp

inductive NodeComparisonOp where
  | is | precedes | follows
  deriving DecidableEq, Repr, Inhabited

inductive SetOp where
  | union | intersect | except
  deriving DecidableEq, Repr, Inhabited

inductive Quantifier where
  | some | every
  deriving DecidableEq, Repr, Inhabited

inductive Axis where
  | child | descendant | attr | self | descendantOrSelf | followingSibling | following | ns
  | parent | ancestor | precedingSibling | preceding | ancestorOrSelf
  deriving DecidableEq, Repr, Inhabited

namespace Axis

def all : List Axis :=
  [child, descendant, attr, self, descendantOrSelf, followingSibling, following, ns, parent, ancestor,
    precedingSibling, preceding, ancestorOrSelf]

def spelling : Axis → String
  | child => "child"
  | descendant => "descendant"
  | attr => "attribute"
  | self => "self"
  | descendantOrSelf => "descendant-or-self"
  | followingSibling => "following-sibling"
  | following => "following"
  | ns => "namespace"
  | parent => "parent"
  | ancestor => "ancestor"
  | precedingSibling => "preceding-sibling"
  | preceding => "preceding"
  | ancestorOrSelf => "ancestor-or-self"

def ofSpelling? (s : String) : Option Axis := all.find? (·.spelling == s)

/-- A reverse axis gives the nearest node first, against document order. -/
def isReverse : Axis → Bool
  | parent | ancestor | precedingSibling | preceding | ancestorOrSelf => true
  | _ => false

end Axis

inductive NameTest where
  | name (n : QName)
  | any
  /-- Any namespace: `*:l`. -/
  | localPart (l : String)
  /-- Any local part in a namespace. -/
  | inNamespace (uri : String)
  deriving DecidableEq, Repr, Inhabited

inductive NodeTest where
  | name (t : NameTest)
  | kind (t : KindTest)
  deriving DecidableEq, Repr, Inhabited

/-- A variable's place in the frame of an evaluation. -/
abbrev Slot := Nat

/-- An index into the locations of a compile unit. -/
abbrev LocationId := Nat

inductive VariableRef where
  /-- A variable of the expression itself or a parameter. -/
  | range (slot : Slot)
  /-- A variable that the static context declares. -/
  | global (name : QName)
  deriving DecidableEq, Repr, Inhabited

inductive FunctionRef where
  | builtin (f : Builtin)
  /-- An unknown function; calling it is an error. -/
  | unresolved (name : QName)
  deriving DecidableEq, Repr, Inhabited

inductive LeafOp where
  /-- A sequence of constants. -/
  | literal (constants : List Constant)
  | variable (ref : VariableRef)
  | contextItem
  /-- The root of the tree with the context node, which must be a document. -/
  | root
  | step (axis : Axis) (test : NodeTest)
  deriving DecidableEq, Repr, Inhabited

inductive UnaryOp where
  | negate
  | plus
  /-- Document order without duplicates. -/
  | sort
  | reverse
  | first
  | last
  /-- The items `min` to `max`, counted from one; no `max` means to the end. -/
  | slice (min : Nat) (max : Option Nat)
  | cast (target : AtomicType) (allowsEmpty : Bool)
  | castable (target : AtomicType) (allowsEmpty : Bool)
  | treat (type : SequenceType)
  | instanceOf (type : SequenceType)
  | element (name : QName)
  | text
  deriving DecidableEq, Repr, Inhabited

inductive BinaryOp where
  | arithmetic (op : ArithmeticOp)
  | valueComparison (op : ComparisonOp)
  | generalComparison (op : ComparisonOp)
  | nodeComparison (op : NodeComparisonOp)
  | and
  | or
  | range
  | set (op : SetOp)
  /-- The right operand for every node of the left one, not sorted. -/
  | path
  /-- Whether the predicate might select by position. -/
  | filter (positional : Bool)
  /-- The item at a position that does not depend on the focus. -/
  | itemAt
  | for (slot : Slot)
  | let (slot : Slot)
  | quantified (q : Quantifier) (slot : Slot)
  deriving DecidableEq, Repr, Inhabited

inductive TernaryOp where
  | if
  /-- The items of a base whose keys include the value, found through an index. -/
  | indexedFilter
  deriving DecidableEq, Repr, Inhabited

inductive NaryOp where
  /-- The operands one after the other. -/
  | block
  | call (f : FunctionRef)
  deriving DecidableEq, Repr, Inhabited

/-- What is known of an expression's value before it is evaluated. -/
structure StaticInfo where
  cardinality : Cardinality := .zeroOrMore
  item : ItemType := .item
  dependencies : Dependencies := {}
  /-- Each evaluation makes new nodes. -/
  createsNodes : Bool := false
  deriving DecidableEq, Repr, Inhabited

namespace StaticInfo

def type (i : StaticInfo) : SequenceType := ⟨i.item, i.cardinality⟩

end StaticInfo

/-- How to obtain the value of an expression when a variable is bound to it. -/
inductive Mode where
  /-- A constant is its value. -/
  | alreadyValue
  /-- Take the variable's value as it stands, deferred or not. -/
  | evaluateVariable
  /-- Take the variable's value and force it. -/
  | materializeVariable
  /-- Defer; the value will be asked for at most once. -/
  | oneShotClosure (captured : List Slot)
  /-- Defer, and keep the items once they are known. -/
  | memoClosure (captured : List Slot)
  | returnEmpty
  | singleItem
  | iterateAndMaterialize
  | pushProduction
  /-- Drop leading items of a variable's value without copying. -/
  | lazyTail
  /-- Append to a variable's value, in its buffer if that can be done. -/
  | sharedAppend
  deriving DecidableEq, Repr, Inhabited

/-- What every expression carries besides its operator. -/
structure Note where
  location : LocationId
  info : StaticInfo := {}
  mode : Mode := .iterateAndMaterialize
  deriving DecidableEq, Repr, Inhabited

inductive Expr where
  | leaf (note : Note) (op : LeafOp)
  | unary (note : Note) (op : UnaryOp) (a : Expr)
  | binary (note : Note) (op : BinaryOp) (a b : Expr)
  | ternary (note : Note) (op : TernaryOp) (a b c : Expr)
  | nary (note : Note) (op : NaryOp) (args : List Expr)
  deriving Repr, Inhabited

namespace Expr

def note : Expr → Note
  | leaf n _ | unary n _ _ | binary n _ _ _ | ternary n _ _ _ _ | nary n _ _ => n

def withNote (note : Note) : Expr → Expr
  | leaf _ op => leaf note op
  | unary _ op a => unary note op a
  | binary _ op a b => binary note op a b
  | ternary _ op a b c => ternary note op a b c
  | nary _ op args => nary note op args

abbrev location (e : Expr) : LocationId := e.note.location
abbrev info (e : Expr) : StaticInfo := e.note.info
abbrev mode (e : Expr) : Mode := e.note.mode
abbrev cardinality (e : Expr) : Cardinality := e.note.info.cardinality
abbrev itemType (e : Expr) : ItemType := e.note.info.item
abbrev type (e : Expr) : SequenceType := e.note.info.type

def withInfo (info : StaticInfo) (e : Expr) : Expr := e.withNote { e.note with info }
def withMode (mode : Mode) (e : Expr) : Expr := e.withNote { e.note with mode }

/-- The operands, in the order in which they are evaluated. -/
def children : Expr → List Expr
  | leaf .. => []
  | unary _ _ a => [a]
  | binary _ _ a b => [a, b]
  | ternary _ _ a b c => [a, b, c]
  | nary _ _ args => args

/-- An expression nothing is known about yet. -/
def mkLeaf (op : LeafOp) (at' : LocationId) : Expr := leaf { location := at' } op
def mkUnary (op : UnaryOp) (a : Expr) (at' : LocationId) : Expr := unary { location := at' } op a
def mkBinary (op : BinaryOp) (a b : Expr) (at' : LocationId) : Expr :=
  binary { location := at' } op a b
def mkTernary (op : TernaryOp) (a b c : Expr) (at' : LocationId) : Expr :=
  ternary { location := at' } op a b c
def mkNary (op : NaryOp) (args : List Expr) (at' : LocationId) : Expr :=
  nary { location := at' } op args

def emptyAt (at' : LocationId) : Expr := mkLeaf (.literal []) at'
def constantAt (c : Constant) (at' : LocationId) : Expr := mkLeaf (.literal [c]) at'
def callAt (f : Builtin) (args : List Expr) (at' : LocationId) : Expr :=
  mkNary (.call (.builtin f)) args at'

def isEmptyLiteral : Expr → Bool
  | leaf _ (.literal []) => true
  | _ => false

/-- The constant, if the expression is a single one. -/
def constant? : Expr → Option Constant
  | leaf _ (.literal [c]) => some c
  | _ => none

def isSort : Expr → Bool
  | unary _ .sort _ => true
  | _ => false

def isCallTo (f : Builtin) : Expr → Bool
  | nary _ (.call (.builtin g)) _ => f == g
  | _ => false

mutual

/-- The expression and everything in it, each before its operands. -/
def preorder : Expr → List Expr
  | leaf n op => [leaf n op]
  | unary n op a => unary n op a :: a.preorder
  | binary n op a b => binary n op a b :: (a.preorder ++ b.preorder)
  | ternary n op a b c => ternary n op a b c :: (a.preorder ++ (b.preorder ++ c.preorder))
  | nary n op args => nary n op args :: preorderList args

def preorderList : List Expr → List Expr
  | [] => []
  | e :: es => e.preorder ++ preorderList es

end

end Expr
end XPath
