import XPath.Expr.Analysis
import XPath.Atomic

/-! Filters whose predicate has a form that a cheaper operator can answer: constant positions, ranges of
positions, a number that stays the same, conjunctions with a positional side, and equality with a key. -/
namespace XPath

/-- The positions from `min` to `max`, counted from one; without `max`, to the end. -/
structure Positions where
  min : Nat
  max : Option Nat
  deriving DecidableEq, Repr

namespace Positions

def ofInts (min : Int) (max : Option Int) : Positions := ⟨Max.max min.toNat 1, max.map Int.toNat⟩

def none : Positions := ⟨1, some 0⟩

def intersect (p q : Positions) : Positions :=
  ⟨Max.max p.min q.min, match p.max, q.max with
    | some m, some n => some (Min.min m n)
    | m, n => m <|> n⟩

def isEmpty (p : Positions) : Bool := p.max.any (· < p.min)

end Positions

namespace Expr

/-- The cheapest expression for the items of a base at the positions. -/
def select (base : Expr) (p : Positions) (at' : LocationId) : Expr :=
  if p.isEmpty then .emptyAt at'
  else match p.min, p.max with
    | 1, none => base
    | 1, some 1 => .mkUnary .first base at'
    | min, max =>
      if max = some min then .mkBinary .itemAt base (.constantAt (.integer min) at') at'
      else .mkUnary (.slice min max) base at'

def isPositionCall : Expr → Bool
  | nary _ (.call (.builtin .position)) [] => true
  | _ => false

/-- An integer literal of machine size. -/
def smallInteger? (e : Expr) : Option Int :=
  match e.constant? with
  | some (.integer i) => (Atomic.ofInt i).toIndex?
  | _ => none

def largestIndex : Int := pow2 63 - 1

/-- The positions that compare as asked with a number. -/
def positionsOf : ComparisonOp → Int → Option Positions
  | .eq, n => some (.ofInts n (some n))
  | .lt, n => some (.ofInts 1 (some (n - 1)))
  | .le, n => some (.ofInts 1 (some n))
  | .gt, n => some (.ofInts (min (n + 1) largestIndex) none)
  | .ge, n => some (.ofInts n none)
  | .ne, _ => none

/-- The positions that compare as asked with an operand; a range is met by each of its members. -/
def positionsAgainst (op : ComparisonOp) (general : Bool) : Expr → Option Positions
  | binary _ .range low high =>
    if general && op = .eq then do
      let m ← low.smallInteger?
      let n ← high.smallInteger?
      return .ofInts m (some n)
    else none
  | e => e.smallInteger?.bind (positionsOf op)

/-- A comparison with `position()` on one side. -/
def comparedPositions (op : ComparisonOp) (general : Bool) (a b : Expr) : Option Positions :=
  if a.isPositionCall then positionsAgainst op general b
  else if b.isPositionCall then positionsAgainst op.inverse general a
  else none

/-- The positions that a predicate selects, if it compares `position()` with integer literals, or joins
such comparisons with `and`. -/
def positions? : Expr → Option Positions
  | binary _ .and a b => do
    let p ← a.positions?
    let q ← b.positions?
    return p.intersect q
  | binary _ (.generalComparison op) a b => comparedPositions op true a b
  | binary _ (.valueComparison op) a b => comparedPositions op false a b
  | _ => none

/-- One number that is the same for every item. -/
def isInvariantNumber (e : Expr) : Bool :=
  (match e.itemType with
    | .atomic t => t.isNumeric
    | _ => false) &&
  e.cardinality = .one && !e.info.dependencies.focus && !e.info.createsNodes

def readsPosition (e : Expr) : Bool := e.info.dependencies.position || e.info.dependencies.last

def toBoolean (e : Expr) : Expr := .callAt .boolean [e] e.location

/-- Without the sort, where it is one of nodes and only their presence counts. -/
def unordered : Expr → Expr
  | unary n .sort a => if a.itemType.isNode then a else unary n .sort a
  | e => e

/-- A sort of nodes. -/
def isNodeSort : Expr → Bool
  | unary _ .sort a => a.itemType.isNode
  | _ => false

/-- Whether the value is the same from every node of a tree. -/
def isAbsolute : Expr → Bool
  | leaf _ .root => true
  | unary _ op a => match op with
    | .sort | .first | .last | .slice .. => a.isAbsolute
    | _ => false
  | binary _ op a _ => match op with
    | .path | .filter _ | .itemAt => a.isAbsolute
    | _ => false
  | ternary _ .indexedFilter a _ _ => a.isAbsolute
  | _ => false

/-- Where a path starts. -/
def leftmost : Expr → Expr
  | unary n op a => match op with
    | .sort | .reverse => a.leftmost
    | _ => unary n op a
  | binary n op a b => match op with
    | .path | .filter _ => a.leftmost
    | _ => binary n op a b
  | e => e

/-- Whether the expression is a path from the context item that reads nothing else. -/
def isKeyPath (e : Expr) : Bool :=
  e.info.dependencies = { item := true } && !e.info.createsNodes && e.freeSlots.isEmpty &&
  match e.leftmost with
  | leaf _ (.step ..) | leaf _ .contextItem => true
  | _ => false

def isLookupValue (e : Expr) : Bool := !e.info.dependencies.focus && !e.info.createsNodes

/-- Whether a sequence can be indexed: it is the same wherever in a document it is evaluated. -/
def isIndexable (base : Expr) : Bool :=
  let d := base.info.dependencies
  base.isAbsolute && base.freeSlots.isEmpty && !base.info.createsNodes &&
    !d.position && !d.last && !d.group && !d.matched

/-- The key path and the value of a predicate that compares them for equality. -/
def indexKey? (base : Expr) : Expr → Option (Expr × Expr)
  | binary _ (.generalComparison .eq) a b =>
    if !base.isIndexable then none
    else if a.isKeyPath && b.isLookupValue then some (a, b)
    else if b.isKeyPath && a.isLookupValue then some (b, a)
    else none
  | _ => none

/-- A predicate that is a constant: an integer selects by position, a boolean or a string by its truth. -/
def selectConstant? (base : Expr) (at' : LocationId) : Constant → Option Expr
  | .integer i =>
    let p := match (Atomic.ofInt i).toIndex? with
      | some n => Positions.ofInts n (some n)
      | none => Positions.none
    some (base.select p at')
  | .boolean b => some (if b then base else .emptyAt at')
  | .string s => some (if s.isEmpty then .emptyAt at' else base)
  | .decimal _ | .double _ => none

/-- The filters that need only the predicate as a whole. -/
def selectWhole? (base predicate : Expr) (at' : LocationId) : Option Expr :=
  match predicate.constant?.bind (base.selectConstant? at') with
  | some e => some e
  | none =>
    match predicate.positions? with
    | some p => some (base.select p at')
    | none => if predicate.isInvariantNumber then some (.mkBinary .itemAt base predicate at') else none

/-- A filter that none of the forms above fits: a sort in the predicate is dropped, and equality with a
key becomes an indexed lookup. -/
def filterPlainly (n : Note) (positional index : Bool) (base predicate : Expr) : Expr × Bool :=
  if positional then (binary n (.filter positional) base predicate, false)
  else
    let p := predicate.unordered
    let key? := if index then base.indexKey? p else none
    match key? with
    | some (key, value) => (.mkTernary .indexedFilter base key value n.location, true)
    | none => (binary n (.filter positional) base p, predicate.isNodeSort && !p.isSort)

/-- A checked filter in the cheapest form that its predicate allows, and whether that is another. Where
exactly one side of a conjunction asks for the position, that side selects first and the other one
filters what is left. -/
def specialize (n : Note) (positional index : Bool) (base : Expr) : Expr → Expr × Bool
  | binary m .and a b =>
    let whole := binary m .and a b
    match base.selectWhole? whole n.location with
    | some e => (e, true)
    | none =>
      let at' := n.location
      let inner (side : Expr × Bool) (other : Expr) :=
        (Expr.mkBinary (.filter false) side.1 other.toBoolean at', true)
      if a.readsPosition && !b.readsPosition then
        inner (if a.itemType.mayBeNumeric then positionalFilter at' base a.toBoolean
          else specialize { location := at' } true false base a) b
      else if b.readsPosition && !a.readsPosition then
        inner (if b.itemType.mayBeNumeric then positionalFilter at' base b.toBoolean
          else specialize { location := at' } true false base b) a
      else filterPlainly n positional index base whole
  | predicate =>
    match base.selectWhole? predicate n.location with
    | some e => (e, true)
    | none => filterPlainly n positional index base predicate
where
  /-- A filter whose predicate is a call, which has no special form. -/
  positionalFilter (at' : LocationId) (base predicate : Expr) : Expr × Bool :=
    match base.selectWhole? predicate at' with
    | some e => (e, true)
    | none => filterPlainly { location := at' } true false base predicate

end Expr
end XPath
