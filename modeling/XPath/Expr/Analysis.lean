import XPath.Expr

/-! Questions about an expression that the passes ask: its free variables, how often a variable is
used, and whether its nodes come in document order. -/
namespace XPath

/-- The ways of evaluating that an operator offers itself. -/
structure Methods where
  item : Bool := false
  iterate : Bool := false
  process : Bool := false
  deriving DecidableEq, Repr, Inhabited

namespace Methods

def bits (m : Methods) : Nat := m.item.toNat + 2 * m.iterate.toNat + 4 * m.process.toNat

end Methods

/-- How far the nodes of a value are known to be in document order. -/
inductive NodeOrder where
  | unknown
  /-- In document order, without duplicates. -/
  | ordered
  /-- Ordered, and none an ancestor of another. -/
  | orderedPeer
  deriving DecidableEq, Repr, Inhabited

namespace NodeOrder

def rank : NodeOrder → Nat
  | unknown => 0
  | ordered => 1
  | orderedPeer => 2

def max (a b : NodeOrder) : NodeOrder := if a.rank < b.rank then b else a

def isOrdered (o : NodeOrder) : Bool := o != unknown

end NodeOrder

namespace Expr

def methods : Expr → Methods
  | leaf _ (.literal _) | nary _ (.call _) _ => { item := true, iterate := true }
  | leaf _ .contextItem | leaf _ .root => { item := true }
  | leaf _ (.variable _) | leaf _ (.step ..) => { iterate := true }
  | unary _ op _ => match op with
    | .negate | .plus | .cast .. | .castable .. | .instanceOf _ | .first | .last => { item := true }
    | .element _ | .text => { process := true }
    | .sort | .reverse | .slice .. | .treat _ => { iterate := true }
  | binary _ op _ _ => match op with
    | .arithmetic _ | .valueComparison _ | .generalComparison _ | .nodeComparison _ | .and | .or
    | .quantified .. | .itemAt => { item := true }
    | .range | .set _ | .for _ | .let _ | .path | .filter _ => { iterate := true }
  | ternary .. => { iterate := true }
  | nary _ .block _ => { iterate := true, process := true }

/-- The slot that the operator itself binds. -/
def boundSlot? : Expr → Option Slot
  | binary _ (.for s) .. | binary _ (.let s) .. | binary _ (.quantified _ s) .. => some s
  | _ => none

/-- The slot of a reference to a range variable. -/
def referencedSlot? : Expr → Option Slot
  | leaf _ (.variable (.range s)) => some s
  | _ => none

/-- Inserts a number into an ascending list, once. -/
def insertSlot (s : Slot) : List Slot → List Slot
  | [] => [s]
  | t :: ts => if s < t then s :: t :: ts else if s = t then t :: ts else t :: insertSlot s ts

/-- Slots that are referenced and bound nowhere in the expression, ascending. -/
def freeSlots (e : Expr) : List Slot :=
  let bound := e.preorder.filterMap boundSlot?
  ((e.preorder.filterMap referencedSlot?).filter (!bound.contains ·)).foldr insertSlot []

def references (e : Expr) (slot : Slot) : Bool :=
  (e.preorder.filterMap referencedSlot?).contains slot

mutual

/-- The number of references to a slot, each counted with its weight; one that is evaluated for every
item of a sequence weighs two. -/
def countUses (slot : Slot) (weight : Nat) : Expr → Nat
  | leaf _ (.variable (.range s)) => if s = slot then weight else 0
  | leaf .. => 0
  | unary _ _ a => a.countUses slot weight
  | binary _ op a b => match op with
    | .for _ | .quantified .. | .path | .filter _ => a.countUses slot weight + b.countUses slot 2
    | _ => a.countUses slot weight + b.countUses slot weight
  | ternary _ _ a b c => a.countUses slot weight + b.countUses slot weight + c.countUses slot weight
  | nary _ _ args => countUsesList slot weight args

def countUsesList (slot : Slot) (weight : Nat) : List Expr → Nat
  | [] => 0
  | e :: es => e.countUses slot weight + countUsesList slot weight es

end

def uses (e : Expr) (slot : Slot) : Nat := e.countUses slot 1

def orderOfSingle (c : Cardinality) : NodeOrder := if c.atMostOne then .orderedPeer else .unknown

def stepOrder : Axis → NodeOrder
  | .child | .attr | .self | .parent => .orderedPeer
  | .descendant | .descendantOrSelf | .followingSibling | .following => .ordered
  | _ => .unknown

/-- What a step to children or attributes, possibly selected from, starts with. -/
def selectionBase? : Expr → Option Expr
  | binary _ (.filter _) a _ | unary _ .first a | unary _ .last a | binary _ .itemAt a _
  | unary _ (.slice ..) a => some a
  | _ => none

/-- The order of the right side of a path under several nodes, none an ancestor of another. -/
def orderUnderPeers (b : Expr) : NodeOrder :=
  match b with
  | leaf _ (.step .child _) | leaf _ (.step .attr _) | leaf _ (.step .self _) => .orderedPeer
  | leaf _ (.step .descendant _) | leaf _ (.step .descendantOrSelf _) => .ordered
  | _ => match b.selectionBase? with
    | some (leaf _ (.step .child _)) | some (leaf _ (.step .attr _)) => .orderedPeer
    | _ => .unknown

def order : Expr → NodeOrder
  | leaf n op => match op with
    | .contextItem | .root => .orderedPeer
    | .variable _ | .literal _ => orderOfSingle n.info.cardinality
    | .step axis _ => stepOrder axis
  | unary n op a => match op with
    | .reverse => match a with
      | leaf _ (.step ..) => .ordered
      | _ => if a.selectionBase?.isSome then .ordered else .unknown
    | .sort => a.order.max .ordered
    | .first | .last | .slice .. => a.order
    | _ => orderOfSingle n.info.cardinality
  | binary n op a b => match op with
    | .path =>
      if a.cardinality.atMostOne then b.order
      else if a.order = .orderedPeer then b.orderUnderPeers else .unknown
    | .filter _ | .itemAt => a.order
    | _ => orderOfSingle n.info.cardinality
  | ternary n op a _ _ => match op with
    | .indexedFilter => a.order
    | .if => orderOfSingle n.info.cardinality
  | nary n _ _ => orderOfSingle n.info.cardinality

end Expr
end XPath
