import XPath.Optimize.Selection
import XPath.Typing

/-!
Rewrites of a checked tree, each node after its operands. A node that was rewritten is checked again
and rewritten again, as one rewrite often makes room for another.
-/
namespace XPath

/-- Functions that only ask whether their argument has items. -/
def Builtin.ignoresOrder (f : Builtin) : Bool :=
  f == .boolean || f == .not || f == .empty || f == .exists

namespace Expr

/-- Only nodes are sorted, so the sort cannot fail, and they are in order already. -/
def isRedundantSort (a : Expr) : Bool :=
  a.itemType.isNode && (a.cardinality.atMostOne || a.order.isOrdered)

/-- Whether the body of a loop is a path of steps from the loop variable, none of which mentions the
variable again or asks for a position. -/
def isStepOf (slot : Slot) : Expr → Bool
  | binary _ .path head step =>
    (match head with
      | leaf _ (.variable (.range s)) => s == slot
      | _ => head.isStepOf slot) &&
    !step.references slot && !step.readsPosition
  | _ => false

/-- Such a path without the variable that it starts with. -/
def stripHead : Expr → Expr
  | binary n .path head step =>
    match head with
    | leaf _ (.variable _) => step
    | _ => .mkBinary .path head.stripHead step n.location
  | e => e

/-- A loop over a single item is a let, and one over steps is a path. -/
def rewriteFor (at' : LocationId) (slot : Slot) (source action : Expr) : Option Expr :=
  if source.cardinality = .one then some (.mkBinary (.let slot) source action at')
  else if action.isStepOf slot then some (.mkBinary .path source action.stripHead at')
  else none

/-- The next rewrite of a node, if there is one. -/
def rewrite? (index : Bool) : Expr → Option Expr
  | leaf .. => none
  | unary _ op a => match op with
    | .sort => if a.isRedundantSort then some a else none
    | _ => none
  | binary n op a b => match op with
    | .filter positional =>
      let (e, changed) := specialize n positional index a b
      if changed then some e else none
    | .for slot => rewriteFor n.location slot a b
    | .and | .or =>
      if a.isNodeSort || b.isNodeSort then some (binary n op a.unordered b.unordered) else none
    | .quantified .. => if a.isNodeSort then some (binary n op a.unordered b) else none
    | _ => none
  | ternary n op a b c => match op with
    | .if => if a.isNodeSort then some (ternary n .if a.unordered b c) else none
    | .indexedFilter => none
  | nary n op args => match op with
    | .call (.builtin f) =>
      if f.ignoresOrder && args.any isNodeSort then some (nary n op (args.map unordered)) else none
    | _ => none

/-- The number of nodes in an expression. -/
def size (e : Expr) : Nat := e.preorder.length

end Expr

namespace Rewrite

/-- Rewrites a node until nothing is left to do. -/
def node : Nat → Expr → Pass Expr
  | 0, e => return e
  | fuel + 1, e => do
    match e.rewrite? (← read).optimizer.index with
    | none => return e
    | some e => node fuel (← Typing.check e)

/-- Rewrites a node whose operands are done. Each rewrite uses up an operator of the node. -/
def all (e : Expr) : Pass Expr := node (4 * e.size + 4) e

mutual

/-- Rewrites an expression from the leaves up. -/
def tree : Expr → Pass Expr
  | .leaf n op => all (.leaf n op)
  | .unary n op a => do all (.unary n op (← tree a))
  | .binary n op a b => do
    let a ← tree a
    all (.binary n op a (← tree b))
  | .ternary n op a b c => do
    let a ← tree a
    let b ← tree b
    all (.ternary n op a b (← tree c))
  | .nary n op args => do all (.nary n op (← treeList args))

def treeList : List Expr → Pass (List Expr)
  | [] => pure []
  | e :: es => do
    let e ← tree e
    return e :: (← treeList es)

end

end Rewrite
end XPath
