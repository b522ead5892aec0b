import XPath.Tree
import Std.Data.HashMap

/-!
Document order across trees. Nodes are numbered when they are first asked about: a tree takes the next
number among the trees, and the nodes of a tree are numbered in preorder, as far as they are needed.
-/
namespace XPath

/-- The number of a tree, and the place of a node in its preorder. -/
structure Rank where
  tree : Nat
  place : Nat
  deriving DecidableEq, Repr, Inhabited

namespace Rank

def compare (a b : Rank) : Ordering := (Ord.compare a.tree b.tree).then (Ord.compare a.place b.place)

end Rank

/-- How many trees have been seen, and the nodes that have a number. -/
structure DocumentOrder where
  trees : Nat := 0
  ranks : Std.HashMap NodeId Rank := {}

namespace DocumentOrder

/-- Numbers nodes one after the other. -/
def number (o : DocumentOrder) (tree place : Nat) : List NodeId → DocumentOrder
  | [] => o
  | i :: is => number { o with ranks := o.ranks.insert i ⟨tree, place⟩ } tree (place + 1) is

/-- Gives numbers to nodes that stand in a row in preorder, of which the last is asked about; the row
begins with the root of a tree. The numbers go on from the last node of the row that has one. -/
def numberRow (o : DocumentOrder) (row : List NodeId) : DocumentOrder :=
  let fresh := (row.reverse.takeWhile (!o.ranks.contains ·)).reverse
  match (row.take (row.length - fresh.length)).getLast?.bind (o.ranks[·]?) with
  | some r => o.number r.tree (r.place + 1) fresh
  | none => { o with trees := o.trees + 1 }.number (o.trees + 1) 0 fresh

/-- The rank of a node, which is the same whenever it is asked for. -/
def rank (f : Forest) (i : NodeId) (o : DocumentOrder) : Rank × DocumentOrder :=
  match o.ranks[i]? with
  | some r => (r, o)
  | none =>
    let line := ((f.root? i).map fun t => t.preorder.map Tree.id).getD []
    let o := o.numberRow (line.takeWhile (· != i) ++ [i])
    (o.ranks[i]?.getD default, o)

def compare (f : Forest) (a b : NodeId) (o : DocumentOrder) : Ordering × DocumentOrder :=
  let (r, o) := o.rank f a
  let (s, o) := o.rank f b
  (r.compare s, o)

def rankAll (f : Forest) : List NodeId → DocumentOrder → List (Rank × NodeId) × DocumentOrder
  | [], o => ([], o)
  | i :: is, o =>
    let (r, o) := o.rank f i
    let (rs, o) := rankAll f is o
    ((r, i) :: rs, o)

/-- Drops a node that follows itself. -/
def dropRepeats : List NodeId → List NodeId
  | i :: j :: is => if i = j then dropRepeats (j :: is) else i :: dropRepeats (j :: is)
  | is => is

/-- The nodes by rank. A single node is not asked for its rank. -/
def arrange (f : Forest) (is : List NodeId) (o : DocumentOrder) : List NodeId × DocumentOrder :=
  if is.length < 2 then (is, o)
  else
    let (rs, o) := rankAll f is o
    ((rs.mergeSort fun a b => a.1.compare b.1 != .gt).map (·.2), o)

/-- The nodes in document order, each once. -/
def sort (f : Forest) (is : List NodeId) (o : DocumentOrder) : List NodeId × DocumentOrder :=
  let (is, o) := o.arrange f is
  (dropRepeats is, o)

end DocumentOrder
end XPath
