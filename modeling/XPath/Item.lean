import XPath.Atomic.Compare
import XPath.Tree.Axis

/-! Items: atomic values and nodes. What an item is worth as a value, as a truth, and of which types it
is. -/
namespace XPath

inductive Item where
  | atomic (a : Atomic)
  | node (i : NodeId)
  deriving DecidableEq, Repr, Inhabited

namespace Item

def node? : Item → Option NodeId
  | node i => some i
  | atomic _ => none

def atomic? : Item → Option Atomic
  | atomic a => some a
  | node _ => none

/-- No node has been validated, so its value is untyped; comments and processing instructions have
strings. -/
def value (f : Forest) : Item → Atomic
  | atomic a => a
  | node i => match f.content? i with
    | some (.comment _) | some (.instruction ..) => .string (f.stringValue i)
    | _ => .untyped (f.stringValue i)

def text (f : Forest) : Item → String
  | atomic a => a.text
  | node i => f.stringValue i

/-- Whether two items are the same value or the same node. -/
def same (x y : Item) : Bool :=
  match x, y with
  | atomic a, atomic b => a.same b
  | node i, node j => i == j
  | _, _ => false

/-- The truth of a sequence: that of its only item, or true if it starts with a node. -/
def truth : List Item → Except ErrorCode Bool
  | [] => .ok false
  | node _ :: _ => .ok true
  | [atomic a] => .ok a.truth
  | atomic _ :: _ :: _ => .error .invalidArgument

end Item

namespace ItemType

/-- Whether an item is of the type. There are no values of foreign and imported types. -/
def holds (t : ItemType) (f : Forest) (x : Item) : Bool :=
  match t, x with
  | item, _ => true
  | atomic t, .atomic a => a.type.derivesFrom t
  | node k, .node i => (f.node? i).any k.holds
  | _, _ => false

end ItemType

namespace SequenceType

def holds (t : SequenceType) (f : Forest) (xs : List Item) : Bool :=
  t.cardinality.allows xs.length && xs.all (t.item.holds f)

end SequenceType
end XPath
