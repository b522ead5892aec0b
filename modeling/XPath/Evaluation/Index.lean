import XPath.Item
import XPath.Atomic.Compare
import Std.Data.HashMap

/-! An index over items: each item with its keys, and for every text the places of the items that have
it as a key. -/
namespace XPath

structure Index where
  entries : Array (Item × List Atomic)
  places : Std.HashMap String (List Nat)
  /-- All keys are strings or untyped. -/
  textOnly : Bool

namespace Index

def isText : Atomic → Bool
  | .string _ | .untyped _ => true
  | _ => false

/-- Notes the keys of the items from place `n` on. -/
def fill (places : Std.HashMap String (List Nat)) (n : Nat) :
    List (Item × List Atomic) → Std.HashMap String (List Nat)
  | [] => places
  | (_, keys) :: es =>
    fill ((keys.filter isText).foldl
      (fun m k => m.insert k.text (n :: m.getD k.text [])) places) (n + 1) es

def ofEntries (es : List (Item × List Atomic)) : Index :=
  ⟨es.toArray, fill {} 0 es, es.all fun (_, keys) => keys.all isText⟩

/-- Whether some key equals some value; pairs are compared until two are equal or cannot be compared. -/
def matchesAny (keys values : List Atomic) : Except ErrorCode Bool :=
  keys.anyM fun k => values.anyM fun v => k.compareGeneral .eq v

/-- The items that have one of the values as a key. Texts are looked up, other values are compared with
every key. -/
def lookup (x : Index) (values : List Atomic) : Except ErrorCode (List Item) :=
  if x.textOnly && values.all isText then
    let found := values.flatMap fun v => x.places.getD v.text []
    .ok ((found.mergeSort.eraseReps.filterMap (x.entries[·]?)).map (·.1))
  else
    return (← x.entries.toList.filterM fun (_, keys) => matchesAny keys values).map (·.1)

end Index
end XPath
