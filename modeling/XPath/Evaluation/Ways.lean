import XPath.Evaluation.Frame

/-!
The ways of evaluating an expression: to at most one item, to items one by one, and to all items at once.
An operator offers one or two of them and the others follow. Failures are given the location of the
expression unless they come from further inside.
-/
namespace XPath

structure Ways where
  note : Note
  /-- Fails if there are several items. -/
  item : Frame → Eval (Option Item)
  items : Frame → Items
  push : Frame → Eval (List Item)

namespace Ways

/-- For an operator that gives at most one item. -/
def ofItem (n : Note) (item : Frame → Eval (Option Item)) : Ways :=
  let item := fun f => (item f).orAt n.location
  let items := fun f => Source.after (return .ofOption (← item f))
  ⟨n, item, items, fun f => (items f).toList⟩

/-- For an operator that gives items one by one and can also give all at once. -/
def ofItemsAndPush (n : Note) (items : Frame → Items) (push : Frame → Eval (List Item)) : Ways :=
  let items := fun f => (items f).mapError (Failure.orAt n.location)
  ⟨n, fun f => (items f).only? ⟨.typeMismatch, n.location⟩, items, fun f => (push f).orAt n.location⟩

/-- For an operator that gives items one by one. -/
def ofItems (n : Note) (items : Frame → Items) : Ways := ofItemsAndPush n items fun f => (items f).toList

/-- For an operator that gives items one by one and has a way of its own to give at most one. -/
def ofItemAndItems (n : Note) (item : Frame → Eval (Option Item)) (items : Frame → Items) : Ways :=
  { ofItems n items with item := fun f => (item f).orAt n.location }

/-- For an operator that gives all items at once. -/
def ofPush (n : Note) (push : Frame → Eval (List Item)) : Ways :=
  ofItemsAndPush n (fun f => .after (return .ofList (← push f))) push

def nothing : Ways := ofItems { location := 0 } fun _ => .empty

/-- All items. -/
def toList (a : Ways) (f : Frame) : Eval (List Item) := (a.items f).toList

def truth (a : Ways) (f : Frame) : Eval Bool := ((a.items f).truth Atomic.truth).orAt a.note.location

/-- The items as atomic values. -/
def values (a : Ways) (f : Frame) : Source World Failure Atomic := (a.items f).mapM Eval.value

/-- The only item as an atomic value. -/
def value? (a : Ways) (f : Frame) : Eval (Option Atomic) := do (← a.item f).mapM Eval.value

/-- Text, which is empty if there is no item. -/
def text (a : Ways) (f : Frame) : Eval String := return ((← a.value? f).map (·.text)).getD ""

/-- All nodes in document order; other items are not allowed. -/
def nodes (a : Ways) (f : Frame) : Eval (List NodeId) := do
  let is ← ((a.items f).mapM fun x => Eval.require .typeMismatch x.node?).toList
  Eval.ordering fun t o => o.sort t is

end Ways

/-- The ways of evaluating an expression, and how to obtain its value for a variable. -/
structure Meaning extends Ways where
  bound : Frame → Eval Value

end XPath
