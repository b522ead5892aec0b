import XPath.Evaluation.World

/-! Values of variables, the focus, and the frame that an expression is evaluated in. -/
namespace XPath

/-- An evaluation that is put off. It is counted in its cell, which keeps the items if it should. -/
structure Deferred where
  cell : Nat
  keeps : Bool
  items : Items

inductive Value where
  | items (xs : List Item)
  /-- What is put off, without its first items. -/
  | deferred (d : Deferred) (skip : Nat)

namespace Deferred

/-- Puts off an evaluation. -/
def create (keeps : Bool) (items : Items) : Eval Deferred := do
  let w ← get
  set { w with cells := w.cells.push {} }
  return ⟨w.cells.size, keeps, items⟩

/-- Starts the evaluation. -/
def start (d : Deferred) : Items := fun w =>
  d.items { w with cells := w.cells.modify d.cell fun c => { c with starts := c.starts + 1 } }

/-- All items: those that have been kept, or those of a new evaluation. -/
def toList (d : Deferred) : Eval (List Item) := do
  match (← get).cells[d.cell]?.bind (·.kept) with
  | some xs => return xs
  | none =>
    let xs ← d.start.toList
    if d.keeps then
      modify fun w => { w with
        cells := w.cells.modify d.cell fun c => { c with kept := c.kept <|> some xs } }
    return xs

/-- The items one by one, unless they are to be kept. -/
def source (d : Deferred) : Items :=
  if d.keeps then .after (return .ofList (← d.toList)) else d.start

end Deferred

namespace Value

/-- The value without its first items. The number of items to skip is a machine word: if the sum is none, there is no
value. -/
def tail? (n : Nat) : Value → Option Value
  | items xs => some (items (xs.drop n))
  | deferred d skip => if skip + n < pow2 64 then some (deferred d (skip + n)) else none

/-- A sum that is no machine word breaks the evaluation off. -/
def tail (n : Nat) (v : Value) : Eval Value := Eval.require .overrun (v.tail? n)

theorem exists_of_tail? {v t : Value} {n : Nat} (h : v.tail? n = some t) :
    (∃ xs, v = items xs ∧ t = items (xs.drop n)) ∨
      ∃ d skip, v = deferred d skip ∧ skip + n < pow2 64 ∧ t = deferred d (skip + n) := by
  cases v with
  | items xs => exact .inl ⟨xs, rfl, (Option.some.inj h).symm⟩
  | deferred d skip =>
    obtain ⟨hword, hd⟩ := Option.ite_none_right_eq_some.1 h
    exact .inr ⟨d, skip, rfl, hword, (Option.some.inj hd).symm⟩

def source : Value → Items
  | items xs => .ofList xs
  | deferred d skip => d.source.drop skip

def toList : Value → Eval (List Item)
  | items xs => return xs
  | deferred d skip => return (← d.toList).drop skip

end Value

/-- The context item, its position counted from one, and the number of items if that is known. -/
structure Focus where
  item : Item
  position : Nat
  size : Option Nat
  deriving DecidableEq, Repr, Inhabited

structure Frame where
  slots : Slot → Option Value := fun _ => none
  focus : Option Focus := none

/-- Finds the nodes that have a key, given the trees, the key's name and value, and the root of the tree
to search. -/
abbrev KeyResolver := Forest → Name → String → NodeId → Except ErrorCode (List NodeId)

/-- The values of the declared variables, of which the last one of a name counts, and the way to find
keys, if there is one. -/
structure DynamicContext where
  globals : List (Name × List Item) := []
  keys : Option KeyResolver := none

namespace DynamicContext

def valueOf? (c : DynamicContext) (n : Name) : Option (List Item) := c.globals.reverse.lookup n

end DynamicContext

namespace Frame

def bind (f : Frame) (slot : Slot) (v : Value) : Frame :=
  { f with slots := fun s => if s = slot then some v else f.slots s }

def withFocus (f : Frame) (item : Item) (position : Nat) (size : Option Nat) : Frame :=
  { f with focus := some ⟨item, position, size⟩ }

/-- Only the listed slots, and no focus. -/
def capture (f : Frame) (slots : List Slot) : Frame :=
  { slots := fun s => if slots.contains s then f.slots s else none }

def contextItem (f : Frame) : Eval Item :=
  Eval.require .absentDynamic (f.focus.map (·.item))

def contextNode (f : Frame) : Eval NodeId := do
  Eval.require .stepOnNonNode (← f.contextItem).node?

def valueOf (f : Frame) (c : DynamicContext) : VariableRef → Eval Value
  | .range slot => Eval.require .absentDynamic (f.slots slot)
  | .global n => Eval.require .absentDynamic ((c.valueOf? n.toName).map .items)

end Frame
end XPath
