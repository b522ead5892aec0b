import XPath.Evaluation.Ways

/-! Selecting items: by a predicate, by position, and by a key through an index. -/
namespace XPath

namespace Ways

/-- Whether a predicate holds at a position. A number holds at the position that it is. -/
def holdsAt (predicate : Ways) (f : Frame) (position : Nat) : Eval Bool :=
  (predicate.items f).truth fun a =>
    if a.isNumeric then a.position? == some position else a.truth

/-- Items of which the number is asked for are evaluated before the first is taken. -/
def counted (base : Ways) (inner : Ways) (f : Frame) : Eval (Items × Option Nat) :=
  if inner.note.info.dependencies.last then do
    let xs ← base.toList f
    return (.ofList xs, some xs.length)
  else return (base.items f, none)

/-- The items that pass the test, each of which is the context item of its test. -/
def selectEach (base predicate : Ways) (f : Frame) : Items :=
  .after do
    let (xs, size) ← base.counted predicate f
    return xs.filterM fun n x => predicate.holdsAt (f.withFocus x n size) n

/-- All items or none, or the item at a position: the predicate is the same for every item and is
evaluated once. -/
def selectOnce (base predicate : Ways) (f : Frame) : Items :=
  .after do
    let v ← predicate.toList f
    match v with
    | [.atomic a] =>
      if a.isNumeric then
        return match a.position? with
          | some n => ((base.items f).drop (n - 1)).take 1
          | none => .empty
      else return if a.truth then base.items f else .empty
    | _ => return if ← Eval.ofExcept (Item.truth v) then base.items f else .empty

def select (base predicate : Ways) (f : Frame) : Items :=
  if predicate.note.info.dependencies.focus then base.selectEach predicate f
  else base.selectOnce predicate f

/-- The items from `min` to `max`. -/
def slice (base : Ways) (min : Nat) (max : Option Nat) (f : Frame) : Items :=
  let rest := (base.items f).drop (min - 1)
  match max with
  | some max => if max < min then .empty else rest.take (max - (min - 1))
  | none => rest

/-- The item at a position that the index gives. -/
def itemAt (base index : Ways) (f : Frame) : Eval (Option Item) := do
  match (← index.value? f).bind (·.position?) with
  | some n => (base.items f).get? (n - 1)
  | none => return none

/-- The right side for every node of the left one. -/
def path (a b : Ways) (f : Frame) : Items :=
  .after do
    let (xs, size) ← a.counted b f
    return xs.bind fun n x =>
      if x.node?.isSome then b.items (f.withFocus x n size) else .fail { code := .pathOnNonNode }

/-- An index over the items of a base. -/
def makeIndex (base keyPath : Ways) (f : Frame) : Eval Index := do
  let xs ← base.toList f
  let entries ← xs.zipIdx.mapM fun (x, n) => do
    return (x, ← (keyPath.values (f.withFocus x (n + 1) xs.length)).toList)
  return .ofEntries entries

/-- The index for a key, made when it is asked for the first time. -/
def findIndex (key : IndexKey) (base keyPath : Ways) (f : Frame) : Eval Index := do
  match (← get).indexes.lookup key with
  | some x => return x
  | none =>
    let x ← base.makeIndex keyPath f
    modify fun w => { w with indexes := (key, x) :: w.indexes }
    return x

/-- The items of a base of which some key equals some value. An index is kept unless the context item,
on which the base depends, is no node. -/
def selectByKey (exprs : Expr × Expr) (base keyPath value : Ways) (f : Frame) :
    Eval (List Item) := do
  let vs ← (value.values f).toList
  if vs.isEmpty then return []
  let x ←
    if base.note.info.dependencies.focus then do
      match (← f.contextItem).node? with
      | some i => base.findIndex ⟨exprs.1, exprs.2, some i⟩ keyPath f
      | none => base.makeIndex keyPath f
    else base.findIndex ⟨exprs.1, exprs.2, none⟩ keyPath f
  Eval.ofExcept (x.lookup vs)

end Ways
end XPath
