import XPath.Evaluation.Call
import XPath.Evaluation.Filter
import XPath.Tree.Construct

/-! How the operators evaluate, given the ways of evaluating their operands. -/
namespace XPath

/-- The nodes on an axis that pass a test. Those of a reverse axis are ranked to be put in order. -/
def stepNodes (axis : Axis) (test : NodeTest) (f : Frame) : Eval (List NodeId) := do
  let i ← f.contextNode
  let t ← Eval.forest
  let is := ((axis.nodes (t.chain i)).filter (test.holds axis)).map (·.id)
  if axis.isReverse then return (← Eval.ordering fun t o => o.arrange t is).reverse else return is

/-- The document that the context node is in. -/
def documentOf (f : Frame) : Eval NodeId := do
  let i ← f.contextNode
  let root ← Eval.require .treatMismatch (((← Eval.forest).root? i).filter (·.content.isDocument))
  return root.id

namespace LeafOp

/-- The only constant of a list, if there is one. -/
def onlyConstant : List Constant → Eval (Option Item)
  | [] => return none
  | [k] => return some (.atomic (.ofConstant k))
  | _ => Eval.fail .typeMismatch

def ways (c : DynamicContext) (n : Note) : LeafOp → Ways
  | literal cs => .ofItemAndItems n (fun _ => onlyConstant cs)
      fun _ => .ofList (cs.map fun k => .atomic (.ofConstant k))
  | .variable r => .ofItems n fun f => .after (return (← f.valueOf c r).source)
  | contextItem => .ofItem n fun f => some <$> f.contextItem
  | root => .ofItem n fun f => return some (.node (← documentOf f))
  | step axis test => .ofItems n fun f => .after (return .ofList ((← stepNodes axis test f).map .node))

/-- The constants may as well be given one by one to find out whether there is at most one. -/
theorem ways_literal (c : DynamicContext) (n : Note) (cs : List Constant) :
    (literal cs).ways c n = .ofItems n fun _ => .ofList (cs.map fun k => .atomic (.ofConstant k)) := by
  match cs with
  | [] => rfl
  | [_] => rfl
  | _ :: _ :: _ => rfl

end LeafOp

/-- Nodes are put in document order without duplicates; other items must not stand beside nodes. -/
def sortItems (xs : List Item) : Eval (List Item) := do
  let is := xs.filterMap (·.node?)
  if is.isEmpty then return xs
  else if is.length = xs.length then return (← Eval.ordering fun t o => o.sort t is).map .node
  else Eval.fail .mixedPath

namespace Construction

/-- Adds content after the words that have been met. Atomic values that stand together become one text,
with spaces between them. -/
def appendContent (words : List String) : List Item → Construction → Construction
  | [], c => c.appendString (" ".intercalate words.reverse)
  | .atomic a :: xs, c => appendContent (a.text :: words) xs c
  | .node i :: xs, c =>
    appendContent [] xs ((c.appendString (" ".intercalate words.reverse)).appendNode i)

end Construction

/-- Makes an element with the content. -/
def makeElement (name : QName) (content : List Item) : Eval NodeId :=
  Eval.modifyForest fun t => ((Construction.start t name.nodeName).appendContent [] content).finish

namespace UnaryOp

/-- A function of an atomic value, which gives nothing for nothing. -/
def lift (g : Atomic → Except ErrorCode Atomic) (a : Ways) (f : Frame) : Eval (Option Item) := do
  (← a.value? f).mapM fun v => return .atomic (← Eval.ofExcept (g v))

def truth (b : Bool) : Option Item := some (.atomic (.boolean b))

def ways (n : Note) (a : Ways) : UnaryOp → Ways
  | negate => .ofItem n (lift Atomic.negate a)
  | plus => .ofItem n (lift Atomic.plus a)
  | sort => .ofItems n fun f => .after do return .ofList (← sortItems (← a.toList f))
  | reverse => .ofItems n fun f => .after do return .ofList (← a.toList f).reverse
  | first => .ofItem n fun f => (a.items f).head?
  | last => .ofItem n fun f => (a.items f).forIn none fun _ x => return .yield (some x)
  | slice min max => .ofItems n (a.slice min max)
  | cast target allowsEmpty => .ofItem n fun f => do
    match ← a.value? f with
    | some v => return some (.atomic (← Eval.ofExcept (v.cast target)))
    | none => if allowsEmpty then return none else Eval.fail .typeMismatch
  | castable target allowsEmpty => .ofItem n fun f => do
    match ← (a.values f).toList with
    | [] => return truth allowsEmpty
    | [v] => return truth (v.castable target)
    | _ => return truth false
  | treat type => .ofItems n fun f => .after do
    let xs ← a.toList f
    if type.holds (← Eval.forest) xs then return .ofList xs else Eval.fail .treatMismatch
  | instanceOf type => .ofItem n fun f => do
    let xs ← a.toList f
    return truth (type.holds (← Eval.forest) xs)
  | element name => .ofPush n fun f => do return [.node (← makeElement name (← a.toList f))]
  | text => .ofPush n fun f => do
    let s := " ".intercalate ((← (a.values f).toList).map (·.text))
    if s.isEmpty then return [] else return [.node (← Eval.modifyForest (·.addText s))]

end UnaryOp

namespace BinaryOp

/-- A function of two atomic values, both of which are evaluated; it gives nothing if one is missing. -/
def lift (g : Atomic → Atomic → Except ErrorCode Atomic) (a b : Ways) (f : Frame) :
    Eval (Option Item) := do
  let x ← a.value? f
  let y ← b.value? f
  match x, y with
  | some x, some y => return some (.atomic (← Eval.ofExcept (g x y)))
  | _, _ => return none

/-- Whether some value on the left compares so with some value on the right. Values on the right are
asked for as long as none has been found. -/
def compareAny (op : ComparisonOp) (a b : Ways) (f : Frame) : Eval Bool := do
  let left ← (a.values f).toList
  if left.isEmpty then return false
  (b.values f).forIn false fun _ y => do
    if ← Eval.ofExcept (left.anyM fun x => x.compareGeneral op y) then return .done true
    else return .yield false

def compareNodes (op : NodeComparisonOp) (a b : Ways) (f : Frame) : Eval (Option Item) := do
  let x ← a.item f
  let y ← b.item f
  match x, y with
  | some (.node i), some (.node j) => match op with
    | .is => return UnaryOp.truth (i == j)
    | .precedes => return UnaryOp.truth ((← Eval.ordering fun t o => o.compare t i j) == .lt)
    | .follows => return UnaryOp.truth ((← Eval.ordering fun t o => o.compare t i j) == .gt)
  | some _, some _ => Eval.fail .typeMismatch
  | _, _ => return none

/-- An end of a range. -/
def rangeEnd (a : Ways) (f : Frame) : Eval (Option Int) := do
  match ← a.value? f with
  | none => return none
  | some (.untyped s) => some <$> Eval.ofExcept (Atomic.untyped s).toInteger
  | some (.integer _ i) => return some i
  | some _ => Eval.fail .typeMismatch

/-- So many integers from `i` on. -/
def count (i : Int) : Nat → Items
  | 0 => .empty
  | n + 1 => fun w => .item (.ok (.atomic (.ofInt i))) w (count (i + 1) n)

def integers (a b : Ways) (f : Frame) : Items := .after do
  let first ← rangeEnd a f
  let last ← rangeEnd b f
  match first, last with
  | some i, some j => return count i (j + 1 - i).toNat
  | _, _ => return .empty

def combine (op : SetOp) (a b : Ways) (f : Frame) : Eval (List NodeId) := do
  let is ← a.nodes f
  let js ← b.nodes f
  match op with
  | .union => Eval.ordering fun t o => o.sort t (is ++ js)
  | .intersect => return is.filter js.contains
  | .except => return is.filter (!js.contains ·)

/-- Whether the test holds of some item, or of every item, bound to the slot. -/
def quantify (q : Quantifier) (slot : Slot) (a b : Ways) (f : Frame) : Eval Bool :=
  let every := q == .every
  (a.items f).forIn every fun _ x => do
    if (← b.truth (f.bind slot (.items [x]))) != every then return .done !every
    else return .yield every

def ways (n : Note) (a b : Meaning) : BinaryOp → Ways
  | arithmetic op => .ofItem n (lift (Atomic.arithmetic op) a.toWays b.toWays)
  | valueComparison op =>
    .ofItem n (lift (fun x y => (x.compareValues op y).map .boolean) a.toWays b.toWays)
  | generalComparison op => .ofItem n fun f => return UnaryOp.truth (← compareAny op a.toWays b.toWays f)
  | nodeComparison op => .ofItem n (compareNodes op a.toWays b.toWays)
  | and => .ofItem n fun f => do
    if ← a.truth f then return UnaryOp.truth (← b.truth f) else return UnaryOp.truth false
  | or => .ofItem n fun f => do
    if ← a.truth f then return UnaryOp.truth true else return UnaryOp.truth (← b.truth f)
  | range => .ofItems n (integers a.toWays b.toWays)
  | set op => .ofItems n fun f => .after do
    return .ofList ((← combine op a.toWays b.toWays f).map .node)
  | path => .ofItems n (a.path b.toWays)
  | filter _ => .ofItems n (a.select b.toWays)
  | itemAt => .ofItem n (a.itemAt b.toWays)
  | .for slot => .ofItems n fun f =>
    (a.items f).bind fun _ x => b.items (f.bind slot (.items [x]))
  | .let slot => .ofItems n fun f => .after do return b.items (f.bind slot (← a.bound f))
  | quantified q slot => .ofItem n fun f =>
    return UnaryOp.truth (← quantify q slot a.toWays b.toWays f)

end BinaryOp

namespace TernaryOp

/-- The first two operands are also given as expressions, by which their index is known. -/
def ways (n : Note) (exprs : Expr × Expr) (a b c : Ways) : TernaryOp → Ways
  | .if => .ofItems n fun f => .after do
    if ← a.truth f then return b.items f else return c.items f
  | indexedFilter => .ofItems n fun f => .after do
    return .ofList (← a.selectByKey exprs b c f)

end TernaryOp

namespace NaryOp

def ways (c : DynamicContext) (n : Note) (args : List Ways) : NaryOp → Ways
  | block => .ofItemsAndPush n (fun f => .concat (args.map (·.items f)))
      fun f => return (← args.mapM (·.push f)).flatten
  | .call (.builtin g) => .ofItems n fun f => .after do
    return .ofList (← Call.Site.call ⟨args, f, g.usesContext args.length⟩ c g)
  | .call (.unresolved _) => .ofItems n fun _ => .fail { code := .unknownFunction }

end NaryOp
end XPath
