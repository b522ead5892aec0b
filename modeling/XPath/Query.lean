import XPath.Compile
import XPath.Documents
import XPath.Evaluation.Matching

/-! Running compiled queries and patterns against documents. Each run starts with nothing known of the
order of trees and with no index. -/
namespace XPath

/-- How much of the answer is asked for, and in which way. -/
inductive Extent where
  /-- All items, one by one. -/
  | all
  /-- All items at once. -/
  | pushed
  /-- At most one item; it fails if there are more. -/
  | single
  /-- The first items; what follows is not evaluated. -/
  | first (n : Nat)
  deriving DecidableEq, Repr, Inhabited

namespace Documents

/-- Evaluates, and keeps the trees that have been made. -/
def evaluate (d : Documents) (a : Eval α) : Except Failure α × Documents :=
  let (r, w) := a.perform { forest := d.forest }
  (r, { d with forest := w.forest })

end Documents

namespace Meaning

def answer (m : Meaning) (f : Frame) : Extent → Eval (List Item)
  | .all => m.toList f
  | .pushed => m.push f
  | .single => return (← m.item f).toList
  | .first n => ((m.items f).take n).toList

end Meaning

namespace Program

/-- The frame to start in: the parameters that have values, and the context item alone in focus. -/
def frame (p : Program) (c : DynamicContext) (item : Option Item) : Frame where
  slots s := do
    let (n, _) ← p.parameters.find? (·.2 = s)
    return .items (← c.valueOf? n.toName)
  focus := item.map fun x => ⟨x, 1, some 1⟩

def run (p : Program) (extent : Extent) (c : DynamicContext) (item : Option Item) (d : Documents) :
    Except Failure (List Item) × Documents :=
  d.evaluate ((p.expr.meaning c).answer (p.frame c item) extent)

end Program

namespace Failure

def message (e : Failure) : String := e.code.code ++ ": " ++ e.code.message

/-- The place in the text, if it is known. -/
def place? (e : Failure) (locations : Array Location) : Option Location :=
  e.location.bind (locations[·]?)

end Failure

namespace Pattern

/-- Whether a node matches. No variables have values, and there are no keys. -/
def test (p : Pattern) (i : NodeId) (d : Documents) : Except Failure Bool × Documents :=
  d.evaluate (p.accepts {} {} i)

end Pattern
end XPath
