import XPath.Evaluation.Meaning
import XPath.Pattern

/-! Whether a node matches a pattern. -/
namespace XPath

namespace PatternShape

/-- The answer where the node alone decides. -/
def decide? (shape : PatternShape) (chain : List Tree) : Option Bool :=
  match shape, chain with
  | documentRoot, t :: _ => some t.content.isDocument
  | step .attr test 0, t :: _ => some (t.content.isAttribute && test.holds .attr t)
  | step .child test 0, t :: ancestors =>
    some (t.content.isOrdinary && !ancestors.isEmpty && test.holds .child t)
  | _, _ => none

end PatternShape

namespace PatternAlternative

/-- A node matches a predicate that selects it, and any other alternative if it is among the nodes that
the alternative selects with the node as context item. -/
def accepts (a : PatternAlternative) (c : DynamicContext) (f : Frame) (i : NodeId) : Eval Bool := do
  match a.shape.decide? ((← Eval.forest).chain i) with
  | some b => return b
  | none =>
    let xs := (a.expr.meaning c).items (f.withFocus (.node i) 1 (some 1))
    match a.shape with
    | .predicate _ => return (← xs.head?).isSome
    | _ => xs.forIn false fun _ x =>
      return if x.node? = some i then .done true else .yield false

end PatternAlternative

namespace Pattern

/-- Whether some alternative accepts the node; alternatives after that one are not asked. -/
def accepts (p : Pattern) (c : DynamicContext) (f : Frame) (i : NodeId) : Eval Bool :=
  p.alternatives.anyM fun a => a.accepts c f i

end Pattern
end XPath
