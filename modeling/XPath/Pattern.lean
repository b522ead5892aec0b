import XPath.Expr

/-! Match patterns: alternatives with an outline that tells their priority and whether a node can be
matched by looking at it alone. -/
namespace XPath

inductive PatternShape where
  /-- The root of a document. -/
  | documentRoot
  /-- Any item that passes the predicates. -/
  | predicate (count : Nat)
  /-- One step to a child or an attribute. -/
  | step (axis : Axis) (test : NodeTest) (predicates : Nat)
  /-- Several steps, absolute paths, and paths from `id` and `key`. -/
  | path
  deriving DecidableEq, Repr, Inhabited

/-- The expression selects the nodes that match, or for a predicate filters the item itself. -/
structure PatternAlternative where
  shape : PatternShape
  expr : Expr
  deriving Repr, Inhabited

structure Pattern where
  alternatives : List PatternAlternative
  deriving Repr, Inhabited

namespace Pattern

/-- Priorities are quarters: a number of hundredths with two places, or fewer where they suffice. -/
def priorityOf (negative : Bool) (mantissa scale : Nat) : Decimal :=
  (Decimal.ofParts? negative mantissa scale).getD .zero

def low : Decimal := priorityOf true 5 1
def belowName : Decimal := priorityOf true 25 2
def aboveName : Decimal := priorityOf false 25 2
def high : Decimal := priorityOf false 5 1
def lowest : Decimal := priorityOf true 1 0

end Pattern

namespace KindTest

def priority : KindTest → Decimal
  | element t | attr t => match t.name, t.typeName with
    | some _, some _ => Pattern.aboveName
    | none, none => Pattern.low
    | _, _ => .zero
  | document (some _) | processingInstruction (some _) => .zero
  | _ => Pattern.low

end KindTest

namespace NodeTest

def priority : NodeTest → Decimal
  | name (.name _) => .zero
  | name (.localPart _) | name (.inNamespace _) => Pattern.belowName
  | name .any => Pattern.low
  | kind k => k.priority

end NodeTest

namespace PatternShape

/-- Whether the node alone decides. -/
def isSimpleStep : PatternShape → Bool
  | step .child _ 0 | step .attr _ 0 => true
  | _ => false

def priority : PatternShape → Decimal
  | documentRoot => Pattern.low
  | predicate 0 => Pattern.lowest
  | predicate _ => .one
  | step _ t 0 => t.priority
  | step .. | path => Pattern.high

end PatternShape

namespace Pattern

/-- The highest priority of an alternative. -/
def priority (p : Pattern) : Decimal :=
  match p.alternatives.map (·.shape.priority) with
  | [] => high
  | q :: qs => qs.foldl (fun a b => if a.compare b = .gt then a else b) q

end Pattern
end XPath
