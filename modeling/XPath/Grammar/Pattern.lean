import XPath.Grammar.Expression
import XPath.Pattern

/-! The grammar of match patterns. -/
namespace XPath

namespace Expr

/-- The root of the tree of the context node. -/
def contextRoot (at' : LocationId) : Expr := .callAt .root [] at'

/-- That root if it is a document. -/
def documentRoot (at' : LocationId) : Expr :=
  .mkBinary .path (contextRoot at') (.mkLeaf (.step .self (.kind (.document none))) at') at'

end Expr

namespace Parser

/-- A predicate list after a base, and its length. -/
def patternPredicates : Nat → Expr → Parser (Expr × Nat)
  | 0, _ => tooDeep
  | n + 1, base => do
    if ← checkSymbol .leftBracket then
      let (e, count) ← patternPredicates n (← predicate (← fuel) base)
      return (e, count + 1)
    return (base, 0)

/-- The axes that lead down. -/
def patternAxes : List Axis := [.child, .descendant, .attr, .self, .descendantOrSelf, .ns]

/-- A step of a pattern, and its outline if it is one to children or attributes. -/
def stepPattern (n : Nat) : Parser (Expr × Option PatternShape) := do
  let at' ← location
  match ← peek, ← checkNthSymbol 1 .doubleColon with
  | some (.name s), true =>
    unless (Axis.ofSpelling? s).any patternAxes.contains do syntaxError (.axisNotInPattern s)
  | t, _ =>
    let starts := t.any fun
      | .symbol .atSign | .symbol .asterisk | .name _ | .prefixedName .. | .uriName .. | .anyLocal _
      | .anyNamespace _ | .anyInUri _ => true
      | _ => false
    unless starts do expected "a step pattern"
  let (axis, test) ← axisAndTest nodeTest
  let (e, count) ← patternPredicates n (.mkLeaf (.step axis test) at')
  return (e, if axis = .child ∨ axis = .attr then some (.step axis test count) else none)

/-- The steps after the first, and whether there are any. -/
def moreStepPatterns : Nat → Expr → Bool → Parser (Expr × Bool)
  | 0, _, _ => tooDeep
  | n + 1, e, more => do
    let at' ← location
    if ← eatSymbol .slash then
      let (step, _) ← stepPattern n
      moreStepPatterns n (.mkBinary .path e step at') true
    else if ← eatSymbol .doubleSlash then
      let (step, _) ← stepPattern n
      moreStepPatterns n (.mkBinary .path (e.descendantOrSelf at') step at') true
    else return (e, more)

/-- A path from a base; only one that may start anywhere can have the outline of its single step. -/
def pathFrom (n : Nat) (base : Expr) (anywhere : Bool) (at' : LocationId) :
    Parser PatternAlternative := do
  let (first, shape?) ← stepPattern n
  let (e, more) ← moreStepPatterns n (.mkBinary .path base first at') false
  match shape? with
  | some shape => return ⟨if anywhere && !more then shape else .path, e⟩
  | none => return ⟨.path, e⟩

/-- A path that starts at the nodes of an `id` or `key` call. -/
def rootedPattern (n : Nat) (at' : LocationId) : Parser PatternAlternative := do
  let call ← primary (← fuel)
  let (rooted, _) ← patternPredicates n call
  if !(← checkSymbol .slash) && !(← checkSymbol .doubleSlash) then return ⟨.path, rooted⟩
  let step ← location
  if ← eatSymbol .doubleSlash then pathFrom n (rooted.descendantOrSelf step) false at'
  else
    expectSymbol .slash
    pathFrom n rooted false at'

def pathPattern (n : Nat) : Parser PatternAlternative := do
  let at' ← location
  if ← eatSymbol .dot then
    let (e, count) ← patternPredicates n (.mkLeaf .contextItem at')
    return ⟨.predicate count, e⟩
  if ← eatSymbol .slash then
    if !(← startsStep) then return ⟨.documentRoot, .documentRoot at'⟩
    return ← pathFrom n (.documentRoot at') false at'
  if ← eatSymbol .doubleSlash then
    return ← pathFrom n ((Expr.documentRoot at').descendantOrSelf at') false at'
  if ((← checkName "id") || (← checkName "key")) && (← checkNthSymbol 1 .leftParen) then
    return ← rootedPattern n at'
  pathFrom n ((Expr.contextRoot at').descendantOrSelf at') true at'

/-- Alternatives with bars, or the word `union`, between them. -/
def pattern : Nat → Parser (List PatternAlternative)
  | 0 => tooDeep
  | n + 1 => do
    let a ← pathPattern n
    let more ← if ← eatSymbol .pipe then pure true else eatName "union"
    if more then return a :: (← pattern n)
    return [a]

end Parser

namespace Pattern

/-- Reads a pattern; the scope of the unit is left as it was found. -/
def parse (text : String) (context : StaticContext) (unit : CompileUnit) :
    Except StaticError Pattern × CompileUnit × List Warning :=
  let p : Parser Pattern := Parser.inScope do
    let alternatives ← Parser.pattern (← Parser.fuel)
    Parser.expectTerminator .endOfInput
    return ⟨alternatives⟩
  p.run context .pattern text 0 1 unit

end Pattern
end XPath
