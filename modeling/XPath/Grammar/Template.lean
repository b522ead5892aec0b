import XPath.Grammar.Expression
import XPath.Grammar.Scan

/-! Value templates: fixed text with enclosed expressions, in which a brace of the text is written
twice. -/
namespace XPath

inductive TemplatePart where
  | text (s : String)
  | expr (e : Expr)
  deriving Repr, Inhabited

structure ValueTemplate where
  parts : List TemplatePart
  location : LocationId
  deriving Repr, Inhabited

namespace ValueTemplate

structure State where
  unit : CompileUnit
  warnings : List Warning

/-- Text read so far, the latest character first, as a part if there is any. -/
def textPart (literal : List Char) : List TemplatePart :=
  if literal.isEmpty then [] else [.text (String.ofList literal.reverse)]

/-- The enclosed expression that starts at a place, and how many characters it has with its closing
brace. A blank one gives no part. What is in scope before it is in scope after it. -/
def enclosed (source : String) (place : Place) (rest : List Char) (context : StaticContext) (s : State) :
    Except StaticError (List TemplatePart × Nat) × State :=
  match Scan.scan source place.offset .rightBrace place.line with
  | .error e => (.error e, s)
  | .ok stop =>
    let inner := (Place.splitAtOffset (stop - place.offset) rest).1
    if (Blank.trim inner).isEmpty then (.ok ([], inner.length + 1), s)
    else
      let (r, unit, warnings) := Expr.parse source place.offset .rightBrace place.line context s.unit
      (r.map fun e => ([.expr e], inner.length + 1),
        ⟨unit.restore s.unit.scope.length, s.warnings ++ warnings⟩)

/-- Reads the rest of a template that is left at a place. Each enclosed expression is first scanned for
its closing brace and then parsed. -/
def read (source : String) (context : StaticContext) (place : Place) (literal : List Char) :
    List Char → State → Except StaticError (List TemplatePart) × State
  | [], s => (.ok (textPart literal), s)
  | c :: cs, s =>
    if c = '\x7b' ∨ c = '\x7d' then
      if cs.head? = some c then
        read source context ((place.advance c).advance c) (c :: literal) (cs.drop 1) s
      else if c = '\x7d' then
        (.error ⟨.grammar, .loneBrace, place.line, place.column, place.offset, place.offset + 1⟩, s)
      else
        match enclosed source (place.advance c) cs context s with
        | (.error e, s) => (.error e, s)
        | (.ok (parts, n), s) =>
          let (r, s) := read source context ((place.advance c).after (cs.take n)) [] (cs.drop n) s
          (r.map fun more => textPart literal ++ parts ++ more, s)
    else read source context (place.advance c) (c :: literal) cs s
termination_by cs => cs.length
decreasing_by all_goals simp only [List.length_cons, List.length_drop]; omega

/-- Reads a value template whose first line is `line`. -/
def parse (source : String) (line : Nat) (context : StaticContext) (unit : CompileUnit) :
    Except StaticError ValueTemplate × CompileUnit × List Warning :=
  let (location, unit) := unit.allocateLocation ⟨line, 1, 0, source.utf8ByteSize⟩
  let (r, s) := read source context ⟨0, line, 1⟩ [] source.toList ⟨unit, []⟩
  (r.map fun parts => ⟨parts, location⟩, s.unit, s.warnings)

/-- A part as an expression: the atomized values of an enclosed one are joined by spaces. -/
def partExpr (location : LocationId) : TemplatePart → Expr
  | .text s => .constantAt (.string s) location
  | .expr e =>
    .callAt .stringJoin [.callAt .data [e] location, .constantAt (.string " ") location] location

/-- The template as one expression that gives a string. -/
def toExpr (t : ValueTemplate) : Expr :=
  match t.parts.map (partExpr t.location) with
  | [] => .constantAt (.string "") t.location
  | [e] => e
  | args => .callAt .concat args t.location

end ValueTemplate
end XPath
