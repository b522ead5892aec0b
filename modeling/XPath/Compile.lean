import XPath.Expr.Simplify
import XPath.Optimize.Rewrite
import XPath.Optimize.Hoist
import XPath.Optimize.Modes
import XPath.Grammar.Pattern
import XPath.Grammar.Template

/-! The passes from a text to an expression that can be evaluated. -/
namespace XPath

namespace Optimize

/-- Hoists and rewrites by turns until nothing is moved any more, at most `n` times. -/
def rounds : Nat → Expr → Pass Expr
  | 0, e => return e
  | n + 1, e => do
    let (e, unit, moved) := Hoist.promote e (← get)
    set unit
    let e ← Typing.check e
    if moved = 0 then return e
    rounds n (← Rewrite.tree e)

/-- Rewrites a checked tree into a cheaper one that gives the same. -/
def optimize (e : Expr) : Pass Expr := do
  let config := (← read).optimizer
  if !config.optimize then return e
  let e ← Rewrite.tree e
  if config.hoist then rounds 8 e else return e

end Optimize

namespace Compile

/-- The passes over a parsed tree. -/
def expr (e : Expr) : Pass Expr := do
  let e ← Typing.check e.simplify
  let e ← Optimize.optimize e
  return Modes.assign (← get) e

def alternatives : List PatternAlternative → Pass (List PatternAlternative)
  | [] => return []
  | a :: as => do
    let e ← expr a.expr
    return { a with expr := e } :: (← alternatives as)

def templateParts : List TemplatePart → Pass (List TemplatePart)
  | [] => return []
  | .text s :: ps => return .text s :: (← templateParts ps)
  | .expr e :: ps => do
    let e ← expr e
    return .expr e :: (← templateParts ps)

end Compile

/-- An expression that is ready to be evaluated, with what an evaluation needs. -/
structure Program where
  expr : Expr
  frameSize : Nat
  /-- The variables to be set before evaluation, with their slots. -/
  parameters : List (QName × Slot)
  locations : Array Location
  deriving Inhabited

namespace Program

/-- The parameters of a unit, in the order of their slots. -/
def parametersOf (u : CompileUnit) : List (QName × Slot) :=
  (u.bindings.toList.zipIdx).filterMap fun (b, slot) =>
    if b.kind = .parameter then some (b.name, slot) else none

def ofUnit (e : Expr) (u : CompileUnit) : Program := ⟨e, u.frameSize, parametersOf u, u.locations⟩

/-- Compiles a parsed expression. -/
def ofExpr (e : Expr) (context : StaticContext) (unit : CompileUnit) :
    Except StaticError Program × CompileUnit :=
  let (r, unit) := (Compile.expr e).run context unit
  (r.map fun e => ofUnit e unit, unit)

/-- Compiles a text. The parameters must have been declared in the unit. -/
def compile (text : String) (context : StaticContext) (unit : CompileUnit) :
    Except StaticError Program × CompileUnit × List Warning :=
  let (r, unit, warnings) := Expr.parse text 0 .endOfInput 1 context unit
  match r with
  | .error e => (.error e, unit, warnings)
  | .ok e =>
    let (r, unit) := ofExpr e context unit
    (r, unit, warnings)

/-- The slot of a parameter; of several of one name, the first. -/
def parameter (p : Program) (n : Name) : Option Slot :=
  (p.parameters.find? fun (m, _) => m.toName == n).map (·.2)

end Program

namespace Pattern

/-- Reads a pattern and compiles the expression of each alternative. -/
def compile (text : String) (context : StaticContext) (unit : CompileUnit) :
    Except StaticError Pattern × CompileUnit × List Warning :=
  let (r, unit, warnings) := Pattern.parse text context unit
  match r with
  | .error e => (.error e, unit, warnings)
  | .ok p =>
    let (r, unit) := (Compile.alternatives p.alternatives).run context unit
    (r.map fun as => ⟨as⟩, unit, warnings)

end Pattern

namespace ValueTemplate

/-- Reads a template and compiles its enclosed expressions. -/
def compile (text : String) (line : Nat) (context : StaticContext) (unit : CompileUnit) :
    Except StaticError ValueTemplate × CompileUnit × List Warning :=
  let (r, unit, warnings) := ValueTemplate.parse text line context unit
  match r with
  | .error e => (.error e, unit, warnings)
  | .ok t =>
    let (r, unit) := (Compile.templateParts t.parts).run context unit
    (r.map fun parts => { t with parts }, unit, warnings)

end ValueTemplate
end XPath
