import XPath.Expr.Analysis
import XPath.CompileUnit

/-!
Moves what does not change in a loop out of it: out of the body of a `for` or a quantifier, and out of
a predicate or path step, which are evaluated for every item of the focus. What is moved is bound to a
variable around the loop, and that variable is evaluated at most once and only if it is needed.
-/
namespace XPath.Hoist

/-- The unit, and the bindings that were moved, the latest first. -/
structure State where
  unit : CompileUnit
  moved : List (Slot × Expr)

def isTrivial : Expr → Bool
  | .leaf _ (.literal _) | .leaf _ (.variable _) | .leaf _ .contextItem | .leaf _ .root => true
  | _ => false

/-- Whether the expression can be evaluated once outside: it does not read the focus, makes no nodes and
mentions none of the slots bound on the way. -/
def accepts (forbidden : List Slot) (e : Expr) : Bool :=
  !isTrivial e && !e.info.dependencies.focus && !e.info.createsNodes &&
    e.freeSlots.all (!forbidden.contains ·)

/-- Binds an expression to a new variable and leaves a reference in its place. -/
def move (e : Expr) : StateM State Expr :=
  modifyGet fun s =>
    let (slot, unit) := s.unit.allocate (.unprefixed "hoisted") .hoisted none
    (.mkLeaf (.variable (.range slot)) e.location,
      ⟨unit.setInferred slot e.type, (slot, e) :: s.moved⟩)

def isHoisted (slot : Slot) : StateM State Bool :=
  return ((← get).unit.binding slot).kind = .hoisted

mutual

/-- Moves the largest parts of an expression that can be moved. A binding that was hoisted out of an
inner loop moves on as it is. -/
def collect (forbidden : List Slot) : Expr → StateM State Expr
  | .leaf n op => if accepts forbidden (.leaf n op) then move (.leaf n op) else return .leaf n op
  | .unary n op a => do
    if accepts forbidden (.unary n op a) then move (.unary n op a)
    else return .unary n op (← collect forbidden a)
  | .binary n op a b => do
    if accepts forbidden (.binary n op a b) then move (.binary n op a b)
    else match op with
      | .let slot =>
        if (← isHoisted slot) && accepts forbidden a then
          modify fun s => { s with moved := (slot, a) :: s.moved }
          collect forbidden b
        else
          let a ← collect (slot :: forbidden) a
          return .binary n op a (← collect (slot :: forbidden) b)
      | .for slot | .quantified _ slot =>
        let a ← collect (slot :: forbidden) a
        return .binary n op a (← collect (slot :: forbidden) b)
      | _ =>
        let a ← collect forbidden a
        return .binary n op a (← collect forbidden b)
  | .ternary n op a b c => do
    if accepts forbidden (.ternary n op a b c) then move (.ternary n op a b c)
    else
      let a ← collect forbidden a
      let b ← collect forbidden b
      return .ternary n op a b (← collect forbidden c)
  | .nary n op args => do
    if accepts forbidden (.nary n op args) then move (.nary n op args)
    else return .nary n op (← collectList forbidden args)

def collectList (forbidden : List Slot) : List Expr → StateM State (List Expr)
  | [] => return []
  | e :: es => do
    let e ← collect forbidden e
    return e :: (← collectList forbidden es)

end

/-- Binds what was moved around the place it was moved out of, the first outermost. -/
def wrap (moved : List (Slot × Expr)) (site : Expr) : Expr :=
  moved.foldl (fun body (slot, value) => .mkBinary (.let slot) value body site.location) site

/-- The unit, and how many bindings have been moved. -/
abbrev Walk := StateM (CompileUnit × Nat)

/-- Moves what it can out of the body of a site. -/
def offer (forbidden : List Slot) (body : Expr) (site : Expr → Expr) : Walk Expr :=
  modifyGet fun (unit, count) =>
    let (body, s) := (collect forbidden body).run ⟨unit, []⟩
    (wrap s.moved (site body), s.unit, count + s.moved.length)

/-- A site whose operands are done. A predicate that could be moved as a whole stays. -/
def visitBinary (n : Note) (op : BinaryOp) (a b : Expr) : Walk Expr :=
  match op with
  | .for slot | .quantified _ slot => offer [slot] b (.binary n op a)
  | .filter _ => if accepts [] b then return .binary n op a b else offer [] b (.binary n op a)
  | .path => offer [] b (.binary n op a)
  | _ => return .binary n op a b

mutual

def visit : Expr → Walk Expr
  | .leaf n op => return .leaf n op
  | .unary n op a => return .unary n op (← visit a)
  | .binary n op a b => do
    let a ← visit a
    visitBinary n op a (← visit b)
  | .ternary n op a b c => do
    let a ← visit a
    let b ← visit b
    return .ternary n op a b (← visit c)
  | .nary n op args => return .nary n op (← visitList args)

def visitList : List Expr → Walk (List Expr)
  | [] => return []
  | e :: es => do
    let e ← visit e
    return e :: (← visitList es)

end

/-- One walk over the tree: the new tree, the unit and how many bindings were moved. -/
def promote (e : Expr) (unit : CompileUnit) : Expr × CompileUnit × Nat := (visit e).run (unit, 0)

end XPath.Hoist
