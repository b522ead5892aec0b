import XPath.Expr.Analysis
import XPath.CompileUnit

/-! How the value of each let is obtained when the query runs. -/
namespace XPath.Modes

def isVariable : Expr → Bool
  | .leaf _ (.variable _) => true
  | _ => false

def isReferenceTo (slot : Slot) : Expr → Bool
  | .leaf _ (.variable (.range s)) => s == slot
  | _ => false

/-- At once, in the way that suits the operator. -/
def eager (value : Expr) : Mode :=
  if value.methods = { process := true } then .pushProduction
  else if value.cardinality.atMostOne then .singleItem
  else .iterateAndMaterialize

/-- `$v[position() >= n]` or `tail($v)`. -/
def isTailOfVariable : Expr → Bool
  | .unary _ (.slice _ none) a => isVariable a
  | .nary _ (.call (.builtin .tail)) [a] => isVariable a
  | _ => false

/-- `($v, e)` -/
def isAppendToVariable : Expr → Bool
  | .nary _ .block [a, _] => isVariable a
  | _ => false

/-- Whether an expression picks items out of the variable by their place. -/
def picksFrom (slot : Slot) : Expr → Bool
  | .binary _ .itemAt a _ | .unary _ .last a | .unary _ (.slice ..) a
  | .ternary _ .indexedFilter a _ _ => isReferenceTo slot a
  | _ => false

/-- A variable that is used once and walked from the start is evaluated without keeping its items.
Values that read the focus or make nodes are evaluated at once, hoisted ones only if they are needed. -/
def choose (unit : CompileUnit) (slot : Slot) (value action : Expr) : Mode :=
  let d := value.info.dependencies
  if (unit.binding slot).kind = .hoisted then .memoClosure value.freeSlots
  else if value.cardinality = .empty then .returnEmpty
  else match value with
    | .leaf _ (.literal _) => .alreadyValue
    | .leaf _ (.variable _) => .evaluateVariable
    | _ =>
      if d.focus || d.group || d.matched || value.cardinality.atMostOne then eager value
      else if isTailOfVariable value then .lazyTail
      else if isAppendToVariable value then .sharedAppend
      else if value.info.createsNodes then eager value
      else if 1 < action.uses slot || action.preorder.any (picksFrom slot) then
        .memoClosure value.freeSlots
      else .oneShotClosure value.freeSlots

mutual

/-- Gives the value of every let its mode. -/
def assign (unit : CompileUnit) : Expr → Expr
  | .leaf n op => .leaf n op
  | .unary n op a => .unary n op (assign unit a)
  | .binary n op a b =>
    let a := assign unit a
    let b := assign unit b
    match op with
    | .let slot => .binary n op (a.withMode (choose unit slot a b)) b
    | _ => .binary n op a b
  | .ternary n op a b c => .ternary n op (assign unit a) (assign unit b) (assign unit c)
  | .nary n op args => .nary n op (assignList unit args)

def assignList (unit : CompileUnit) : List Expr → List Expr
  | [] => []
  | e :: es => assign unit e :: assignList unit es

end

end XPath.Modes
