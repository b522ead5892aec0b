import XPath.Evaluation.Index
import XPath.Expr.Equality
import XPath.Source
import XPath.Tree.Order

/-! What an evaluation reads and changes, and how it fails. -/
namespace XPath

/-- Why an evaluation fails, and which expression failed, once that is known. -/
structure Failure where
  code : ErrorCode
  location : Option LocationId := none
  deriving DecidableEq, Repr, Inhabited

namespace Failure

/-- The innermost expression that failed counts. -/
def orAt (l : LocationId) (e : Failure) : Failure := { e with location := e.location <|> some l }

end Failure

/-- What an index was made for: a base and a key path, and the context node if the base depends on it. -/
structure IndexKey where
  base : Expr
  keyPath : Expr
  focus : Option NodeId
  deriving DecidableEq

/-- What became of a deferred value: how often it was started, and its items if they have been kept. -/
structure Cell where
  starts : Nat := 0
  kept : Option (List Item) := none
  deriving DecidableEq, Repr, Inhabited

/-- The trees, and what has been found out in one evaluation. -/
structure World where
  forest : Forest
  order : DocumentOrder := {}
  indexes : List (IndexKey × Index) := []
  cells : Array Cell := #[]

abbrev Eval := Action World Failure

/-- Items that are evaluated when they are asked for. -/
abbrev Items := Source World Failure Item

namespace Eval

def fail (code : ErrorCode) : Eval α := throw { code }

def ofExcept (r : Except ErrorCode α) : Eval α :=
  match r with
  | .ok a => pure a
  | .error code => fail code

/-- The value, or a failure if there is none. -/
def require (code : ErrorCode) (a : Option α) : Eval α :=
  match a with
  | some a => pure a
  | none => fail code

def orAt (l : LocationId) (a : Eval α) : Eval α := a.mapError (Failure.orAt l)

def forest : Eval Forest := return (← get).forest

/-- Changes the trees. -/
def modifyForest (g : Forest → α × Forest) : Eval α := do
  let w ← get
  let (a, forest) := g w.forest
  set { w with forest }
  return a

/-- Asks about document order. -/
def ordering (g : Forest → DocumentOrder → α × DocumentOrder) : Eval α := do
  let w ← get
  let (a, order) := g w.forest w.order
  set { w with order }
  return a

def value (x : Item) : Eval Atomic := return x.value (← forest)

end Eval

namespace Items

/-- The truth of the items, of which at most two are asked for. A single atomic value is judged by
`one`; several that start with an atomic value have no truth. -/
def truth (one : Atomic → Bool) (xs : Items) : Eval Bool := .of fun w =>
  match xs w with
  | .done w => (.ok false, w)
  | .item (.error e) w _ => (.error e, w)
  | .item (.ok (.node _)) w _ => (.ok true, w)
  | .item (.ok (.atomic a)) w rest => match rest w with
    | .done w => (.ok (one a), w)
    | .item (.error e) w _ => (.error e, w)
    | .item (.ok _) w _ => (.error { code := .invalidArgument }, w)

end Items
end XPath
