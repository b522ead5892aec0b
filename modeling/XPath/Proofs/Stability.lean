import XPath.Proofs.LexicalScope
import XPath.Proofs.Rechecking

/-!
Checking is stable. What the first check of a tree has found out about a variable is what every later one starts
from, so that nothing is left for it to find: no treat is put in or dropped, and no type is refined. A binder that
shared its slot with another one would spoil this, but there is none in a tree that is read, and every pass keeps
it so.
-/
namespace XPath
namespace Typing
open XPath.Expr
variable {context : StaticContext} {unit unit' : CompileUnit} {e x : Expr}

/-- A tree in which every binder has a slot of its own, and no variable is used outside its scope. -/
structure ScopedTree where
  expr : Expr
  wellBound : WellBound [expr]

/-- Checking keeps a tree in its scopes. -/
theorem ScopedTree.checked (t : ScopedTree) (h : (check t.expr).run context unit = (.ok x, unit')) :
    ∃ s : ScopedTree, s.expr = x :=
  ⟨⟨x, (check_reshapes t.expr h).shrinks.wellBound t.wellBound⟩, rfl⟩

/-- `$0 + 1, let $0 := "a" return 5`, in which a variable is used before it is bound -/
def usedOutside : Expr :=
  .mkNary .block [.mkBinary (.arithmetic .add) (.mkLeaf (.variable (.range 0)) 0) (.constantAt (.integer 1) 0) 0,
    .mkBinary (.let 0) (.constantAt (.string "a") 0) (.constantAt (.integer 5) 0) 0] 0

/-- Outside the scopes the first check finds out of a variable what the second one rejects. -/
theorem check_again_rejects : let unit := (({} : CompileUnit).allocate (.unprefixed "x") .range none).2
    ∃ x unit', (check usedOutside).run {} unit = (.ok x, unit') ∧ ((check x).run {} unit').1.toOption = none := by
  refine ⟨_, _, rfl, ?_⟩
  decide +kernel

end Typing
end XPath
