import XPath.Proofs.Optimization

/-! The passes keep the scopes of a tree: where every binder has a slot of its own and nothing but given
variables is used from outside, it is so after simplification, checking and optimization. -/
namespace XPath

namespace Expr
variable {n n' : Note} {a b d e : Expr}

/-! Simplification drops operands, and puts constants in place of expressions. -/

theorem Shrinks.constant (e : Expr) (cs : List Constant) (at' : LocationId) :
    e.Shrinks (mkLeaf (.literal cs) at') :=
  ⟨fun s hs => by simp [mkLeaf, Expr.needs] at hs, fun s => by simp [mkLeaf]⟩

theorem Shrinks.operand (n : Note) (op : UnaryOp) (a : Expr) : (Expr.unary n op a).Shrinks a :=
  ⟨fun s hs => by simpa [Expr.needs] using hs, fun s => Nat.le_refl _⟩

theorem Shrinks.operator (op : UnaryOp) (a : Expr) (at' : LocationId) : a.Shrinks (mkUnary op a at') :=
  ⟨fun s hs => by simpa [mkUnary, Expr.needs] using hs, fun s => Nat.le_refl _⟩

theorem orConstant_shrinks (e : Expr) (c : Option Constant) : e.Shrinks (e.orConstant c) := by
  cases c with
  | none => exact .refl e
  | some c => exact .constant e [c] _

theorem simplifyUnary_shrinks (n : Note) (op : UnaryOp) (a : Expr) :
    (unary n op a).Shrinks (simplifyUnary (unary n op a) op a) := by
  unfold simplifyUnary
  split
  · exact orConstant_shrinks _ _
  · exact orConstant_shrinks _ _
  · split
    · exact .operand n _ a
    · exact .refl _
  · split
    · exact .operand n _ a
    · exact .refl _
  · split
    · exact .operand n _ a
    · exact .refl _
  · exact .refl _

theorem simplifyBinary_shrinks (n : Note) (op : BinaryOp) (a b : Expr) :
    (binary n op a b).Shrinks (simplifyBinary (binary n op a b) op a b) := by
  unfold simplifyBinary
  split
  · exact orConstant_shrinks _ _
  · exact orConstant_shrinks _ _
  · split
    · exact .constant _ _ _
    · exact .constant _ _ _
    · exact .refl _
  · split
    · exact .constant _ _ _
    · exact .constant _ _ _
    · exact .refl _
  · split
    · exact .left n a b
    · split
      · exact .trans (.left n a b) (.operator .last a _)
      · exact .refl _
  · split
    · exact .left n a b
    · exact .refl _
  · split
    · exact .left n a b
    · exact .refl _
  · split
    · exact .constant _ _ _
    · exact .refl _
  · exact .refl _

theorem needsList_append (s : Slot) (es fs : List Expr) :
    needsList s (es ++ fs) = (needsList s es || needsList s fs) := by
  simp only [needsList_eq, List.map_append, List.any_append]

/-- A sequence that shrinks may stand before others. -/
theorem Shrinks.append {es es' : List Expr}
    (h : (Expr.nary n .block es).Shrinks (Expr.nary n .block es')) (fs : List Expr) :
    (Expr.nary n .block (es ++ fs)).Shrinks (Expr.nary n .block (es' ++ fs)) where
  needs s hs := by
    have := h.needs s
    simp only [Expr.needs, needsList_append, Bool.or_eq_true] at this hs ⊢
    exact hs.imp_left this
  binders s := by
    have := h.binders s
    simp only [binders_nary, List.map_append, List.sum_append] at this ⊢
    omega

/-- In a sequence, an operand may be joined to the flat ones before it. -/
theorem pushFlat_shrinks (n : Note) (flat : List Expr) (e : Expr) :
    (nary n .block (e :: flat)).Shrinks (nary n .block (pushFlat flat e)) := by
  unfold pushFlat
  split
  · exact ⟨fun s hs => by simpa [Expr.needs, needsList] using hs, fun s => by simp⟩
  · split
    · exact ⟨fun s hs => by simpa [Expr.needs, needsList] using hs, fun s => by simp⟩
    · exact .refl _
  · exact .refl _

/-- The operands of a sequence may stand after the flat ones before it. -/
theorem inner_shrinks (n m : Note) (flat items : List Expr) :
    (nary n .block (nary m .block items :: flat)).Shrinks (nary n .block (flat ++ items)) where
  needs s hs := by
    simp only [needs, needsList, needsList_append, Bool.or_eq_true] at hs ⊢
    exact hs.symm
  binders s := by
    simp only [binders_nary, List.map_cons, List.map_append, List.sum_cons, List.sum_append]
    omega

/-- The operand that comes next may stand before the flat ones. -/
theorem next_shrinks (n : Note) (flat : List Expr) (e : Expr) (es : List Expr) :
    (nary n .block (flat ++ e :: es)).Shrinks (nary n .block (e :: flat ++ es)) where
  needs s hs := by
    simp only [needs, needsList, needsList_append, List.cons_append, Bool.or_eq_true] at hs ⊢
    exact hs.elim (.inr ∘ .inl) (.imp_right .inr)
  binders s := by
    simp only [binders_nary, List.map_cons, List.map_append, List.sum_cons, List.sum_append, List.cons_append]
    omega

mutual

theorem splice_shrinks (n : Note) (flat : List Expr) (e : Expr) :
    (nary n .block (e :: flat)).Shrinks (nary n .block (splice flat e)) := by
  match e with
  | nary m .block items => exact (inner_shrinks n m flat items).trans (spliceAll_shrinks n flat items)
  | nary m (.call f) args => exact .refl _
  | leaf m op => exact pushFlat_shrinks n flat _
  | unary m op a => exact .refl _
  | binary m op a b => exact .refl _
  | ternary m op a b d => exact .refl _

theorem spliceAll_shrinks (n : Note) (flat es : List Expr) :
    (nary n .block (flat ++ es)).Shrinks (nary n .block (spliceAll flat es)) := by
  match es with
  | [] =>
    rw [List.append_nil]
    exact .refl _
  | e :: es =>
    exact ((next_shrinks n flat e es).trans ((splice_shrinks n flat e).append es)).trans
      (spliceAll_shrinks n (splice flat e) es)

end

theorem flatten_shrinks (n : Note) (items : List Expr) (at' : LocationId) :
    (nary n .block items).Shrinks (flatten items at') := by
  have h : (nary n .block items).Shrinks (nary n .block (spliceAll [] items)) := spliceAll_shrinks n [] items
  unfold flatten
  split
  · exact .constant _ _ _
  · next e he =>
    rw [he] at h
    refine h.trans ⟨fun s hs => by simpa [Expr.needs, needsList] using hs, fun s => by simp⟩
  · refine h.trans ⟨fun s hs => ?_, fun s => ?_⟩
    · simp only [mkNary, needs, needsList_eq, List.map_reverse, List.any_reverse] at hs ⊢
      exact hs
    · simp [mkNary, List.map_reverse, List.sum_reverse]

theorem simplifyNode_shrinks (e : Expr) : e.Shrinks e.simplifyNode := by
  unfold simplifyNode
  split
  · exact .refl _
  · exact simplifyUnary_shrinks _ _ _
  · exact simplifyBinary_shrinks _ _ _ _
  · split
    · exact ⟨fun s hs => by simp [Expr.needs, hs], fun s => by simp only [binders_ternary]; omega⟩
    · exact ⟨fun s hs => by simp [Expr.needs, hs], fun s => by simp only [binders_ternary]; omega⟩
    · exact .refl _
  · exact .refl _
  · exact flatten_shrinks _ _ _
  · exact .constant _ _ _
  · exact .constant _ _ _
  · exact .refl _

mutual

/-- Simplification neither uses nor binds what was not used or bound. -/
theorem simplify_shrinks (e : Expr) : e.Shrinks e.simplify := by
  match e with
  | leaf n op => exact simplifyNode_shrinks _
  | unary n op a => exact .trans (.unary (simplify_shrinks a)) (simplifyNode_shrinks _)
  | binary n op a b =>
    exact .trans (.binary rfl (simplify_shrinks a) (simplify_shrinks b)) (simplifyNode_shrinks _)
  | ternary n op a b d =>
    exact .trans (.ternary (simplify_shrinks a) (simplify_shrinks b) (simplify_shrinks d))
      (simplifyNode_shrinks _)
  | nary n op args => exact .trans (.nary (simplifyList_shrinks args)) (simplifyNode_shrinks _)

theorem simplifyList_shrinks (es : List Expr) : List.Forall₂ Shrinks es (simplifyList es) := by
  match es with
  | [] => exact .nil
  | e :: es => exact .cons (simplify_shrinks e) (simplifyList_shrinks es)

end

/-- A pass that succeeds has made a tree smaller, and of the bindings it has changed at most the types. -/
structure Reshapes (unit : CompileUnit) (e : Expr) (unit' : CompileUnit) (x : Expr) : Prop where
  shrinks : e.Shrinks x
  size : unit'.bindings.size = unit.bindings.size
  kind : ∀ s, (unit'.binding s).kind = (unit.binding s).kind

theorem Reshapes.refl (unit : CompileUnit) (e : Expr) : Reshapes unit e unit e :=
  ⟨.refl e, rfl, fun _ => rfl⟩

theorem Reshapes.trans {unit unit' unit'' : CompileUnit} {e x y : Expr} (h : Reshapes unit e unit' x)
    (k : Reshapes unit' x unit'' y) : Reshapes unit e unit'' y :=
  ⟨h.shrinks.trans k.shrinks, k.size.trans h.size, fun s => (k.kind s).trans (h.kind s)⟩

/-- Every binder in the tree has a slot of its own, no variable is used outside its scope, and the unit
knows them all. -/
structure IsPlaced (unit : CompileUnit) (e : Expr) : Prop where
  wellBound : WellBound [e]
  below : ∀ s, e.Mentions s → s < unit.bindings.size

/-- A pass that succeeds has kept the tree in its scopes. Any variables that it has added are bound. -/
structure Keeps (unit : CompileUnit) (e : Expr) (unit' : CompileUnit) (x : Expr) : Prop where
  placed : IsPlaced unit' x
  needs : ∀ s, x.needs s → e.needs s
  size : unit.bindings.size ≤ unit'.bindings.size
  kind : ∀ s < unit.bindings.size, (unit'.binding s).kind = (unit.binding s).kind

variable {unit unit' unit'' : CompileUnit} {x y : Expr}

theorem Keeps.trans (h : Keeps unit e unit' x) (k : Keeps unit' x unit'' y) : Keeps unit e unit'' y :=
  ⟨k.placed, fun s hs => h.needs s (k.needs s hs), h.size.trans k.size,
    fun s hs => (k.kind s (hs.trans_le h.size)).trans (h.kind s hs)⟩

theorem Reshapes.keeps (h : Reshapes unit e unit' x) (he : IsPlaced unit e) : Keeps unit e unit' x :=
  ⟨⟨h.shrinks.wellBound he.wellBound, fun s hs => h.size ▸ he.below s (h.shrinks.mentions hs)⟩,
    h.shrinks.needs, h.size.ge, fun s _ => h.kind s⟩

end Expr

namespace Typing
open XPath.Expr

theorem check_reshapes (e : Expr) {x : Expr} {context : StaticContext} {unit unit' : CompileUnit}
    (h : (check e).run context unit = (.ok x, unit')) : Reshapes unit e unit' x :=
  ⟨.of_resembles (check_resembles e h), (check_refines e h).size, (check_refines e h).kind⟩

end Typing

namespace Rewrite
open XPath.Expr

variable {context : StaticContext} {e x : Expr} {unit unit' : CompileUnit}

theorem node_reshapes (fuel : ℕ) (h : (node fuel e).run context unit = (.ok x, unit')) :
    Reshapes unit e unit' x := by
  induction fuel generalizing e unit with
  | zero =>
    cases h
    exact .refl _ _
  | succ fuel ih =>
    unfold node at h
    rw [Pass.run_bind_eq (Pass.run_read context unit)] at h
    cases hr : e.rewrite? context.optimizer.index with
    | none =>
      simp only [hr] at h
      cases h
      exact .refl _ _
    | some e₁ =>
      simp only [hr] at h
      obtain ⟨e₂, unit₂, hcheck, h⟩ := Pass.run_bind_ok h
      have hrewrite : Reshapes unit e unit e₁ := ⟨(rewrites_of_rewrite hr).shrinks, rfl, fun _ => rfl⟩
      exact (hrewrite.trans (Typing.check_reshapes e₁ hcheck)).trans (ih h)

mutual

theorem tree_reshapes (e : Expr) {x : Expr} {unit unit' : CompileUnit}
    (h : (tree e).run context unit = (.ok x, unit')) : Reshapes unit e unit' x := by
  match e with
  | .leaf n op => exact node_reshapes _ h
  | .unary n op a =>
    obtain ⟨a', unit₁, ha, h⟩ := Pass.run_bind_ok h
    have ha := tree_reshapes a ha
    exact .trans ⟨.unary ha.shrinks, ha.size, ha.kind⟩ (node_reshapes _ h)
  | .binary n op a b =>
    obtain ⟨a', unit₁, ha, h⟩ := Pass.run_bind_ok h
    obtain ⟨b', unit₂, hb, h⟩ := Pass.run_bind_ok h
    have ha := tree_reshapes a ha
    have hb := tree_reshapes b hb
    refine .trans ⟨.binary rfl ha.shrinks hb.shrinks, hb.size.trans ha.size, fun s => ?_⟩ (node_reshapes _ h)
    exact (hb.kind s).trans (ha.kind s)
  | .ternary n op a b d =>
    obtain ⟨a', unit₁, ha, h⟩ := Pass.run_bind_ok h
    obtain ⟨b', unit₂, hb, h⟩ := Pass.run_bind_ok h
    obtain ⟨d', unit₃, hd, h⟩ := Pass.run_bind_ok h
    have ha := tree_reshapes a ha
    have hb := tree_reshapes b hb
    have hd := tree_reshapes d hd
    refine .trans ⟨.ternary ha.shrinks hb.shrinks hd.shrinks, hd.size.trans (hb.size.trans ha.size),
      fun s => ?_⟩ (node_reshapes _ h)
    exact (hd.kind s).trans ((hb.kind s).trans (ha.kind s))
  | .nary n op args =>
    obtain ⟨args', unit₁, hargs, h⟩ := Pass.run_bind_ok h
    obtain ⟨hshrinks, hsize, hkind⟩ := treeList_reshapes args hargs
    exact .trans ⟨.nary hshrinks, hsize, hkind⟩ (node_reshapes _ h)

theorem treeList_reshapes (es : List Expr) {xs : List Expr} {unit unit' : CompileUnit}
    (h : (treeList es).run context unit = (.ok xs, unit')) :
    List.Forall₂ Shrinks es xs ∧ unit'.bindings.size = unit.bindings.size ∧
      ∀ s, (unit'.binding s).kind = (unit.binding s).kind := by
  match es with
  | [] =>
    cases h
    exact ⟨.nil, rfl, fun _ => rfl⟩
  | e :: es =>
    obtain ⟨x, unit₁, he, h⟩ := Pass.run_bind_ok h
    obtain ⟨xs, unit₂, hes, h⟩ := Pass.run_bind_ok h
    cases h
    have he := tree_reshapes e he
    obtain ⟨hshrinks, hsize, hkind⟩ := treeList_reshapes es hes
    exact ⟨.cons he.shrinks hshrinks, hsize.trans he.size, fun s => (hkind s).trans (he.kind s)⟩

end

end Rewrite

namespace Hoist
open XPath.Expr

theorem promote_keeps {e : Expr} {unit : CompileUnit} (h : IsPlaced unit e) :
    Keeps unit e (promote e unit).2.1 (promote e unit).1 := by
  have hmoves := promote_moves {} h.wellBound h.below
  obtain ⟨hbound, hbelow⟩ := hmoves.wellBound h.wellBound h.below
  obtain _ | ⟨hneeds, _⟩ := hmoves.needs
  exact ⟨⟨hbound, hbelow⟩, fun s hs => (hneeds s hs).resolve_right (by simp), hmoves.grows.size,
    fun s hs => by rw [hmoves.grows.binding s hs]⟩

end Hoist

namespace Optimize
open XPath.Expr

variable {context : StaticContext} {e x : Expr} {unit unit' : CompileUnit}

theorem rounds_keeps (n : ℕ) (he : IsPlaced unit e) (h : (rounds n e).run context unit = (.ok x, unit')) :
    Keeps unit e unit' x := by
  induction n generalizing e unit with
  | zero =>
    cases h
    exact (Reshapes.refl _ _).keeps he
  | succ n ih =>
    have hpromote := Hoist.promote_keeps he
    unfold rounds at h
    rw [Pass.run_bind_eq (Pass.run_get context unit)] at h
    generalize Hoist.promote e unit = promoted at *
    obtain ⟨e₁, unit₁, moved⟩ := promoted
    have hset : (set unit₁ : Pass PUnit).run context unit = (.ok ⟨⟩, unit₁) := rfl
    simp only [Pass.run_bind_eq hset] at h
    obtain ⟨e₂, unit₂, hcheck, h⟩ := Pass.run_bind_ok h
    have hcheck := hpromote.trans ((Typing.check_reshapes e₁ hcheck).keeps hpromote.placed)
    split at h
    · cases h
      exact hcheck
    · obtain ⟨e₃, unit₃, htree, h⟩ := Pass.run_bind_ok h
      have htree := hcheck.trans ((Rewrite.tree_reshapes e₂ htree).keeps hcheck.placed)
      exact htree.trans (ih htree.placed h)

theorem optimize_keeps (he : IsPlaced unit e) (h : (optimize e).run context unit = (.ok x, unit')) :
    Keeps unit e unit' x := by
  unfold optimize at h
  rw [Pass.run_bind_eq (Pass.run_read context unit)] at h
  dsimp only at h
  split at h
  · cases h
    exact (Reshapes.refl _ _).keeps he
  · obtain ⟨e₁, unit₁, htree, h⟩ := Pass.run_bind_ok h
    have htree := (Rewrite.tree_reshapes e htree).keeps he
    split at h
    · exact htree.trans (rounds_keeps 8 htree.placed h)
    · cases h
      exact htree

end Optimize

namespace Compile
open XPath.Expr

/-- All the passes but the last keep the tree in its scopes. -/
theorem expr_keeps {context : StaticContext} {e x : Expr} {unit unit' : CompileUnit} (he : IsPlaced unit e)
    (h : (expr e).run context unit = (.ok x, unit')) :
    ∃ y, Keeps unit e unit' y ∧ x = Modes.assign unit' y := by
  obtain ⟨e₁, unit₁, hcheck, h⟩ := Pass.run_bind_ok h
  obtain ⟨e₂, unit₂, hoptimize, h⟩ := Pass.run_bind_ok h
  cases h
  have hsimplify : Keeps unit e unit e.simplify :=
    (Reshapes.mk (simplify_shrinks e) rfl fun _ => rfl).keeps he
  have hcheck := hsimplify.trans ((Typing.check_reshapes _ hcheck).keeps hsimplify.placed)
  exact ⟨e₂, hcheck.trans (Optimize.optimize_keeps hcheck.placed hoptimize), rfl⟩

end Compile

namespace Modes
open XPath.Expr

/-- So does the last. -/
theorem assign_keeps {unit : CompileUnit} {e : Expr} (he : IsPlaced unit e) :
    Keeps unit e unit (assign unit e) :=
  (Reshapes.mk (.of_resembles (assign_resembles unit e)) rfl fun _ => rfl).keeps he

end Modes
end XPath
