import XPath.Proofs.Acceptance

/-!
Checking a checked expression once more changes nothing, neither the expression nor what is known of the variables.
So it does where a tree is put together from checked parts: only its new nodes are annotated.
-/
namespace XPath

theorem CompileUnit.setInferred_self {unit : CompileUnit} {slot : Slot} {t : SequenceType}
    (h : (unit.binding slot).inferred = t) : unit.setInferred slot t = unit := by
  have hmodify : unit.bindings.modify slot (fun b => { b with inferred := t }) = unit.bindings := by
    refine Array.ext Array.size_modify fun i hi hi' => ?_
    rw [Array.getElem_modify]
    split
    · next heq =>
      subst heq
      unfold binding at h
      rw [Array.getElem?_eq_getElem hi', Option.getD_some] at h
      exact congrArg (fun t => { unit.bindings[slot] with inferred := t }) h.symm
    · rfl
  exact congrArg (fun bindings => { unit with bindings }) hmodify

/-- The type of a variable that the unit does not know is not kept. -/
theorem CompileUnit.setInferred_of_le {unit : CompileUnit} {slot : Slot} (h : unit.bindings.size ≤ slot)
    (t : SequenceType) : unit.setInferred slot t = unit := by
  have hmodify : unit.bindings.modify slot (fun b => { b with inferred := t }) = unit.bindings := by
    refine Array.ext Array.size_modify fun i hi hi' => ?_
    rw [Array.getElem_modify, if_neg (by omega)]
  exact congrArg (fun bindings => { unit with bindings }) hmodify

theorem CompileUnit.binding_of_le {unit : CompileUnit} {slot : Slot} (h : unit.bindings.size ≤ slot) :
    unit.binding slot = default := by
  unfold binding
  rw [Array.getElem?_eq_none h]
  rfl

namespace Typing
open XPath.Expr CompileUnit
variable {context : StaticContext} {unit unit' v : CompileUnit}

/-- What is inferred does not depend on what was recorded before. -/
theorem infer_withInfo (e : Expr) (i : StaticInfo) : infer (e.withInfo i) = infer e := by
  cases e with
  | leaf n op => rfl
  | unary n op a => cases op <;> rfl
  | binary n op a b => cases op <;> rfl
  | ternary n op a b d => cases op <;> rfl
  | nary n op args =>
    cases op with
    | block => rfl
    | call f => cases f <;> rfl

theorem infer_settled (n : Note) (op : BinaryOp) (i : StaticInfo) (a b : Expr) :
    infer (.binary n (op.settled i) a b) = infer (.binary n op a b) := by
  cases op <;> rfl

theorem bindFor_settled (op : BinaryOp) (i : StaticInfo) (a : Expr) : bindFor (op.settled i) a = bindFor op a := by
  cases op <;> rfl

/-- A source that is bound is of a type that overlaps what its variable is declared to be. -/
theorem overlaps_of_bind {slot : Slot} {source x : Expr} {perItem : Bool} {declared : SequenceType}
    (h : (bind slot source perItem).run context unit = (.ok x, unit'))
    (hd : (unit.binding slot).declared = some declared) : source.type.overlaps (required perItem declared) := by
  by_contra hno
  unfold bind at h
  rw [Pass.run_bind_eq (Pass.run_get context unit)] at h
  simp only [hd] at h
  unfold required at hno
  rw [if_neg hno] at h
  obtain ⟨_, _, hfail, _⟩ := Pass.run_bind_ok h
  exact Pass.run_fail _ _ _ _ hfail

/-- What has been bound may be bound again, if nothing else has been found out about the variable. -/
theorem bind_again {slot : Slot} {source x : Expr} {perItem : Bool}
    (h : (bind slot source perItem).run context unit = (.ok x, unit')) (hsize : v.bindings.size = unit.bindings.size)
    (hv : v.binding slot = unit'.binding slot) : (bind slot x perItem).run context v = (.ok x, v) := by
  obtain hslot | hslot := Nat.lt_or_ge slot unit.bindings.size
  swap
  · have hdefault {u : CompileUnit} (hu : u.bindings.size ≤ slot) : (u.binding slot).declared = none := by
      rw [binding_of_le hu]
      rfl
    rw [run_bind_none (hdefault (hsize ▸ hslot)), setInferred_of_le (hsize ▸ hslot)]
  have hb := bind_ok h
  cases hd : (unit.binding slot).declared with
  | none =>
    simp only [hd] at hb
    obtain ⟨rfl, rfl⟩ := hb
    rw [binding_setInferred, if_pos ⟨rfl, hslot⟩] at hv
    rw [run_bind_none (by rw [hv]; exact hd), setInferred_self (by rw [hv])]
  | some declared =>
    have hoverlaps := overlaps_of_bind h hd
    simp only [hd] at hb
    obtain ⟨rfl, hx⟩ := hb
    rw [binding_setInferred, if_pos ⟨rfl, hslot⟩] at hv
    have hfits : x.type.overlaps (required perItem declared) ∧ x.type.isSubtype (required perItem declared) := by
      obtain ⟨rfl, hsub⟩ | rfl := hx
      · exact ⟨hoverlaps, hsub⟩
      · exact ⟨SequenceType.overlaps_refl _, SequenceType.isSubtype_refl _⟩
    rw [run_bind_some (by rw [hv]; exact hd) hfits.1, if_pos hfits.2, setInferred_self (by rw [hv])]

theorem bindFor_again {op : BinaryOp} {source x : Expr}
    (h : (bindFor op source).run context unit = (.ok x, unit'))
    (hsize : v.bindings.size = unit.bindings.size)
    (hv : ∀ s, op.slot? = some s → v.binding s = unit'.binding s) :
    (bindFor op x).run context v = (.ok x, v) := by
  cases op with
  | «for» slot => exact bind_again h hsize (hv slot rfl)
  | quantified q slot => exact bind_again h hsize (hv slot rfl)
  | «let» slot => exact bind_again h hsize (hv slot rfl)
  | _ => rfl

/-- Checking the node, of which the operands are checked, leaves it as it is. -/
structure IsChecked (context : StaticContext) (unit : CompileUnit) (e : Expr) : Prop where
  inferred : (infer e).run context unit = (.ok e, unit)
  bound : ∀ n op a b, e = .binary n op a b → (bindFor op a).run context unit = (.ok a, unit)

/-- Where nothing is bound, what is inferred is inferred again. -/
theorem isChecked_of_infer {e x : Expr} {i : StaticInfo} {P : Expr → Prop} (hreturns : (infer e).Returns P)
    (h : (infer e).run context unit = (.ok x, unit')) (hx : x = e.withInfo i)
    (hop : ∀ n op a b, e ≠ .binary n op a b) (v : CompileUnit) : IsChecked context v x where
  inferred := by
    have hagain := hreturns.again h v
    rw [hx] at hagain ⊢
    rwa [infer_withInfo]
  bound n op a b heq := by
    subst hx
    cases e with
    | binary n op a b => exact absurd rfl (hop n op a b)
    | _ => cases heq

/-- A source that is bound is a tree of checked nodes, also where it is checked when it is evaluated. -/
theorem bind_isChecked {slot : Slot} {source x : Expr} {perItem : Bool}
    (h : (bind slot source perItem).run context unit = (.ok x, unit')) (hs : source.All (IsChecked context v)) :
    x.All (IsChecked context v) := by
  cases hd : (unit.binding slot).declared with
  | none =>
    rw [run_bind_none hd] at h
    cases h
    exact hs
  | some declared =>
    have hoverlaps := overlaps_of_bind h hd
    rw [run_bind_some hd hoverlaps] at h
    cases h
    split
    · exact hs
    · next hsub =>
      have hrun : (infer (treated (required perItem declared) source)).run context v = (.ok _, v) := run_treat hoverlaps
      rw [if_neg hsub] at hrun
      exact all_unary.2 ⟨⟨hrun, fun n op a b heq => nomatch heq⟩, hs⟩

theorem bindFor_isChecked {op : BinaryOp} {source x : Expr}
    (h : (bindFor op source).run context unit = (.ok x, unit')) (hs : source.All (IsChecked context v)) :
    x.All (IsChecked context v) := by
  cases op with
  | «for» slot => exact bind_isChecked h hs
  | quantified q slot => exact bind_isChecked h hs
  | «let» slot => exact bind_isChecked h hs
  | _ =>
    cases h
    exact hs

theorem run_check_binary (n : Note) (op : BinaryOp) (a b : Expr) : check (.binary n op a b) =
    (do let s ← bindFor op (← check a); infer (.binary n op s (← check b))) := by
  cases op <;> rfl

mutual

/-- A tree of checked nodes stays as it is. -/
theorem run_check_of_all (e : Expr) (h : e.All (IsChecked context unit)) :
    (check e).run context unit = (.ok e, unit) := by
  match e with
  | .leaf n op => exact h.self.inferred
  | .unary n op a =>
    obtain ⟨he, ha⟩ := all_unary.1 h
    exact (Pass.run_bind_eq (run_check_of_all a ha)).trans he.inferred
  | .binary n op a b =>
    obtain ⟨he, ha, hb⟩ := all_binary.1 h
    rw [run_check_binary, Pass.run_bind_eq (run_check_of_all a ha), Pass.run_bind_eq (he.bound n op a b rfl),
      Pass.run_bind_eq (run_check_of_all b hb)]
    exact he.inferred
  | .ternary n op a b d =>
    obtain ⟨he, ha, hb, hd⟩ := all_ternary.1 h
    exact (Pass.run_bind_eq (run_check_of_all a ha)).trans ((Pass.run_bind_eq (run_check_of_all b hb)).trans
      ((Pass.run_bind_eq (run_check_of_all d hd)).trans he.inferred))
  | .nary n op args =>
    obtain ⟨he, hargs⟩ := all_nary.1 h
    exact (Pass.run_bind_eq (run_checkList_of_all args hargs)).trans he.inferred

theorem run_checkList_of_all (es : List Expr) (h : ∀ e ∈ es, e.All (IsChecked context unit)) :
    (checkList es).run context unit = (.ok es, unit) := by
  match es with
  | [] => rfl
  | e :: es =>
    obtain ⟨he, hes⟩ := List.forall_mem_cons.1 h
    exact (Pass.run_bind_eq (run_check_of_all e he)).trans (Pass.run_bind_eq (run_checkList_of_all es hes))

end

mutual

/-- A checked tree is a tree of checked nodes, wherever the variables in it are of the types that they have in
the end. -/
theorem check_isChecked (e : Expr) {x : Expr} {unit unit' : CompileUnit}
    (h : (check e).run context unit = (.ok x, unit')) (hbound : WellBound [e])
    (hsize : v.bindings.size = unit.bindings.size) (hv : ∀ s, e.Mentions s → v.binding s = unit'.binding s) : x.All (IsChecked context v) := by
  match e with
  | .leaf n op =>
    obtain ⟨rfl, rfl⟩ := inferLeaf_ok h
    have hinfo : op.info context unit' = op.info context v := by
      cases op with
      | «variable» r =>
        cases r with
        | range slot =>
          have htype : unit'.typeOf slot = v.typeOf slot :=
            congrArg Binding.inferred (hv slot (.inl (beq_self_eq_true slot))).symm
          exact congrArg (fun t : SequenceType => StaticInfo.ofEffects t.cardinality t.item _) htype
        | global m => rfl
      | _ => rfl
    refine all_leaf.2 ⟨(congrArg (Pass.run · context v) (infer_withInfo (.leaf n op) _)).trans ?_,
      fun n op a b heq => nomatch heq⟩
    rw [hinfo]
    cases op with
    | «variable» r => cases r <;> rfl
    | _ => rfl
  | .unary n op a =>
    obtain ⟨a', unit₁, ha, h⟩ := Pass.run_bind_ok h
    have hreturns := inferUnary_returns (.unary n op a') op a'
    obtain ⟨rfl, hx | ⟨t, rfl, _, rfl⟩⟩ := hreturns.of_run h
    · have hself := isChecked_of_infer (e := .unary n op a') hreturns h hx (fun _ _ _ _ heq => nomatch heq) v
      subst hx
      exact all_unary.2 ⟨hself, check_isChecked a ha hbound.unary hsize hv⟩
    · exact check_isChecked a ha hbound.unary hsize hv
  | .binary n op a b =>
    rw [run_check_binary] at h
    obtain ⟨a', unit₁, ha, h⟩ := Pass.run_bind_ok h
    obtain ⟨s, unit₂, hs, h⟩ := Pass.run_bind_ok h
    obtain ⟨b', unit₃, hb, h⟩ := Pass.run_bind_ok h
    have hreturns := inferBinary_returns n op s b'
    obtain ⟨rfl, rfl⟩ := hreturns.of_run h
    have hab := hbound.binary
    have hra := check_refines a ha
    have hrs := bindFor_refines hs
    have hrb := check_refines b hb
    have hca : a'.All (IsChecked context v) := by
      refine check_isChecked a ha hab.head hsize fun t ht => ?_
      have hnot : t ∉ op.slot?.toList := fun hmem => (hbound.slot (Option.mem_toList.1 hmem)).1 ht
      have hright := hab.apart ht
      rw [List.flatMap_singleton] at hright
      rw [← hrs.binding t hnot, ← hrb.binding t hright]
      exact hv t (mentions_binary (.inl ht))
    have hcb : b'.All (IsChecked context v) := by
      refine check_isChecked b hb hab.tail ?_ fun t ht => hv t (mentions_binary (.inr (.inl ht)))
      rw [hrs.size, hra.size, hsize]
    have hagain : (bindFor op s).run context v = (.ok s, v) := by
      refine bindFor_again hs (hra.size ▸ hsize) fun t ht => ?_
      rw [hv t (mentions_binary (.inr (.inr ht))), hrb.binding t (hbound.slot ht).2]
    refine all_binary.2 ⟨⟨?_, fun m op' x y heq => ?_⟩, bindFor_isChecked hs hca, hcb⟩
    · exact (congrArg (Pass.run · context v) ((infer_withInfo _ _).trans (infer_settled ..))).trans (hreturns.again h v)
    · cases heq
      rwa [bindFor_settled]
  | .ternary n op a b d =>
    obtain ⟨a', unit₁, ha, h⟩ := Pass.run_bind_ok h
    obtain ⟨b', unit₂, hb, h⟩ := Pass.run_bind_ok h
    obtain ⟨d', unit₃, hd, h⟩ := Pass.run_bind_ok h
    have hreturns := inferTernary_returns (.ternary n op a' b' d') op a' b' d'
    obtain ⟨rfl, hx⟩ := hreturns.of_run h
    have hself := isChecked_of_infer (e := .ternary n op a' b' d') hreturns h hx (fun _ _ _ _ heq => nomatch heq) v
    subst hx
    have hrb := check_refines b hb
    have hrd := check_refines d hd
    have habd := hbound.ternary
    have hra := check_refines a ha
    refine all_ternary.2 ⟨hself, ?_, ?_, ?_⟩
    · refine check_isChecked a ha habd.head hsize fun t ht => ?_
      have hright := habd.apart ht
      rw [List.flatMap_cons, List.flatMap_singleton, List.mem_append, not_or] at hright
      rw [← hrb.binding t hright.1, ← hrd.binding t hright.2]
      exact hv t (mentions_ternary (.inl ht))
    · refine check_isChecked b hb habd.tail.head (hra.size ▸ hsize) fun t ht => ?_
      have hright := habd.tail.apart ht
      rw [List.flatMap_singleton] at hright
      rw [← hrd.binding t hright]
      exact hv t (mentions_ternary (.inr (.inl ht)))
    · refine check_isChecked d hd habd.tail.tail ?_ fun t ht => hv t (mentions_ternary (.inr (.inr ht)))
      rw [hrb.size, hra.size, hsize]
  | .nary n op es =>
    obtain ⟨es', unit₁, hes, h⟩ := Pass.run_bind_ok h
    have hreturns := inferNary_returns (.nary n op es') op es'
    obtain ⟨rfl, hx⟩ := hreturns.of_run h
    have hself := isChecked_of_infer (e := .nary n op es') hreturns h hx (fun _ _ _ _ heq => nomatch heq) v
    subst hx
    exact all_nary.2 ⟨hself, checkList_isChecked es hes hbound.nary hsize fun a ha s hs => hv s (mentions_nary ha hs)⟩

theorem checkList_isChecked (es : List Expr) {xs : List Expr} {unit unit' : CompileUnit}
    (h : (checkList es).run context unit = (.ok xs, unit')) (hbound : WellBound es)
    (hsize : v.bindings.size = unit.bindings.size) (hv : ∀ e ∈ es, ∀ s, e.Mentions s → v.binding s = unit'.binding s) :
    ∀ x ∈ xs, x.All (IsChecked context v) := by
  match es with
  | [] =>
    cases h
    nofun
  | e :: es =>
    obtain ⟨x, unit₁, he, h⟩ := Pass.run_bind_ok h
    obtain ⟨xs', unit₂, hes, h⟩ := Pass.run_bind_ok h
    cases h
    have hre := check_refines e he
    have hres := checkList_refines es hes
    refine List.forall_mem_cons.2 ⟨?_, ?_⟩
    · refine check_isChecked e he hbound.head hsize fun t ht => ?_
      rw [← hres.binding t (hbound.apart ht)]
      exact hv e List.mem_cons_self t ht
    · exact checkList_isChecked es hes hbound.tail (hre.size ▸ hsize) fun a ha => hv a (List.mem_cons_of_mem e ha)

end

end Typing
end XPath
