import XPath.Proofs.Scope
import XPath.Proofs.Soundness

/-!
What checking records at a node follows from what it records at the operands, if no variable is bound
twice. Three rows promise too little: that of a predicate that is a number for every item, that of a sum
with a second argument, and that of a loop over items of which it is declared that there are none.
-/
namespace XPath

namespace CompileUnit
variable {unit unit' : CompileUnit}

/-- Of the bindings only the types of some variables have changed. -/
structure Refines (slots : List Slot) (unit unit' : CompileUnit) : Prop where
  size : unit'.bindings.size = unit.bindings.size
  kind : ∀ s, (unit'.binding s).kind = (unit.binding s).kind
  binding : ∀ s, s ∉ slots → unit'.binding s = unit.binding s

namespace Refines
variable {slots : List Slot}

theorem typeOf (h : Refines slots unit unit') (s : Slot) (hs : s ∉ slots) : unit'.typeOf s = unit.typeOf s :=
  congrArg Binding.inferred (h.binding s hs)

theorem refl (unit : CompileUnit) : Refines [] unit unit := ⟨rfl, fun _ => rfl, fun _ _ => rfl⟩

theorem trans {slots' : List Slot} {unit'' : CompileUnit} (h : Refines slots unit unit')
    (h' : Refines slots' unit' unit'') : Refines (slots ++ slots') unit unit'' where
  size := h'.size.trans h.size
  kind s := (h'.kind s).trans (h.kind s)
  binding s hs := by
    rw [List.mem_append, not_or] at hs
    exact (h'.binding s hs.2).trans (h.binding s hs.1)

end Refines

theorem binding_setInferred (unit : CompileUnit) (s : Slot) (t : SequenceType) (s' : Slot) :
    (unit.setInferred s t).binding s' = if s' = s ∧ s < unit.bindings.size
      then { unit.binding s with inferred := t } else unit.binding s' := by
  unfold binding setInferred
  dsimp only
  rw [Array.getElem?_modify]
  by_cases heq : s = s'
  · subst heq
    by_cases hs : s < unit.bindings.size <;> simp [hs]
  · rw [if_neg heq, if_neg fun h => heq h.1.symm]

theorem refines_setInferred (unit : CompileUnit) (s : Slot) (t : SequenceType) :
    Refines [s] unit (unit.setInferred s t) where
  size := Array.size_modify
  kind s' := by
    rw [binding_setInferred]
    split
    · next h => rw [h.1]
    · rfl
  binding s' hs' := by
    rw [binding_setInferred, if_neg fun h => hs' (List.mem_singleton.2 h.1)]

theorem typeOf_setInferred {s : Slot} (hs : s < unit.bindings.size) (t : SequenceType) :
    (unit.setInferred s t).typeOf s = t := by
  unfold typeOf
  rw [binding_setInferred, if_pos ⟨rfl, hs⟩]

end CompileUnit

namespace Typing
open XPath.Expr CompileUnit

variable {context : StaticContext} {unit unit' : CompileUnit}

theorem bind_refines {slot : Slot} {source x : Expr} {perItem : Bool}
    (h : (bind slot source perItem).run context unit = (.ok x, unit')) : Refines [slot] unit unit' := by
  have hb := bind_ok h
  split at hb
  · exact hb.2 ▸ refines_setInferred unit slot _
  · exact hb.1 ▸ refines_setInferred unit slot _

theorem bindFor_refines {op : BinaryOp} {source x : Expr}
    (h : (bindFor op source).run context unit = (.ok x, unit')) :
    Refines op.slot?.toList unit unit' := by
  cases op with
  | «for» slot => exact bind_refines h
  | quantified q slot => exact bind_refines h
  | «let» slot => exact bind_refines h
  | _ =>
    cases h
    exact .refl unit

mutual

/-- Checking refines the types of the variables that are bound in the tree, and of no others. -/
theorem check_refines (e : Expr) {x : Expr} {unit unit' : CompileUnit}
    (h : (check e).run context unit = (.ok x, unit')) : Refines e.boundSlots unit unit' := by
  match e with
  | .leaf n op =>
    obtain ⟨rfl, rfl⟩ := inferLeaf_ok h
    cases op <;> exact .refl _
  | .unary n op a =>
    obtain ⟨a', unit₁, ha, h⟩ := Pass.run_bind_ok h
    obtain ⟨rfl, _⟩ := (inferUnary_returns (.unary n op a') op a').of_run h
    exact check_refines a ha
  | .binary n op a b =>
    obtain ⟨a', s, b', unit₁, unit₂, ha, hs, hb, rfl⟩ := check_binary_ok h
    have hslots := ((check_refines a ha).trans (bindFor_refines hs)).trans (check_refines b hb)
    refine ⟨hslots.size, hslots.kind, fun t ht => hslots.binding t ?_⟩
    rw [boundSlots_binary] at ht
    simp only [List.mem_append, not_or] at ht ⊢
    exact ⟨⟨ht.2.1, ht.1⟩, ht.2.2⟩
  | .ternary n op a b d =>
    obtain ⟨a', unit₁, ha, h⟩ := Pass.run_bind_ok h
    obtain ⟨b', unit₂, hb, h⟩ := Pass.run_bind_ok h
    obtain ⟨d', unit₃, hd, h⟩ := Pass.run_bind_ok h
    obtain ⟨rfl, rfl⟩ := (inferTernary_returns (.ternary n op a' b' d') op a' b' d').of_run h
    rw [boundSlots_ternary]
    exact (check_refines a ha).trans ((check_refines b hb).trans (check_refines d hd))
  | .nary n op es =>
    obtain ⟨es', unit₁, hes, h⟩ := Pass.run_bind_ok h
    obtain ⟨rfl, rfl⟩ := (inferNary_returns (.nary n op es') op es').of_run h
    rw [boundSlots_nary]
    exact checkList_refines es hes

theorem checkList_refines (es : List Expr) {xs : List Expr} {unit unit' : CompileUnit}
    (h : (checkList es).run context unit = (.ok xs, unit')) :
    Refines (es.flatMap boundSlots) unit unit' := by
  match es with
  | [] =>
    cases h
    exact .refl _
  | e :: es =>
    obtain ⟨x, unit₁, he, h⟩ := Pass.run_bind_ok h
    obtain ⟨xs', unit₂, hes, h⟩ := Pass.run_bind_ok h
    cases h
    rw [List.flatMap_cons]
    exact (check_refines e he).trans (checkList_refines es hes)

end

end Typing

/-- What is recorded in a tree, given the types of the variables. -/
def Claims.recorded (types : Slot → SequenceType) (context : StaticContext) : Claims :=
  ⟨Expr.info, fun _ => rfl, types, context.globalType⟩

namespace Expr

/-- Where a row would promise too little, another one sees to it: a predicate that reads the focus and is
a number stands at no more than one item, the second argument of a sum is no more than one item, and a
loop over a variable that is declared empty has nothing to go over. -/
def IsCounted (types : Slot → SequenceType) : Expr → Prop
  | binary _ (.filter _) a b =>
    b.info.dependencies.focus → b.itemType.isNumeric → a.cardinality.atMostOne
  | nary _ (.call (.builtin .sum)) (a :: b :: _) => a.cardinality.allowsEmpty → b.cardinality.atMostOne
  | binary _ (.for slot) a _ | binary _ (.quantified _ slot) a _ =>
    (types slot).cardinality = .empty → a.cardinality = .empty
  | _ => True

/-- A variable is of the type of what it is bound to, or of a wider one. -/
def Binds (types : Slot → SequenceType) (op : BinaryOp) (a : StaticInfo) : Prop :=
  match op with
  | .for slot | .quantified _ slot => a.type.isSubtype ⟨(types slot).item, .zeroOrMore⟩
  | .let slot => a.type.isSubtype (types slot)
  | _ => True

/-- The type that is recorded at a node is the one that its row makes of the types at its operands. -/
def IsInferred (types : Slot → SequenceType) (globals : QName → SequenceType) : Expr → Prop
  | leaf n op => n.info.type = op.typeWith types globals
  | unary n op a => n.info.type = op.typeOf a.info
  | binary n op a b => n.info.type = op.typeOf a.info b.info ∧ Binds types op a.info
  | ternary n op a b d => n.info.type = op.typeOf a.info b.info d.info
  | nary n op args => n.info.type = op.typeOf (args.map Expr.info)

end Expr

namespace Typing
open XPath.Expr CompileUnit Regime

variable {context : StaticContext} {unit unit' : CompileUnit} {types : Slot → SequenceType}

theorem bind_source {slot : Slot} {source x : Expr} {perItem : Bool}
    (h : (bind slot source perItem).run context unit = (.ok x, unit')) :
    x = source ∨ ∃ n t, x = .unary n (.treat t) source ∧ n.info.type = t := by
  have hb := bind_ok h
  split at hb
  · exact .inl hb.1
  · exact hb.2.imp And.left fun hx => ⟨_, _, hx, rfl⟩

theorem bindFor_source {op : BinaryOp} {source x : Expr}
    (h : (bindFor op source).run context unit = (.ok x, unit')) :
    x = source ∨ ∃ n t, x = .unary n (.treat t) source ∧ n.info.type = t := by
  cases op with
  | «for» slot => exact bind_source h
  | quantified q slot => exact bind_source h
  | «let» slot => exact bind_source h
  | _ =>
    cases h
    exact .inl rfl

theorem bindFor_binds {op : BinaryOp} {source x : Expr}
    (h : (bindFor op source).run context unit = (.ok x, unit'))
    (hslot : ∀ s, op.slot? = some s → s < unit.bindings.size)
    (htypes : ∀ s, op.slot? = some s → types s = unit'.typeOf s) : Binds types op x.info := by
  have hbind {slot : Slot} {perItem : Bool} (hs : op.slot? = some slot)
      (hb : (bind slot source perItem).run context unit = (.ok x, unit')) :
      x.info.type.isSubtype (if perItem then ⟨(types slot).item, .zeroOrMore⟩ else types slot) := by
    have hb := bind_ok hb
    rw [htypes slot hs]
    split at hb
    · obtain ⟨rfl, rfl⟩ := hb
      rw [typeOf_setInferred (hslot slot hs)]
      cases perItem
      · exact SequenceType.isSubtype_refl _
      · exact SequenceType.isSubtype_many (ItemType.isSubtype_refl _)
    · obtain ⟨rfl, hx⟩ := hb
      rw [typeOf_setInferred (hslot slot hs)]
      obtain ⟨rfl, hsub⟩ | rfl := hx
      · exact hsub
      · exact SequenceType.isSubtype_refl _
  cases op with
  | «for» slot => exact hbind rfl h
  | quantified q slot => exact hbind rfl h
  | «let» slot => exact hbind rfl h
  | _ => trivial

private theorem inferred_of_source {globals : QName → SequenceType} {source x : Expr}
    (hx : x = source ∨ ∃ n t, x = .unary n (.treat t) source ∧ n.info.type = t)
    (h : source.All (IsInferred types globals)) : x.All (IsInferred types globals) := by
  obtain rfl | ⟨n, t, rfl, ht⟩ := hx
  · exact h
  · exact all_unary.2 ⟨ht, h⟩

mutual

/-- What is recorded in a checked tree is inferred, given the types that the variables have in the end. -/
theorem check_inferred (e : Expr) {x : Expr} {unit unit' : CompileUnit}
    (h : (check e).run context unit = (.ok x, unit')) (hbound : WellBound [e])
    (hslots : ∀ s ∈ e.boundSlots, s < unit.bindings.size)
    (htypes : ∀ s, e.Mentions s → types s = unit'.typeOf s) :
    x.All (IsInferred types context.globalType) := by
  match e with
  | .leaf n op =>
    obtain ⟨rfl, rfl⟩ := inferLeaf_ok h
    refine all_leaf.2 ?_
    cases op with
    | «variable» r =>
      cases r with
      | range slot => exact (htypes slot (.inl (beq_self_eq_true slot))).symm
      | global m => rfl
    | _ => rfl
  | .unary n op a =>
    obtain ⟨a', unit₁, ha, h⟩ := Pass.run_bind_ok h
    obtain ⟨rfl, rfl | ⟨t, rfl, _, rfl⟩⟩ := (inferUnary_returns (.unary n op a') op a').of_run h
    · exact all_unary.2 ⟨rfl, check_inferred a ha hbound.unary hslots htypes⟩
    · exact check_inferred a ha hbound.unary hslots htypes
  | .binary n op a b =>
    obtain ⟨a', s, b', unit₁, unit₂, ha, hs, hb, rfl⟩ := check_binary_ok h
    have hab := hbound.binary
    have hra := check_refines a ha
    have hrs := bindFor_refines hs
    have hrb := check_refines b hb
    have hfa : a'.All (IsInferred types context.globalType) := by
      refine check_inferred a ha hab.head (fun t ht => hslots t ?_) fun t ht => ?_
      · rw [boundSlots_binary]
        exact List.mem_append_right _ (List.mem_append_left _ ht)
      · have hnot : t ∉ op.slot?.toList := fun hmem => (hbound.slot (Option.mem_toList.1 hmem)).1 ht
        have hright := hab.apart ht
        rw [List.flatMap_singleton] at hright
        rw [← hrs.typeOf t hnot, ← hrb.typeOf t hright]
        exact htypes t (mentions_binary (.inl ht))
    have hfb : b'.All (IsInferred types context.globalType) := by
      refine check_inferred b hb hab.tail (fun t ht => ?_)
        fun t ht => htypes t (mentions_binary (.inr (.inl ht)))
      rw [hrs.size, hra.size]
      apply hslots t
      rw [boundSlots_binary]
      exact List.mem_append_right _ (List.mem_append_right _ ht)
    have hrow : (op.info s.info b'.info).type = (op.settled b'.info).typeOf s.info b'.info := by
      cases op <;> rfl
    refine all_binary.2 ⟨⟨hrow, ?_⟩, inferred_of_source (bindFor_source hs) hfa, hfb⟩
    have hbinds : Binds types op s.info := by
      refine bindFor_binds hs (fun t ht => ?_) fun t ht => ?_
      · rw [hra.size]
        apply hslots t
        rw [boundSlots_binary, ht]
        exact List.mem_cons_self
      · rw [htypes t (mentions_binary (.inr (.inr ht))), hrb.typeOf t (hbound.slot ht).2]
    cases op <;> exact hbinds
  | .ternary n op a b d =>
    obtain ⟨a', unit₁, ha, h⟩ := Pass.run_bind_ok h
    obtain ⟨b', unit₂, hb, h⟩ := Pass.run_bind_ok h
    obtain ⟨d', unit₃, hd, h⟩ := Pass.run_bind_ok h
    obtain ⟨rfl, rfl⟩ := (inferTernary_returns (.ternary n op a' b' d') op a' b' d').of_run h
    have hrb := check_refines b hb
    have hrd := check_refines d hd
    have habd := hbound.ternary
    have hmem {t : Slot} (ht : t ∈ a.boundSlots ∨ t ∈ b.boundSlots ∨ t ∈ d.boundSlots) :
        t < unit.bindings.size := by
      apply hslots t
      rwa [boundSlots_ternary, List.mem_append, List.mem_append]
    refine all_ternary.2 ⟨rfl, ?_, ?_, ?_⟩
    · refine check_inferred a ha habd.head (fun t ht => hmem (.inl ht)) fun t ht => ?_
      have hright := habd.apart ht
      rw [List.flatMap_cons, List.flatMap_singleton, List.mem_append, not_or] at hright
      rw [← hrb.typeOf t hright.1, ← hrd.typeOf t hright.2]
      exact htypes t (mentions_ternary (.inl ht))
    · refine check_inferred b hb habd.tail.head (fun t ht => ?_) fun t ht => ?_
      · exact (check_refines a ha).size ▸ hmem (.inr (.inl ht))
      · have hright := habd.tail.apart ht
        rw [List.flatMap_singleton] at hright
        rw [← hrd.typeOf t hright]
        exact htypes t (mentions_ternary (.inr (.inl ht)))
    · refine check_inferred d hd habd.tail.tail (fun t ht => ?_) fun t ht => ?_
      · rw [hrb.size, (check_refines a ha).size]
        exact hmem (.inr (.inr ht))
      · exact htypes t (mentions_ternary (.inr (.inr ht)))
  | .nary n op es =>
    obtain ⟨es', unit₁, hes, h⟩ := Pass.run_bind_ok h
    obtain ⟨rfl, rfl⟩ := (inferNary_returns (.nary n op es') op es').of_run h
    refine all_nary.2 ⟨rfl, checkList_inferred es hes hbound.nary ?_ ?_⟩
    · rwa [boundSlots_nary] at hslots
    · intro a ha s hs
      exact htypes s (mentions_nary ha hs)

theorem checkList_inferred (es : List Expr) {xs : List Expr} {unit unit' : CompileUnit}
    (h : (checkList es).run context unit = (.ok xs, unit')) (hbound : WellBound es)
    (hslots : ∀ s ∈ es.flatMap boundSlots, s < unit.bindings.size)
    (htypes : ∀ e ∈ es, ∀ s, e.Mentions s → types s = unit'.typeOf s) :
    ∀ x ∈ xs, x.All (IsInferred types context.globalType) := by
  match es with
  | [] =>
    cases h
    nofun
  | e :: es =>
    obtain ⟨x, unit₁, he, h⟩ := Pass.run_bind_ok h
    obtain ⟨xs', unit₂, hes, h⟩ := Pass.run_bind_ok h
    cases h
    have hre := check_refines e he
    have hres := checkList_refines es hes
    rw [List.flatMap_cons] at hslots
    refine List.forall_mem_cons.2 ⟨?_, ?_⟩
    · refine check_inferred e he hbound.head (fun t ht => hslots t (List.mem_append_left _ ht))
        fun t ht => ?_
      rw [← hres.typeOf t (hbound.apart ht)]
      exact htypes e List.mem_cons_self t ht
    · refine checkList_inferred es hes hbound.tail (fun t ht => ?_)
        fun a ha => htypes a (List.mem_cons_of_mem e ha)
      exact hre.size ▸ hslots t (List.mem_append_right _ ht)

end

/-- Where the rows that promise too little do not stand alone, what is inferred follows. -/
theorem follows_of_inferred {x : Expr} (h : IsInferred types context.globalType x)
    (hx : IsCounted types x) : (Claims.recorded types context).Follows x := by
  have hloop {slot : Slot} {a : StaticInfo} (ha : a.type.isSubtype ⟨(types slot).item, .zeroOrMore⟩)
      (hempty : (types slot).cardinality = .empty → a.cardinality = .empty) :
      Narrower (.one a.item) (types slot) ∨ a.cardinality.most = 0 := by
    by_cases hd : (types slot).cardinality = .empty
    · rw [hempty hd]
      exact .inr rfl
    obtain hpass | hnone := passes_of_isSubtype ha
    · exact .inl ⟨hpass.suits, (types slot).cardinality.least_le_one_or, Cardinality.one_le_most hd⟩
    · exact .inr hnone.1
  cases x with
  | leaf n op => exact Narrower.of_eq h.symm
  | unary n op a => exact Narrower.of_eq h.symm
  | binary n op a b =>
    refine ⟨Narrower.of_eq h.1.symm, ?_⟩
    cases op with
    | «for» slot => exact hloop h.2 hx
    | quantified q slot => exact hloop h.2 hx
    | «let» slot => exact passes_of_isSubtype h.2
    | filter positional => exact fun hfocus hnumber => Cardinality.most_le_one (hx hfocus hnumber)
    | _ => trivial
  | ternary n op a b d => exact Narrower.of_eq h.symm
  | nary n op args =>
    refine ⟨Narrower.of_eq h.symm, fun i j rest hop hargs hleast => ?_⟩
    subst hop
    match args, hargs with
    | a :: b :: _, hargs =>
      cases hargs
      have hb : b.cardinality.atMostOne := hx (beq_iff_eq.2 hleast)
      change b.cardinality.most ≤ n.info.type.cardinality.most
      rw [show n.info.type = _ from h]
      change b.cardinality.most ≤ (Builtin.sum.signature _).result.cardinality.most
      rw [Builtin.signature_sum]
      apply (Cardinality.most_le_one hb).trans
      dsimp only
      split <;> exact le_rfl

/-- What is recorded in a checked tree follows, given the types that the variables have in the end. -/
theorem check_follows (e : Expr) {x : Expr} {unit unit' : CompileUnit}
    (h : (check e).run context unit = (.ok x, unit')) (hbound : WellBound [e])
    (hslots : ∀ s ∈ e.boundSlots, s < unit.bindings.size)
    (htypes : ∀ s, e.Mentions s → types s = unit'.typeOf s) (hx : x.All (IsCounted types)) :
    x.All (Claims.recorded types context).Follows :=
  fun y hy => follows_of_inferred (check_inferred e h hbound hslots htypes y hy) (hx y hy)

end Typing

namespace Modes
open XPath.Expr Regime

private theorem ite_ne {c : Prop} [Decidable c] {l m r : Mode} (hl : l ≠ m) (hr : r ≠ m) :
    (if c then l else r) ≠ m := by
  split
  · exact hl
  · exact hr

theorem eager_ne (value : Expr) : eager value ≠ .returnEmpty := ite_ne nofun (ite_ne nofun nofun)

/-- Only a value that is known to be empty is never evaluated. -/
theorem empty_of_choose {unit : CompileUnit} {slot : Slot} {value action : Expr}
    (h : choose unit slot value action = .returnEmpty) : value.cardinality = .empty := by
  by_contra hc
  have hclosure : choose unit slot value action ≠ .returnEmpty := by
    have hother := ite_ne (c := value.info.dependencies.focus || value.info.dependencies.group ||
        value.info.dependencies.matched || value.cardinality.atMostOne) (eager_ne value)
      (ite_ne (c := isTailOfVariable value) (l := .lazyTail) nofun
        (ite_ne (c := isAppendToVariable value) (l := .sharedAppend) nofun
          (ite_ne (c := value.info.createsNodes) (eager_ne value)
            (ite_ne (c := 1 < action.uses slot || action.preorder.any (picksFrom slot))
              (l := .memoClosure value.freeSlots) (r := .oneShotClosure value.freeSlots) nofun nofun))))
    refine ite_ne nofun ?_
    rw [if_neg hc]
    cases value with
    | leaf n op => cases op <;> first | exact hother | exact nofun
    | _ => exact hother
  exact hclosure h

variable {types : Slot → SequenceType} {context : StaticContext}

theorem assignList_info (unit : CompileUnit) (es : List Expr) :
    (assignList unit es).map Expr.info = es.map Expr.info := by
  induction es with
  | nil => rfl
  | cons e es ih => rw [assignList, List.map_cons, List.map_cons, assign_info, ih]

theorem withMode_mode (e : Expr) (m : Mode) : (e.withMode m).mode = m := by
  cases e <;> rfl

/-- The property of a node depends on its operator and on what is recorded at it and at its operands. -/
structure ReadsInfo (P : Expr → Prop) : Prop where
  mode : ∀ {e} m, P e → P (e.withMode m)
  unary : ∀ {n op a a'}, a'.info = a.info → P (.unary n op a) → P (.unary n op a')
  binary : ∀ {n op a a' b b'}, a'.info = a.info → b'.info = b.info → P (.binary n op a b) →
    P (.binary n op a' b')
  ternary : ∀ {n op a a' b b' d d'}, a'.info = a.info → b'.info = b.info → d'.info = d.info →
    P (.ternary n op a b d) → P (.ternary n op a' b' d')
  nary : ∀ {n op args args'}, args'.map Expr.info = args.map Expr.info → P (.nary n op args) →
    P (.nary n op args')

mutual

/-- Modes change nothing that is recorded. -/
theorem assign_all {P : Expr → Prop} (hP : ReadsInfo P) (unit : CompileUnit) (e : Expr) (h : e.All P) :
    (assign unit e).All P := by
  match e with
  | .leaf n op => exact h
  | .unary n op a =>
    obtain ⟨hself, ha⟩ := all_unary.1 h
    exact all_unary.2 ⟨hP.unary (assign_info unit a) hself, assign_all hP unit a ha⟩
  | .binary n op a b =>
    obtain ⟨hself, ha, hb⟩ := all_binary.1 h
    have ha' := assign_all hP unit a ha
    have hb' := assign_all hP unit b hb
    cases op with
    | «let» slot =>
      refine all_binary.2 ⟨hP.binary ?_ (assign_info unit b) hself, ?_, hb'⟩
      · rw [withMode_info, assign_info]
      · exact all_withMode _ ha' (hP.mode _ ha'.self)
    | _ => exact all_binary.2 ⟨hP.binary (assign_info unit a) (assign_info unit b) hself, ha', hb'⟩
  | .ternary n op a b d =>
    obtain ⟨hself, ha, hb, hd⟩ := all_ternary.1 h
    exact all_ternary.2 ⟨hP.ternary (assign_info unit a) (assign_info unit b) (assign_info unit d) hself,
      assign_all hP unit a ha, assign_all hP unit b hb, assign_all hP unit d hd⟩
  | .nary n op args =>
    obtain ⟨hself, hargs⟩ := all_nary.1 h
    exact all_nary.2 ⟨hP.nary (assignList_info unit args) hself, assignList_all hP unit args hargs⟩

theorem assignList_all {P : Expr → Prop} (hP : ReadsInfo P) (unit : CompileUnit) (es : List Expr)
    (h : ∀ e ∈ es, e.All P) : ∀ e ∈ assignList unit es, e.All P := by
  match es with
  | [] => nofun
  | e :: es =>
    obtain ⟨he, hes⟩ := List.forall_mem_cons.1 h
    exact List.forall_mem_cons.2 ⟨assign_all hP unit e he, assignList_all hP unit es hes⟩

end

private theorem obtains_withMode {T : Claims} {e : Expr} {m : Mode} (h : T.Obtains e) :
    T.Obtains (e.withMode m) := by
  intro n slot a b heq
  cases e with
  | binary n' op a' b' =>
    cases heq
    exact h n' slot a b rfl
  | _ => cases heq

/-- Nothing is asked for where nothing is bound. -/
private theorem obtains_of_ne {T : Claims} {e : Expr} (h : ∀ n slot a b, e ≠ .binary n (.let slot) a b) :
    T.Obtains e :=
  fun n slot a b heq => absurd heq (h n slot a b)

mutual

/-- The modes ask for no more than is recorded. -/
theorem assign_obtains (unit : CompileUnit) (e : Expr) :
    (assign unit e).All (Claims.recorded types context).Obtains := by
  match e with
  | .leaf n op => exact all_leaf.2 (obtains_of_ne fun _ _ _ _ heq => nomatch heq)
  | .unary n op a =>
    exact all_unary.2 ⟨obtains_of_ne fun _ _ _ _ heq => (nomatch heq), assign_obtains unit a⟩
  | .binary n op a b =>
    have ha := assign_obtains unit a
    have hb := assign_obtains unit b
    cases op with
    | «let» slot =>
      refine all_binary.2 ⟨fun m slot' a' b' heq hmode => ?_,
        all_withMode _ ha (obtains_withMode ha.self), hb⟩
      cases heq
      rw [withMode_mode] at hmode
      change ((assign unit a).withMode _).info.cardinality.least = 0
      rw [withMode_info]
      exact congrArg Cardinality.least (empty_of_choose hmode)
    | _ => exact all_binary.2 ⟨obtains_of_ne (fun _ _ _ _ heq => by cases heq), ha, hb⟩
  | .ternary n op a b d =>
    exact all_ternary.2 ⟨obtains_of_ne fun _ _ _ _ heq => (nomatch heq), assign_obtains unit a,
      assign_obtains unit b, assign_obtains unit d⟩
  | .nary n op args =>
    exact all_nary.2 ⟨obtains_of_ne fun _ _ _ _ heq => (nomatch heq), assignList_obtains unit args⟩

theorem assignList_obtains (unit : CompileUnit) (es : List Expr) :
    ∀ e ∈ assignList unit es, e.All (Claims.recorded types context).Obtains := by
  match es with
  | [] => nofun
  | e :: es =>
    exact List.forall_mem_cons.2 ⟨assign_obtains unit e, assignList_obtains unit es⟩

end

private theorem readsInfo_follows : ReadsInfo (Claims.recorded types context).Follows where
  mode {e} m h := by cases e <;> exact h
  unary {n op a a'} ha h := by
    change Narrower (op.typeOf a'.info) n.info.type
    rw [ha]
    exact h
  binary {n op a a' b b'} ha hb h := by
    change Narrower (op.typeOf a'.info b'.info) n.info.type ∧ Claims.FollowsBinary _ op a'.info b'.info
    rw [ha, hb]
    exact h
  ternary {n op a a' b b' d d'} ha hb hd h := by
    change Narrower (op.typeOf a'.info b'.info d'.info) n.info.type
    rw [ha, hb, hd]
    exact h
  nary {n op args args'} hargs h := by
    change Narrower (op.typeOf (args'.map Expr.info)) n.info.type ∧
      Claims.FollowsNary op (args'.map Expr.info) n.info.type
    rw [hargs]
    exact h

theorem assign_follows (unit : CompileUnit) (e : Expr)
    (h : e.All (Claims.recorded types context).Follows) :
    (assign unit e).All fun x =>
      (Claims.recorded types context).Follows x ∧ (Claims.recorded types context).Obtains x :=
  fun x hx => ⟨assign_all readsInfo_follows unit e h x hx, assign_obtains unit e x hx⟩

end Modes
end XPath
