import XPath.Proofs.Storing
import XPath.Proofs.TypedCalls

/-!
Every item that a checked expression gives is of the type that was inferred, except where a row infers
a type that the evaluation does not keep: unary minus of a derived integer, the integer quotient of floats
or doubles, the second argument of a sum, and a loop over items of which it is declared that there are none.
-/
namespace XPath

namespace Regime

variable {k l : typing.Stage} {f : Frame} {t : SequenceType}

/-! Frames and operators without operands. -/

/-- The variables of a frame have items of their types, and its context item is one that there can be. -/
structure FrameTyped (types : Slot → SequenceType) (k : typing.Stage) (f : Frame) : Prop where
  slots : ∀ slot v, f.slots slot = some v → TypedValue k v (types slot)
  focus : FocusKnown k f

/-- The declared variables have items of their types. -/
def GlobalsTyped (types : QName → SequenceType) (k : typing.Stage) (c : DynamicContext) : Prop :=
  ∀ n xs, c.valueOf? n.toName = some xs → HasAll (types n) k xs

theorem GlobalsTyped.later {types : QName → SequenceType} {c : DynamicContext}
    (h : GlobalsTyped types k c) (hl : typing.le k l) : GlobalsTyped types l c :=
  fun n xs hn => Fits.later (h n xs hn) hl

namespace FrameTyped
variable {types : Slot → SequenceType}

theorem later (h : FrameTyped types k f) (hl : typing.le k l) : FrameTyped types l f :=
  ⟨fun slot v hv => (h.slots slot v hv).later hl, h.focus.later hl⟩

theorem bind (h : FrameTyped types k f) {slot : Slot} {v : Value} (hv : TypedValue k v (types slot)) :
    FrameTyped types k (f.bind slot v) := by
  refine ⟨fun slot' v' hv' => ?_, h.focus⟩
  unfold Frame.bind at hv'
  dsimp only at hv'
  split at hv'
  · next heq =>
    cases hv'
    exact heq ▸ hv
  · exact h.slots slot' v' hv'

theorem withFocus (h : FrameTyped types k f) {x : Item} (hx : known.holds k x) (n : ℕ)
    (size : Option ℕ) : FrameTyped types k (f.withFocus x n size) := by
  refine ⟨h.slots, fun y hy => ?_⟩
  cases hy
  exact hx

theorem capture (h : FrameTyped types k f) (slots : List Slot) :
    FrameTyped types k (f.capture slots) := by
  refine ⟨fun slot v hv => ?_, by rintro _ ⟨⟩⟩
  unfold Frame.capture at hv
  dsimp only at hv
  split at hv
  · exact h.slots slot v hv
  · cases hv

end FrameTyped

theorem runs_valueOf_typed {types : Slot → SequenceType} {globals : QName → SequenceType}
    {c : DynamicContext} (hf : FrameTyped types k f) (hc : GlobalsTyped globals k c) (r : VariableRef) :
    Runs k (f.valueOf c r) fun l v => TypedValue l v ((LeafOp.variable r).typeWith types globals) := by
  cases r with
  | range slot => exact runs_require fun m v hm hv => (hf.slots slot v hv).later hm
  | global n =>
    apply runs_require
    intro m v hm hv
    obtain ⟨xs, hxs, rfl⟩ := Option.map_eq_some_iff.1 hv
    exact (hc n xs hxs).later hm

theorem hasAll_literal (cs : List Constant) :
    HasAll ⟨.commonOf (cs.map fun c => .atomic c.type), .ofLength cs.length⟩ k
      (cs.map fun c => .atomic (.ofConstant c)) := by
  refine hasAll_iff.2 fun x hx => ?_
  obtain ⟨c, hc, rfl⟩ := List.mem_map.1 hx
  have hone : 1 ≤ cs.length := List.length_pos_of_mem hc
  have hmost := Cardinality.most_ofLength cs.length
  have hconstant : (Atomic.ofConstant c).IsProper ∧ (Atomic.ofConstant c).type = c.type := by
    cases c <;> exact ⟨by trivial, rfl⟩
  refine ⟨le_trans (by exact_mod_cast hone) hmost, hconstant.1, ?_⟩
  refine ItemType.covers_commonOf (t := .atomic c.type) hconstant.1
    (List.mem_map.2 ⟨c, hc, rfl⟩) (ItemType.covers_atomic ?_)
  rw [hconstant.2]
  exact c.type.derivesFrom_refl

/-- Names of elements and of attributes are tested by the type of the step as they are by the step. -/
theorem stepType_name (nt : NameTest) : ∃ e : NameAndType,
    Expr.stepType .attr (.name nt) = .node (.attr e) ∧
    (∀ axis, axis ≠ .attr → axis ≠ .ns → Expr.stepType axis (.name nt) = .node (.element e)) ∧
    ∀ n, nt.holds n → (∀ v, e.holds (.attr n v)) ∧ e.holds (.element n) := by
  have helement {e : NameAndType} (h : Expr.stepType .child (.name nt) = .node (.element e)) :
      ∀ axis, axis ≠ .attr → axis ≠ .ns → Expr.stepType axis (.name nt) = .node (.element e) := by
    intro axis hattr hns
    cases axis <;> first | exact h | contradiction
  cases nt with
  | name m =>
    refine ⟨{ name := some m }, rfl, helement rfl, fun n hn => ?_⟩
    have hname : m.nodeName = n := eq_of_beq hn
    simp [NameAndType.holds, Content.name?, hname]
  | _ => exact ⟨{}, rfl, helement rfl, fun _ _ => ⟨fun _ => rfl, rfl⟩⟩

/-- A node that passes the test of a step is of the type of the step. -/
theorem holds_stepType {axis : Axis} {test : NodeTest} {u : Tree} {g : Forest} (hg : g.IsSound)
    (hu : u ∈ g.nodes) (haxis : axis ≠ .ns) (h : test.holds axis u) :
    (Expr.stepType axis test).Covers g (.node u.id) := by
  have hnode := hg.node?_eq hu
  cases test with
  | kind kd => exact ItemType.covers_node hnode h
  | name nt =>
    obtain ⟨e, hattr, helement, hname⟩ := stepType_name nt
    unfold NodeTest.holds at h
    dsimp only at h
    split at h
    · next m v hc =>
      rw [hattr]
      exact ItemType.covers_node hnode (KindTest.holds_attr.2 ⟨m, v, hc, (hname m h).1 v⟩)
    · cases h
    · exact absurd rfl haxis
    · cases h
    · next m hne _ hc =>
      rw [helement _ hne haxis]
      exact ItemType.covers_node hnode (KindTest.holds_element.2 ⟨m, hc, (hname m h).2⟩)
    · cases h

theorem runs_stepNodes_typed (axis : Axis) (test : NodeTest) :
    Runs k (stepNodes axis test f) fun l is => ∀ i ∈ is,
      (hasNode ⟨Expr.stepType axis test, Expr.stepCardinality axis test⟩).holds l i := by
  apply runs_contextNode.bind
  intro m i _ _
  apply runs_forest_eq.bind
  intro m' g _ hg
  subst hg
  have hmost : 1 ≤ (Expr.stepCardinality axis test).most := by
    unfold Expr.stepCardinality
    split <;> first | exact le_rfl | exact le_top
  have hall : ∀ j ∈ ((axis.nodes (m'.forest.chain i)).filter (test.holds axis)).map (·.id),
      (hasNode ⟨Expr.stepType axis test, Expr.stepCardinality axis test⟩).holds m' j := by
    intro j hj
    obtain ⟨u, hu, rfl⟩ := List.mem_map.1 hj
    obtain ⟨hu, htest⟩ := List.mem_filter.1 hu
    have haxis : axis ≠ .ns := by
      rintro rfl
      cases hc : m'.forest.chain i <;> simp [hc, Axis.nodes] at hu
    have hnode := Axis.nodes_subset axis (fun v => Forest.mem_nodes_of_chain) u hu
    exact ⟨hmost, known_of_mem m'.sound hnode, holds_stepType m'.sound hnode haxis htest⟩
  dsimp only
  split
  · refine (runs_ordering (Q := fun _ is => ∀ j ∈ is,
        j ∈ ((axis.nodes (m'.forest.chain i)).filter (test.holds axis)).map (·.id)) _
      fun _ t o j hj => DocumentOrder.mem_arrange hj).bind fun m₁ is hm₁ his => runs_pure
        fun m₂ hm₂ j hj => ?_
    exact (hasNode _).later (typing.trans hm₁ hm₂) (hall j (his j (List.mem_reverse.1 hj)))
  · exact runs_pure fun _ hm j hj => (hasNode _).later hm (hall j hj)

/-- What an operator without operands gives. -/
theorem typed_leaf (n : Note) (op : LeafOp) {types : Slot → SequenceType}
    {globals : QName → SequenceType} {c : DynamicContext} (hf : FrameTyped types k f)
    (hc : GlobalsTyped globals k c) : Typed k (op.ways c n) f (op.typeWith types globals) := by
  cases op with
  | literal cs =>
    rw [LeafOp.ways_literal]
    exact .ofItems n (yields_ofList (hasAll_literal cs))
  | «variable» r =>
    exact .ofItems n (yields_after ((runs_valueOf_typed hf hc r).bind fun _ _ _ hv =>
      runs_pure fun _ hm => (hv.later hm).source))
  | contextItem =>
    refine .ofItem n ((runs_contextItem_known hf.focus).map fun m x _ hx => ?_)
    exact hasAll_singleton ⟨le_rfl, hx, ItemType.covers_item _ _⟩
  | root =>
    have hdocument : Runs k (documentOf f)
        (hasNode (.one (.node (.document none)))).holds := by
      apply runs_contextNode.bind
      intro m i _ _
      apply runs_forest_eq.bind
      intro m' g _ hg
      subst hg
      refine (runs_require (Q := fun _ r => r ∈ m'.forest.trees ∧ r.content.isDocument) fun _ r _ hr => ?_).bind
        fun m₁ r hm₁ hr => runs_pure fun m₂ hm₂ => ?_
      · obtain ⟨hroot, hdoc⟩ := Option.mem_filter_iff.1 hr
        exact ⟨Forest.root?_mem hroot, hdoc⟩
      · have hnode := Forest.mem_nodes_of_root hr.1
        have hcontent : r.content = .document := by
          cases hc : r.content <;> simp [hc, Content.isDocument] at hr ⊢
        refine (hasNode _).later (typing.trans hm₁ hm₂) ⟨le_rfl, known_of_mem m'.sound hnode, ?_⟩
        exact ItemType.covers_node (m'.sound.node?_eq hnode) (KindTest.holds_document.2 ⟨hcontent, by simp⟩)
    exact .ofItem n (hdocument.bind fun _ i _ hi => runs_pure fun _ hm =>
      hasAll_singleton ((has _).later hm hi))
  | step axis test =>
    refine .ofItems n (yields_after ((runs_stepNodes_typed axis test).bind fun _ is _ his => runs_pure
      fun _ hm => yields_ofList (Fits.later (hasAll_iff.2 fun x hx => ?_) hm)))
    obtain ⟨i, hi, rfl⟩ := List.mem_map.1 hx
    exact his i hi

/-- The value of an expression for a variable, whatever way it is obtained. -/
theorem runs_bound_typed {c : DynamicContext} {e : Expr} {own : Ways} {parts : List Ways}
    (hown : Typed k own f t) (hcaptured : ∀ slots, Typed k own (f.capture slots) t)
    (href : ∀ r, e.reference? = some r → Runs k (f.valueOf c r) fun l v => TypedValue l v t)
    (htail : ∀ r n, e.tail? = some (r, n) → Runs k (f.valueOf c r) fun l v => TypedValue l v t)
    (happend : ∀ r x rest, e.head? = some r → parts = [x, rest] →
      Runs k (f.valueOf c r) (fun l v => TypedValue l v t) ∧
        ∀ l, typing.le k l → Runs l (rest.toList f) fun m xs => HasAll t m xs) :
    Runs k (e.bound c own parts f) fun l v => TypedValue l v t := by
  have hlist {p : Eval (List Item)} (hp : Runs k p fun l xs => HasAll t l xs) :
      Runs k (do return Value.items (← p)) fun l v => TypedValue l v t :=
    hp.bind fun _ _ _ hxs => runs_pure fun _ hm => Fits.later hxs hm
  have hall := hlist hown.toList
  have hdefer (keeps : Bool) (slots : List Slot) :
      Runs k (do return Value.deferred (← Deferred.create keeps (own.items (f.capture slots))) 0)
        fun l v => TypedValue l v t :=
    (typing_defers keeps (hcaptured slots).items).bind fun _ _ _ hd => runs_pure fun _ hm => hd.later hm
  unfold Expr.bound
  cases e.mode with
  | returnEmpty => exact runs_pure fun _ _ => hasAll_nil
  | alreadyValue => exact hall
  | iterateAndMaterialize => exact hall
  | singleItem => exact hown.item.bind fun _ _ _ ho => runs_pure fun _ hm => Fits.later ho hm
  | pushProduction => exact hlist hown.push
  | oneShotClosure slots => exact hdefer false slots
  | memoClosure slots => exact hdefer true slots
  | evaluateVariable =>
    dsimp only
    split
    · next r hr => exact href r hr
    · exact hall
  | materializeVariable =>
    dsimp only
    split
    · next r hr =>
      exact (href r hr).bind fun m v _ hv => hv.toList.bind fun _ _ _ hxs => runs_pure fun _ hm =>
        Fits.later hxs hm
    · exact hall
  | lazyTail =>
    dsimp only
    split
    · next r n hr =>
      exact (htail r n hr).bind fun _ v _ hv => hv.tail n
    · exact hall
  | sharedAppend =>
    dsimp only
    split
    · next r x rest hr =>
      obtain ⟨hv, hrest⟩ := happend r x rest hr rfl
      refine hv.bind fun m v hm hv => hv.toList.bind fun m' xs hm' hxs => ?_
      exact (hrest m' (typing.trans hm hm')).bind fun _ ys hl hys => runs_pure fun _ hl' =>
        HasAll.append (Fits.later hxs (typing.trans hl hl')) (Fits.later hys hl')
    · exact hall

end Regime

namespace Expr
open Regime

/-- Where a row infers a type that the evaluation does not keep, the operands see to it. -/
def TypesKept (types : Slot → SequenceType) : Expr → Prop
  | unary _ op a => op.KeepsType a.itemType
  | binary _ op a b => op.KeepsType a.itemType b.itemType ∧ ∀ slot,
      (op = .for slot ∨ ∃ q, op = .quantified q slot) →
        (types slot).cardinality = .empty → a.cardinality = .empty
  | nary _ op args => op.KeepsType (args.map Expr.info)
  | _ => True

variable {types : Slot → SequenceType} {globals : QName → SequenceType} {c : DynamicContext}

/-- The types throughout an expression are inferred and kept. -/
abbrev IsTyped (types : Slot → SequenceType) (globals : QName → SequenceType) (e : Expr) : Prop :=
  e.All fun x => IsInferred types globals x ∧ TypesKept types x

/-- In frames that are typed, the value is of its type, whatever way it is obtained. -/
def TypedIn (types : Slot → SequenceType) (globals : QName → SequenceType) (c : DynamicContext)
    (e : Expr) : Prop :=
  ∀ (k : typing.Stage) f, FrameTyped types k f → GlobalsTyped globals k c →
    Typed k (e.meaning c).toWays f e.type ∧
      Runs k ((e.meaning c).bound f) fun l v => TypedValue l v e.type

namespace TypedIn
variable {e a b d : Expr} {k l : typing.Stage} {f : Frame}

theorem ways (h : e.TypedIn types globals c) (hf : FrameTyped types k f)
    (hc : GlobalsTyped globals k c) : Typed k (e.meaning c).toWays f e.type := (h k f hf hc).1

theorem underFocus (h : e.TypedIn types globals c) (hf : FrameTyped types k f)
    (hc : GlobalsTyped globals k c) : TypedUnderFocus k (e.meaning c).toWays f e.type :=
  fun l _ n size hl hx => (h l _ ((hf.later hl).withFocus hx n size) (hc.later hl)).1

theorem bind (h : e.TypedIn types globals c) (hf : FrameTyped types k f) (hc : GlobalsTyped globals k c)
    {slot : Slot} {v : Value} (hl : typing.le k l) (hv : TypedValue l v (types slot)) :
    Typed l (e.meaning c).toWays (f.bind slot v) e.type :=
  (h l _ ((hf.later hl).bind hv) (hc.later hl)).1

/-- Every item of a loop is a value for its variable. -/
theorem item {x : Item} {slot : Slot} (hx : a.type.Has k.forest x)
    (ha : a.type.isSubtype ⟨(types slot).item, .zeroOrMore⟩)
    (hempty : (types slot).cardinality = .empty → a.cardinality = .empty) :
    TypedValue k (.items [x]) (types slot) := by
  obtain ⟨_, hknown, hcovers⟩ := widens_of_isSubtype ha k.forest x hx
  refine hasAll_singleton ⟨Cardinality.one_le_most fun h => ?_, hknown, hcovers⟩
  exact Cardinality.ne_empty hx.most (hempty h)

end TypedIn

variable {k : typing.Stage} {f : Frame}

theorem runs_reference_typed {e : Expr} (he : IsInferred types globals e) (hf : FrameTyped types k f)
    (hc : GlobalsTyped globals k c) {r : VariableRef} (hr : e.reference? = some r) :
    Runs k (f.valueOf c r) fun l v => TypedValue l v e.type := by
  cases e with
  | leaf n op =>
    cases op with
    | «variable» r' =>
      cases hr
      have htype : (leaf n (.variable r)).type = (LeafOp.variable r).typeWith types globals := he
      rw [htype]
      exact runs_valueOf_typed hf hc r
    | _ => cases hr
  | _ => cases hr

/-- Without its first items a variable has the type of the expression that drops them. -/
theorem runs_tail_typed {e : Expr} (he : e.IsTyped types globals) (hf : FrameTyped types k f)
    (hc : GlobalsTyped globals k c) {r : VariableRef} {n : ℕ} (hr : e.tail? = some (r, n)) :
    Runs k (f.valueOf c r) fun l v => TypedValue l v e.type := by
  have hdrop {a : Expr} (ha : IsInferred types globals a) (hra : a.reference? = some r)
      (hn : Widens a.type e.type) : Runs k (f.valueOf c r) fun l v => TypedValue l v e.type :=
    (runs_reference_typed ha hf hc hra).imp fun _ _ _ hv => hv.widens hn
  unfold tail? at hr
  split at hr
  · next m min a =>
    obtain ⟨r', hr', heq⟩ := Option.map_eq_some_iff.1 hr
    cases heq
    obtain ⟨hself, ha⟩ := all_unary.1 he
    have htype : (unary m (.slice min none) a).type = ⟨a.itemType, a.cardinality.orEmpty⟩ := hself.1
    refine hdrop ha.self.1 hr' (htype ▸ widens_of_item rfl fun h => ?_)
    exact h.trans_eq (Cardinality.most_orEmpty _).symm
  · next m a =>
    obtain ⟨r', hr', heq⟩ := Option.map_eq_some_iff.1 hr
    cases heq
    obtain ⟨hself, ha⟩ := all_nary.1 he
    have htype : (nary m (.call (.builtin .tail)) [a]).type = ⟨a.itemType, .zeroOrMore⟩ := hself.1
    exact hdrop (ha a List.mem_cons_self).self.1 hr' (htype ▸ widens_of_item rfl fun _ => le_top)
  · cases hr

/-- It suffices to look at the ways of the operator. -/
theorem typedIn_of_own {e : Expr} {own : Ways} {parts : List Ways}
    (hm : e.meaning c = meaningOf c e parts own) (he : e.IsTyped types globals)
    (hown : ∀ (k : typing.Stage) f, FrameTyped types k f → GlobalsTyped globals k c →
      Typed k own f e.type)
    (happend : ∀ (k : typing.Stage) f, FrameTyped types k f → GlobalsTyped globals k c →
      ∀ r x rest, e.head? = some r → parts = [x, rest] →
        Runs k (f.valueOf c r) (fun l v => TypedValue l v e.type) ∧
          ∀ l, typing.le k l → Runs l (rest.toList f) fun m xs => HasAll e.type m xs) :
    e.TypedIn types globals c := by
  intro k f hf hc
  rw [hm]
  exact ⟨hown k f hf hc, runs_bound_typed (hown k f hf hc)
    (fun slots => hown k _ (hf.capture slots) hc) (fun r hr => runs_reference_typed he.self.1 hf hc hr)
    (fun r n hr => runs_tail_typed he hf hc hr) (happend k f hf hc)⟩

private theorem typed_binary (n : Note) (op : BinaryOp) (a b : Expr)
    (hi : IsInferred types globals (binary n op a b)) (hk : TypesKept types (binary n op a b))
    (ia : a.TypedIn types globals c) (ib : b.TypedIn types globals c)
    (hf : FrameTyped types k f) (hc : GlobalsTyped globals k c) :
    Typed k (op.ways n (a.meaning c) (b.meaning c)) f (op.typeOf a.info b.info) := by
  have ha := ia.ways hf hc
  obtain ⟨_, hbinds⟩ := hi
  obtain ⟨hkept, hloop⟩ := hk
  cases op with
  | path => exact .ofItems n (yields_path_typed ha (ib.underFocus hf hc))
  | filter positional =>
    exact .ofItems n (yields_widens (yields_select_typed ha (ib.underFocus hf hc)
      fun _ => ib.ways hf hc) (widens_filter positional a.info b.info))
  | «for» slot =>
    exact typed_for n slot _ _ ha.items (fun _ _ _ hx => hx.most) fun l v hl hx =>
      ib.bind hf hc hl (TypedIn.item hx hbinds (hloop slot (.inl rfl)))
  | quantified q slot =>
    exact typed_quantified n q slot _ _ ha.items fun l v hl hx =>
      ib.bind hf hc hl (TypedIn.item hx hbinds (hloop slot (.inr ⟨q, rfl⟩)))
  | «let» slot =>
    exact typed_let n slot _ _ (ia k f hf hc).2 fun l v hl hv =>
      ib.bind hf hc hl (hv.widens (widens_of_isSubtype hbinds))
  | _ => exact typed_plain n _ _ _ rfl hkept ha (ib.ways hf hc)

private theorem typed_ternary (n : Note) (op : TernaryOp) (a b d : Expr)
    (ia : a.TypedIn types globals c) (ib : b.TypedIn types globals c) (id : d.TypedIn types globals c)
    (hf : FrameTyped types k f) (hc : GlobalsTyped globals k c) :
    Typed k (op.ways n (a, b) (a.meaning c).toWays (b.meaning c).toWays (d.meaning c).toWays) f
      (op.typeOf a.info b.info d.info) := by
  cases op with
  | «if» => exact typed_if n (a, b) (ia.ways hf hc) (ib.ways hf hc) (id.ways hf hc)
  | indexedFilter =>
    have hfound := runs_selectByKey_typed (a, b) (ia.ways hf hc) (ib.underFocus hf hc)
      (id.ways hf hc)
    refine .ofList n (hfound.imp fun _ _ _ hxs => HasAll.widens hxs (widens_of_item rfl fun h => ?_))
    exact h.trans_eq (Cardinality.most_orEmpty _).symm

private theorem typed_nary (n : Note) (op : NaryOp) (args : List Expr) (hkeys : c.FindsNodes)
    (hk : TypesKept types (nary n op args)) (ih : ∀ a ∈ args, a.TypedIn types globals c)
    (hf : FrameTyped types k f) (hc : GlobalsTyped globals k c) :
    Typed k (op.ways c n (operandWays c args)) f (op.typeOf (args.map Expr.info)) := by
  cases op with
  | block =>
    have hblock := typed_block n c (args.map fun a => ((a.meaning c).toWays, a.info))
      (k := k) (f := f) fun p hp => by
        obtain ⟨a, ha, rfl⟩ := List.mem_map.1 hp
        exact (ih a ha).ways hf hc
    rwa [List.map_map, List.map_map] at hblock
  | call r =>
    cases r with
    | unresolved name => exact .ofItems n (yields_fail _)
    | builtin g =>
      refine .ofList n (Call.Site.Typed.call ⟨?_, hf.focus⟩ hkeys g hk)
      refine List.forall₂_map_left_iff.2 (List.forall₂_map_right_iff.2 ?_)
      exact List.forall₂_same.2 fun a ha => (ih a ha).ways hf hc

/-- Types that are inferred and kept hold of every evaluation. -/
theorem typed (hkeys : c.FindsNodes) (e : Expr) (he : e.IsTyped types globals) :
    e.TypedIn types globals c := by
  match e with
  | leaf n op =>
    refine typedIn_of_own (meaning_leaf c n op) he (fun k f hf hc => ?_) ?_
    · have htype : (leaf n op).type = op.typeWith types globals := he.self.1
      exact htype ▸ typed_leaf n op hf hc
    · intro k f _ _ r x rest hhead
      exact nomatch hhead
  | unary n op a =>
    have ih := typed hkeys a (all_unary.1 he).2
    refine typedIn_of_own (meaning_unary c n op a) he (fun k f hf hc => ?_) ?_
    · have htype : (unary n op a).type = op.typeOf a.info := he.self.1
      exact htype ▸ typed_unary n op (ih.ways hf hc) he.self.2
    · intro k f _ _ r x rest hhead
      exact nomatch hhead
  | binary n op a b =>
    obtain ⟨⟨hi, hk⟩, hea, heb⟩ := all_binary.1 he
    have ia := typed hkeys a hea
    have ib := typed hkeys b heb
    refine typedIn_of_own (meaning_binary c n op a b) he (fun k f hf hc => ?_) ?_
    · have htype : (binary n op a b).type = op.typeOf a.info b.info := hi.1
      exact htype ▸ typed_binary n op a b hi hk ia ib hf hc
    · intro k f _ _ r x rest hhead
      exact nomatch hhead
  | ternary n op a b d =>
    obtain ⟨⟨hi, _⟩, hea, heb, hed⟩ := all_ternary.1 he
    have ia := typed hkeys a hea
    have ib := typed hkeys b heb
    have id := typed hkeys d hed
    refine typedIn_of_own (meaning_ternary c n op a b d) he (fun k f hf hc => ?_) ?_
    · have htype : (ternary n op a b d).type = op.typeOf a.info b.info d.info := hi
      exact htype ▸ typed_ternary n op a b d ia ib id hf hc
    · intro k f _ _ r x rest hhead
      exact nomatch hhead
  | nary n op args =>
    obtain ⟨⟨hi, hk⟩, heargs⟩ := all_nary.1 he
    have ih : ∀ a ∈ args, a.TypedIn types globals c := fun a ha => typed hkeys a (heargs a ha)
    have htype : (nary n op args).type = op.typeOf (args.map Expr.info) := hi
    refine typedIn_of_own (meaning_nary c n op args) he
      (fun k f hf hc => htype ▸ typed_nary n op args hkeys hk ih hf hc)
      fun k f hf hc r x rest hhead hparts => ?_
    unfold head? at hhead
    split at hhead
    · next a b heq =>
      cases heq
      cases hparts
      have htype' : (nary n .block [a, b]).type = NaryOp.block.typeOf [a.info, b.info] := htype
      rw [htype']
      refine ⟨(runs_reference_typed (heargs a (by simp)).self.1 hf hc hhead).imp
        fun _ _ _ hv => hv.widens (widens_block (by simp)), fun l hl => ?_⟩
      exact ((ih b (by simp)).ways (hf.later hl) (hc.later hl)).toList.imp
        fun _ _ _ hxs => HasAll.widens hxs (widens_block (by simp))
    · cases hhead

end Expr

namespace Modes
open XPath.Expr

theorem readsInfo_isInferred (types : Slot → SequenceType) (globals : QName → SequenceType) :
    ReadsInfo (IsInferred types globals) where
  mode {e} m h := by cases e <;> exact h
  unary ha h := by
    simp only [IsInferred, ha]
    exact h
  binary ha hb h := by
    simp only [IsInferred, ha, hb]
    exact h
  ternary ha hb hd h := by
    simp only [IsInferred, ha, hb, hd]
    exact h
  nary hargs h := by
    simp only [IsInferred, hargs]
    exact h

theorem readsInfo_typesKept (types : Slot → SequenceType) : ReadsInfo (TypesKept types) where
  mode {e} m h := by cases e <;> exact h
  unary {n op a a'} ha h := by
    change op.KeepsType a'.info.item
    rw [ha]
    exact h
  binary {n op a a' b b'} ha hb h := by
    change op.KeepsType a'.info.item b'.info.item ∧ ∀ slot, _ → _ → a'.info.cardinality = _
    rw [ha, hb]
    exact h
  ternary _ _ _ h := h
  nary hargs h := by
    simp only [TypesKept, hargs]
    exact h

end Modes

namespace Expr
open Regime

/-- Frames that an evaluation does not leave: where the parts of a tree are evaluated in them, so is
whatever they give a focus or a variable to, and what they put off. -/
structure Encloses (tree : Expr) (c : DynamicContext) (I : typing.Stage → Frame → Prop) : Prop where
  later : ∀ {k l f}, I k f → typing.le k l → I l f
  capture : ∀ {k f} slots, I k f → I k (f.capture slots)
  focus : ∀ {k f n op a b}, .binary n op a b ∈ tree.preorder → (op = .path ∨ ∃ p, op = .filter p) →
    I k f → Yields ⟨fun l x => ∀ n size, I l (f.withFocus x n size),
      fun hl h n size => later (h n size) hl⟩ 0 ⊤ k ((a.meaning c).items f)
  key : ∀ {k f n a b d}, .ternary n .indexedFilter a b d ∈ tree.preorder →
    I k f → Yields ⟨fun l x => ∀ n size, I l (f.withFocus x n size),
      fun hl h n size => later (h n size) hl⟩ 0 ⊤ k ((a.meaning c).items f)
  item : ∀ {k f n op slot a b}, .binary n op a b ∈ tree.preorder →
    (op = .for slot ∨ ∃ q, op = .quantified q slot) → I k f →
    Yields ⟨fun l x => I l (f.bind slot (.items [x])), fun hl h => later h hl⟩ 0 ⊤ k
      ((a.meaning c).items f)
  value : ∀ {k f n slot a b}, .binary n (.let slot) a b ∈ tree.preorder → I k f →
    Runs k ((a.meaning c).bound f) fun l v => I l (f.bind slot v)

variable {types : Slot → SequenceType} {globals : QName → SequenceType} {c : DynamicContext}

theorem encloses_frameTyped {e : Expr} {k₀ : typing.Stage} (hkeys : c.FindsNodes)
    (he : e.IsTyped types globals) (hc : GlobalsTyped globals k₀ c) :
    e.Encloses c fun k f => typing.le k₀ k ∧ FrameTyped types k f := by
  have hpart {x : Expr} (hx : x ∈ e.preorder) : x.IsTyped types globals := All.all e he x hx
  have hfocus {a : Expr} (ha : a.IsTyped types globals) {k : typing.Stage} {f : Frame}
      (hk : typing.le k₀ k) (hf : FrameTyped types k f) : Yields
        ⟨fun l x => ∀ n size, typing.le k₀ l ∧ FrameTyped types l (f.withFocus x n size),
          fun hl h n size => ⟨typing.trans (h n size).1 hl, (h n size).2.later hl⟩⟩
        0 ⊤ k ((a.meaning c).items f) :=
    ((typed hkeys a ha).ways hf (hc.later hk)).items.imp (fun l x hl hx n size =>
      ⟨typing.trans hk hl, (hf.later hl).withFocus hx.known n size⟩) le_rfl le_rfl
  refine ⟨fun h hl => ⟨typing.trans h.1 hl, h.2.later hl⟩, fun slots h => ⟨h.1, h.2.capture slots⟩,
    fun hx _ h => hfocus (all_binary.1 (hpart hx)).2.1 h.1 h.2,
    fun hx h => hfocus (all_ternary.1 (hpart hx)).2.1 h.1 h.2,
    fun {k f n op slot a b} hx hop h => ?_, fun {k f n slot a b} hx h => ?_⟩
  · obtain ⟨⟨⟨_, hbinds⟩, _, hloop⟩, ha, _⟩ := all_binary.1 (hpart hx)
    have hbinds' : a.type.isSubtype ⟨(types slot).item, .zeroOrMore⟩ := by
      obtain rfl | ⟨q, rfl⟩ := hop <;> exact hbinds
    exact ((typed hkeys a ha).ways h.2 (hc.later h.1)).items.imp (fun l x hl hx =>
      ⟨typing.trans h.1 hl, (h.2.later hl).bind (TypedIn.item hx hbinds' (hloop slot hop))⟩) le_rfl le_rfl
  · obtain ⟨⟨⟨_, hbinds⟩, _⟩, ha, _⟩ := all_binary.1 (hpart hx)
    exact ((typed hkeys a ha k f h.2 (hc.later h.1)).2).imp fun l v hl hv =>
      ⟨typing.trans h.1 hl, (h.2.later hl).bind (hv.widens (widens_of_isSubtype hbinds))⟩

end Expr

namespace Typing
open XPath.Expr Regime

/-- If the rows that infer too narrow a type do not stand alone, what checking infers is kept. A run starts
in a world and a frame that are typed, the frames that it makes are typed, and whatever part of the tree is
evaluated in a frame that is typed gives items of its type, as does every variable. Hence a treat as a
wider type cannot fail for the type of an item. -/
theorem check_types {context : StaticContext} {unit unit' : CompileUnit} {source e : Expr}
    (hcheck : (check source).run context unit = (.ok e, unit')) (hbound : WellBound [source])
    (hslots : ∀ s ∈ source.boundSlots, s < unit.bindings.size)
    (hkept : e.All (TypesKept unit'.typeOf)) {c : DynamicContext} (hkeys : c.FindsNodes)
    {forest : Forest} (hforest : forest.IsSound)
    (hglobals : ∀ n xs, c.valueOf? n.toName = some xs →
      (context.globalType n).holds forest xs ∧ ∀ x ∈ xs, x.IsKnown forest)
    {start : Frame} (hstart : ∀ s v, start.slots s = some v → s ∉ source.boundSlots ∧
      ∃ xs, v = .items xs ∧ (unit.typeOf s).holds forest xs ∧ ∀ x ∈ xs, x.IsKnown forest)
    (hfocus : ∀ x, start.focus = some x → x.item.IsKnown forest) :
    let k₀ : TypedStage := ⟨forest, hforest, []⟩
    World.Keeps k₀ { forest } ∧ FrameTyped unit'.typeOf k₀ start ∧
    ((Modes.assign unit' e).Encloses c fun k f => typing.le k₀ k ∧ FrameTyped unit'.typeOf k f) ∧
    ∀ (k : TypedStage) f, typing.le k₀ k → FrameTyped unit'.typeOf k f →
      (∀ x ∈ (Modes.assign unit' e).preorder, Typed k (x.meaning c).toWays f x.type ∧
        ∀ t, x.type.isSubtype t → Typed k (x.meaning c).toWays f t) ∧
      ∀ s v, f.slots s = some v → Runs k v.toList fun l xs => HasAll (unit'.typeOf s) l xs := by
  intro k₀
  have hinferred := check_inferred source hcheck hbound hslots fun _ _ => rfl
  have htyped : (Modes.assign unit' e).IsTyped unit'.typeOf context.globalType := fun x hx =>
    ⟨Modes.assign_all (Modes.readsInfo_isInferred _ _) unit' e hinferred x hx,
      Modes.assign_all (Modes.readsInfo_typesKept _) unit' e hkept x hx⟩
  have hc : GlobalsTyped context.globalType k₀ c := fun n xs hxs =>
    hasAll_of_holds (hglobals n xs hxs).1 (hglobals n xs hxs).2
  refine ⟨World.keeps_start hforest, ⟨fun s v hv => ?_, hfocus⟩, encloses_frameTyped hkeys htyped hc,
    fun k f hk hf => ⟨fun x hx => ?_, fun s v hv => (hf.slots s v hv).toList⟩⟩
  · obtain ⟨hs, xs, rfl, hxs, hknown⟩ := hstart s v hv
    rw [(check_refines source hcheck).typeOf s hs]
    exact hasAll_of_holds (k := k₀) hxs hknown
  · have hways := (typed hkeys x (All.all _ htyped x hx)).ways hf (hc.later hk)
    exact ⟨hways, fun t ht => hways.widens (widens_of_isSubtype ht)⟩

/-- `for $x as xs:decimal in (1, 2, 3) return $x * 2` -/
def doubled : Expr :=
  .mkBinary (.for 0) threeNumbers (.mkBinary (.arithmetic .multiply)
    (.mkLeaf (.variable (.range 0)) 0) (.constantAt (.integer 2) 0) 0) 0

/-- One variable, of which it is declared that it is a decimal number. -/
def decimalVariable : CompileUnit :=
  (({} : CompileUnit).allocate (.unprefixed "x") .range (some (.one (.atomic .decimal)))).2

/-- The loop is inferred to give decimal numbers, and it does: they are integers. -/
theorem check_doubled_types : ∃ e unit', (check doubled).run {} decimalVariable = (.ok e, unit') ∧
    e.itemType = .atomic .decimal ∧
    (∀ x ∈ (Modes.assign unit' e).preorder,
      Typed ⟨{}, ⟨.nil, nofun, nofun, nofun⟩, []⟩ (x.meaning {}).toWays {} x.type) ∧
    ((((Modes.assign unit' e).meaning {}).toList {}).perform { forest := {} }).1 =
      .ok [.atomic (.ofInt 2), .atomic (.ofInt 4), .atomic (.ofInt 6)] := by
  have hbound : WellBound [doubled] := by
    refine wellBound_of_closed (fun s => ?_) (by decide)
    simp [doubled, threeNumbers, mkBinary, mkLeaf, constantAt, needs, BinaryOp.slot?]
  have hkept : ∀ e unit', (check doubled).run {} decimalVariable = (.ok e, unit') →
      e.All (TypesKept unit'.typeOf) := by
    intro e unit' h
    cases h
    refine all_binary.2 ⟨⟨by rintro _ ⟨⟩, fun slot hslot hempty => ?_⟩, all_leaf.2 trivial,
      all_binary.2 ⟨⟨fun o ho => ?_, by rintro _ (h | ⟨_, h⟩) <;> cases h⟩, all_leaf.2 trivial, all_leaf.2 trivial⟩⟩
    · obtain heq | ⟨q, heq⟩ := hslot
      · cases heq
        cases hempty
      · cases heq
    · cases ho
      rintro ⟨⟩
  have hkeys : ({} : DynamicContext).FindsNodes := by rintro _ ⟨⟩
  have hsound : Forest.IsSound {} := ⟨.nil, by rintro _ ⟨⟩, by rintro _ ⟨⟩, by rintro _ ⟨⟩⟩
  obtain ⟨_, hstart, _, htypes⟩ := @check_types {} decimalVariable _ doubled _ rfl hbound (by decide)
    (hkept _ _ rfl) {} hkeys {} hsound (by rintro _ _ ⟨⟩) {} (by rintro _ _ ⟨⟩) (by rintro _ ⟨⟩)
  obtain ⟨hparts, _⟩ := htypes _ _ (typing.refl _) hstart
  exact ⟨_, _, rfl, rfl, fun x hx => (hparts x hx).1, rfl⟩

/-- `- (5 cast as xs:byte)` -/
def minusByte : Expr :=
  .mkUnary .negate (.mkUnary (.cast .byte false) (.constantAt (.integer 5) 0) 0) 0

/-- `1e0 idiv 1e0` -/
def quotientOfDoubles : Expr :=
  .mkBinary (.arithmetic .integerDivide) (.constantAt (.double (.ofInt .double 1)) 0)
    (.constantAt (.double (.ofInt .double 1)) 0) 0

/-- `sum((), element e {})` -/
def sumOfElement : Expr :=
  .callAt .sum [.emptyAt 0, .mkUnary (.element (.unprefixed "e")) (.emptyAt 0) 0] 0

/-- A well bound tree of which one item is given that is not of the type that is inferred. -/
def Mistypes (source : Expr) (unit : CompileUnit) : Prop :=
  WellBound [source] ∧ ∃ e unit' x w, (check source).run {} unit = (.ok e, unit') ∧
    (((Modes.assign unit' e).meaning {}).toList {}).perform { forest := {} } = (.ok [x], w) ∧
    e.itemType.holds w.forest x = false

/-- Each of the three rows infers too narrow a type. -/
theorem check_mistypes :
    Mistypes minusByte {} ∧ Mistypes quotientOfDoubles {} ∧ Mistypes sumOfElement {} := by
  refine ⟨?_, ?_, ?_⟩
  · exact ⟨wellBound_of_closed (fun _ => rfl) (by decide), _, _, _, _, rfl, rfl, rfl⟩
  · exact ⟨wellBound_of_closed (fun _ => rfl) (by decide), _, _, _, _, rfl, rfl, rfl⟩
  · exact ⟨wellBound_of_closed (fun _ => rfl) (by decide), _, _, _, _, rfl, rfl, rfl⟩

end Typing
end XPath
