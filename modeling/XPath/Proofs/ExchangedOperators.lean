import XPath.Proofs.Exchange

/-!
No operator but the constructors notices an exchange: what it makes of operands that stay inside stays
inside.
-/
namespace XPath

/-- Keys are searched for below the given node, and nothing else is read of the forest. -/
structure KeyResolver.SearchesBelow (r : KeyResolver) : Prop where
  below : ∀ (f : Forest) name value root is, r f name value root = .ok is →
    ∀ i ∈ is, ∃ t, f.node? root = some t ∧ i ∈ t.ids
  same : ∀ (f g : Forest) name value root, f.node? root = g.node? root →
    r f name value root = r g name value root

namespace Ways

/-- The node that an index is kept for. -/
def indexNode (a : Ways) (f : Frame) : Option NodeId :=
  if a.note.info.dependencies.focus then (f.focus.map (·.item)).bind (·.node?) else none

/-- A base that depends on the focus has an index for a context item that is a node. -/
def IsIndexed (a : Ways) (f : Frame) : Prop := a.note.info.dependencies.focus → (a.indexNode f).isSome

end Ways

namespace Setting
open Exchange Likeness
variable {S : Setting} {f : Frame} {a b d : Ways}

/-! Values of variables, and frames. -/

/-- Items that are inside, or an evaluation that the exchange does not change. -/
def HasValue (S : Setting) : Value → Prop
  | .items xs => ∀ x ∈ xs, S.Has x
  | .deferred d _ => S.Knows d ∧ S.Yields d.items S.Has

structure HasFrame (S : Setting) (f : Frame) : Prop where
  slots : ∀ s v, f.slots s = some v → S.HasValue v
  focus : ∀ x, f.focus = some x → S.Has x.item

structure HasContext (S : Setting) (c : DynamicContext) : Prop where
  globals : ∀ n xs, c.valueOf? n = some xs → ∀ x ∈ xs, S.Has x
  keys : ∀ r, c.keys = some r → r.SearchesBelow

theorem hasFrame_empty : S.HasFrame {} := ⟨by rintro _ _ ⟨⟩, by rintro _ ⟨⟩⟩

theorem hasContext_empty : S.HasContext {} := ⟨by rintro _ _ ⟨⟩, by rintro _ ⟨⟩⟩

namespace HasFrame

theorem bind (h : S.HasFrame f) {slot : Slot} {v : Value} (hv : S.HasValue v) : S.HasFrame (f.bind slot v) := by
  refine ⟨fun s u hu => ?_, h.focus⟩
  unfold Frame.bind at hu
  dsimp only at hu
  split at hu
  · cases hu
    exact hv
  · exact h.slots s u hu

theorem withFocus (h : S.HasFrame f) {x : Item} (hx : S.Has x) (n : ℕ) (size : Option ℕ) :
    S.HasFrame (f.withFocus x n size) := by
  refine ⟨h.slots, fun o ho => ?_⟩
  cases ho
  exact hx

theorem capture (h : S.HasFrame f) (slots : List Slot) : S.HasFrame (f.capture slots) := by
  refine ⟨fun s v hv => ?_, by rintro _ ⟨⟩⟩
  unfold Frame.capture at hv
  dsimp only at hv
  split at hv
  · exact h.slots s v hv
  · cases hv

theorem contextItem (h : S.HasFrame f) : S.Runs f.contextItem S.Has := by
  refine runs_require fun x hx => ?_
  obtain ⟨o, ho, rfl⟩ := Option.map_eq_some_iff.1 hx
  exact h.focus o ho

theorem contextNode (h : S.HasFrame f) : S.Runs f.contextNode S.inside :=
  h.contextItem.bind fun _ hx => runs_require hx

theorem valueOf (h : S.HasFrame f) {c : DynamicContext} (hc : S.HasContext c) (r : VariableRef) :
    S.Runs (f.valueOf c r) S.HasValue := by
  cases r with
  | range slot => exact runs_require fun v hv => h.slots slot v hv
  | global n =>
    refine runs_require fun v hv => ?_
    obtain ⟨xs, hxs, rfl⟩ := Option.map_eq_some_iff.1 hv
    exact hc.globals _ xs hxs

end HasFrame

theorem yields_deferred {p : Deferred} (hp : S.Knows p) (h : S.Yields p.items S.Has) : S.Yields p.source S.Has := by
  unfold Deferred.source
  split
  · exact yields_list (S.lists hp h)
  · exact S.starts hp h

section Value
variable {v : Value}

theorem HasValue.source (h : S.HasValue v) : S.Yields v.source S.Has := by
  cases v with
  | items xs => exact yields_ofList h
  | deferred p skip => exact (yields_deferred h.1 h.2).drop skip

theorem HasValue.toList (h : S.HasValue v) : S.Runs v.toList (∀ x ∈ ·, S.Has x) := by
  cases v with
  | items xs => exact runs_pure h
  | deferred p skip => exact (S.lists h.1 h.2).gives fun _ hxs x hx => hxs x (List.mem_of_mem_drop hx)

theorem HasValue.tail (h : S.HasValue v) (n : ℕ) : S.Runs (v.tail n) S.HasValue := by
  refine runs_require fun t ht => ?_
  obtain ⟨xs, rfl, rfl⟩ | ⟨p, skip, rfl, -, rfl⟩ := Value.exists_of_tail? ht
  · exact fun x hx => h x (List.mem_of_mem_drop hx)
  · exact h

end Value

/-! Ways of evaluating. -/

/-- Whatever way it is evaluated, the exchange changes nothing. -/
structure Carries (S : Setting) (a : Ways) (f : Frame) : Prop where
  item : S.Runs (a.item f) (∀ x, · = some x → S.Has x)
  items : S.Yields (a.items f) S.Has
  push : S.Runs (a.push f) (∀ x ∈ ·, S.Has x)

/-- The same with every item inside as the focus. -/
def CarriesUnderFocus (S : Setting) (a : Ways) (f : Frame) : Prop :=
  ∀ x n size, S.Has x → S.Carries a (f.withFocus x n size)

namespace Carries

theorem ofItem (n : Note) {x : Frame → Eval (Option Item)} (h : S.Runs (x f) (∀ y, · = some y → S.Has y)) :
    S.Carries (.ofItem n x) f := by
  have hitems : S.Yields ((Ways.ofItem n x).items f) S.Has :=
    yields_after ((h.orAt n.location).gives fun o ho => yields_ofList fun y hy => ho y (Option.mem_toList.1 hy))
  exact ⟨h.orAt n.location, hitems, hitems.toList⟩

theorem ofItemsAndPush (n : Note) {x : Frame → Items} {p : Frame → Eval (List Item)} (h : S.Yields (x f) S.Has)
    (hp : S.Runs (p f) (∀ y ∈ ·, S.Has y)) : S.Carries (.ofItemsAndPush n x p) f :=
  ⟨(h.mapError _).only? _, h.mapError _, hp.orAt n.location⟩

theorem ofItems (n : Note) {x : Frame → Items} (h : S.Yields (x f) S.Has) : S.Carries (.ofItems n x) f :=
  ofItemsAndPush n h h.toList

/-- For an operator that computes a list and then gives its items. -/
theorem ofList (n : Note) {p : Frame → Eval (List Item)} (h : S.Runs (p f) (∀ y ∈ ·, S.Has y)) :
    S.Carries (.ofItems n fun f => .after (return .ofList (← p f))) f :=
  ofItems n (yields_list h)

theorem toList (h : S.Carries a f) : S.Runs (a.toList f) (∀ x ∈ ·, S.Has x) := h.items.toList

theorem truth (h : S.Carries a f) : S.Runs (a.truth f) fun _ => True := (h.items.truth _).orAt _

theorem holdsAt (h : S.Carries a f) (n : ℕ) : S.Runs (a.holdsAt f n) fun _ => True := h.items.truth _

theorem values (h : S.Carries a f) : S.Yields (a.values f) fun _ => True := h.items.mapM fun _ => runs_value

theorem value? (h : S.Carries a f) : S.Runs (a.value? f) fun _ => True :=
  h.item.bind fun _ ho => (Runs.optionMapM fun x hx => runs_value (ho x hx)).imp fun _ _ => trivial

theorem text (h : S.Carries a f) : S.Runs (a.text f) fun _ => True := h.value?.gives fun _ _ => trivial

theorem nodes (h : S.Carries a f) : S.Runs (a.nodes f) (∀ i ∈ ·, S.inside i) := by
  have hnodes : S.Yields ((a.items f).mapM fun x => Eval.require .typeMismatch x.node?) S.inside :=
    h.items.mapM fun _ hx => runs_require hx
  exact hnodes.toList.bind fun is his => runs_sort his

end Carries

/-! Results. -/

theorem has_some (v : Atomic) : ∀ x, some (Item.atomic v) = some x → S.Has x := by
  rintro _ ⟨⟩
  exact has_atomic v

theorem has_nodes {is : List NodeId} (h : ∀ i ∈ is, S.inside i) : ∀ x ∈ is.map Item.node, S.Has x := by
  intro x hx
  obtain ⟨i, hi, rfl⟩ := List.mem_map.1 hx
  exact has_node.2 (h i hi)

/-! Operators without operands. -/

theorem runs_stepNodes (hf : S.HasFrame f) (axis : Axis) (test : NodeTest) :
    S.Runs (stepNodes axis test f) (∀ i ∈ ·, S.inside i) := by
  refine hf.contextNode.bind fun i hi => runs_forest (by simp only [S.chain hi]) ?_
  have hnodes : ∀ j ∈ ((axis.nodes (S.before.chain i)).filter (test.holds axis)).map (·.id), S.inside j := by
    intro j hj
    obtain ⟨u, hu, rfl⟩ := List.mem_map.1 hj
    exact inside_of_axis hi (List.mem_filter.1 hu).1
  dsimp only
  split
  · exact (S.arranges hnodes).gives fun is his j hj => his j (List.mem_reverse.1 hj)
  · exact runs_pure hnodes

theorem runs_documentOf (hf : S.HasFrame f) : S.Runs (documentOf f) S.inside := by
  refine hf.contextNode.bind fun i hi => runs_forest (by simp only [root?_eq hi]) ?_
  refine (runs_require (Q := fun r => S.inside r.id) fun r hr => ?_).gives fun _ => id
  exact inside_of_root? hi (Option.mem_filter_iff.1 hr).1 (Tree.mem_preorder_self r)

theorem carries_leaf (n : Note) (op : LeafOp) {c : DynamicContext} (hf : S.HasFrame f) (hc : S.HasContext c) :
    S.Carries (op.ways c n) f := by
  cases op with
  | literal cs =>
    rw [LeafOp.ways_literal]
    refine .ofItems n (yields_ofList fun x hx => ?_)
    obtain ⟨k, _, rfl⟩ := List.mem_map.1 hx
    exact has_atomic _
  | «variable» r => exact .ofItems n (yields_after ((hf.valueOf hc r).gives fun _ hv => hv.source))
  | contextItem => exact .ofItem n (hf.contextItem.map fun x hx y hy => Option.some.inj hy ▸ hx)
  | root =>
    refine .ofItem n ((runs_documentOf hf).gives fun i hi x hx => ?_)
    cases hx
    exact has_node.2 hi
  | step axis test =>
    exact .ofItems n (yields_after ((runs_stepNodes hf axis test).gives fun _ his => yields_ofList (has_nodes his)))

/-! Operators with one operand. -/

theorem runs_sortItems {xs : List Item} (h : ∀ x ∈ xs, S.Has x) :
    S.Runs (sortItems xs) (∀ x ∈ ·, S.Has x) := by
  have hnodes : ∀ i ∈ xs.filterMap (·.node?), S.inside i := by
    intro i hi
    obtain ⟨x, hx, hxi⟩ := List.mem_filterMap.1 hi
    exact h x hx i hxi
  unfold sortItems
  dsimp only
  split
  · exact runs_pure h
  · split
    · exact (runs_sort hnodes).map fun _ => has_nodes
    · exact runs_fail _

theorem runs_lift (g : Atomic → Except ErrorCode Atomic) (ha : S.Carries a f) :
    S.Runs (UnaryOp.lift g a f) (∀ x, · = some x → S.Has x) :=
  ha.value?.bind fun _ _ => Runs.optionMapM fun v _ => (runs_ofExcept_any (g v)).gives fun _ _ => has_atomic _

theorem carries_unary (n : Note) (op : UnaryOp) (ha : S.Carries a f) (hop : (op.effects {}).creates = false) :
    S.Carries (op.ways n a) f := by
  cases op with
  | negate => exact .ofItem n (runs_lift _ ha)
  | plus => exact .ofItem n (runs_lift _ ha)
  | sort =>
    exact .ofItems n (yields_after (ha.toList.bind fun _ hxs => (runs_sortItems hxs).gives fun _ => yields_ofList))
  | reverse =>
    exact .ofItems n (yields_after (ha.toList.gives fun xs hxs => yields_ofList fun x hx =>
      hxs x (List.mem_reverse.1 hx)))
  | first => exact .ofItem n ha.items.head?
  | last =>
    refine .ofItem n (ha.items.forIn _ (by rintro _ ⟨⟩) fun _ x _ hx => runs_pure fun y hy => ?_)
    exact Option.some.inj hy ▸ hx
  | slice min max =>
    refine .ofItems n ?_
    unfold Ways.slice
    cases max with
    | none => exact ha.items.drop _
    | some max =>
      dsimp only
      split
      · exact yields_empty
      · exact (ha.items.drop _).take _
  | cast target allowsEmpty =>
    refine .ofItem n (ha.value?.bind fun o _ => ?_)
    cases o with
    | none =>
      dsimp only
      split
      · exact runs_pure (by rintro _ ⟨⟩)
      · exact runs_fail _
    | some v => exact (runs_ofExcept_any _).gives fun _ _ => has_some _
  | castable target allowsEmpty =>
    refine .ofItem n (ha.values.toList.bind fun vs _ => ?_)
    split <;> exact runs_pure (has_some _)
  | treat type =>
    refine .ofItems n (yields_after (ha.toList.bind fun xs hxs => runs_forest (by simp only [holds_eq type hxs]) ?_))
    split
    · exact runs_pure (yields_ofList hxs)
    · exact runs_fail _
  | instanceOf type =>
    exact .ofItem n (ha.toList.bind fun xs hxs => runs_forest (by simp only [holds_eq type hxs])
      (runs_pure (has_some _)))
  | element name => cases hop
  | text => cases hop

/-! Operators with two operands. -/

theorem runs_lift₂ (g : Atomic → Atomic → Except ErrorCode Atomic) (ha : S.Carries a f) (hb : S.Carries b f) :
    S.Runs (BinaryOp.lift g a b f) (∀ x, · = some x → S.Has x) := by
  refine ha.value?.bind fun x _ => hb.value?.bind fun y _ => ?_
  split
  · exact (runs_ofExcept_any _).gives fun _ _ => has_some _
  · exact runs_pure (by rintro _ ⟨⟩)

theorem runs_compareAny (op : ComparisonOp) (ha : S.Carries a f) (hb : S.Carries b f) :
    S.Runs (BinaryOp.compareAny op a b f) fun _ => True := by
  refine ha.values.toList.bind fun left _ => ?_
  split
  · exact runs_pure trivial
  · refine hb.values.forIn_any false fun _ y _ => (runs_ofExcept_any _).bind fun found _ => ?_
    split <;> exact runs_pure trivial

theorem runs_compareNodes (op : NodeComparisonOp) (ha : S.Carries a f) (hb : S.Carries b f) :
    S.Runs (BinaryOp.compareNodes op a b f) (∀ x, · = some x → S.Has x) := by
  refine ha.item.bind fun x hx => hb.item.bind fun y hy => ?_
  split
  · next i j =>
    have hi := has_node.1 (hx _ rfl)
    have hj := has_node.1 (hy _ rfl)
    have horder := S.compares hi hj
    cases op with
    | is => exact runs_pure (has_some _)
    | precedes => exact horder.gives fun _ _ => has_some _
    | follows => exact horder.gives fun _ _ => has_some _
  · exact runs_fail _
  · exact runs_pure (by rintro _ ⟨⟩)

theorem runs_rangeEnd (ha : S.Carries a f) : S.Runs (BinaryOp.rangeEnd a f) fun _ => True := by
  refine ha.value?.bind fun o _ => ?_
  split
  · exact runs_pure trivial
  · exact (runs_ofExcept_any _).map fun _ _ => trivial
  · exact runs_pure trivial
  · exact runs_fail _

theorem yields_count (i : ℤ) (n : ℕ) : S.Yields (BinaryOp.count i n) S.Has := by
  induction n generalizing i with
  | zero => exact yields_empty
  | succ n ih => exact fun _ _ hw => .ok (has_atomic _) hw (ih (i + 1))

theorem yields_integers (ha : S.Carries a f) (hb : S.Carries b f) : S.Yields (BinaryOp.integers a b f) S.Has := by
  refine yields_after ((runs_rangeEnd ha).bind fun _ _ => (runs_rangeEnd hb).bind fun _ _ => ?_)
  split
  · exact runs_pure (yields_count _ _)
  · exact runs_pure yields_empty

theorem runs_combine (op : SetOp) (ha : S.Carries a f) (hb : S.Carries b f) :
    S.Runs (BinaryOp.combine op a b f) (∀ i ∈ ·, S.inside i) := by
  refine ha.nodes.bind fun is his => hb.nodes.bind fun js hjs => ?_
  cases op with
  | union =>
    have hall : ∀ i ∈ is ++ js, S.inside i := fun i hi => (List.mem_append.1 hi).elim (his i) (hjs i)
    exact runs_sort hall
  | intersect => exact runs_pure fun i hi => his i (List.mem_filter.1 hi).1
  | except => exact runs_pure fun i hi => his i (List.mem_filter.1 hi).1

theorem runs_itemAt (ha : S.Carries a f) (hb : S.Carries b f) :
    S.Runs (a.itemAt b f) (∀ x, · = some x → S.Has x) := by
  refine hb.value?.bind fun o _ => ?_
  split
  · exact ha.items.get? _
  · exact runs_pure (by rintro _ ⟨⟩)

theorem runs_counted (ha : S.Carries a f) : S.Runs (a.counted b f) fun r => S.Yields r.1 S.Has := by
  unfold Ways.counted
  split
  · exact ha.toList.gives fun _ => yields_ofList
  · exact runs_pure ha.items

theorem yields_path (ha : S.Carries a f) (hb : S.CarriesUnderFocus b f) : S.Yields (a.path b f) S.Has := by
  refine yields_after ((runs_counted ha).bind fun r hr => runs_pure (hr.bind fun n x hx => ?_))
  split
  · exact (hb x n r.2 hx).items
  · exact yields_fail _

theorem yields_select (ha : S.Carries a f) (hfocus : S.CarriesUnderFocus b f) (honce : S.Carries b f) :
    S.Yields (a.select b f) S.Has := by
  unfold Ways.select
  split
  · exact yields_after ((runs_counted ha).bind fun r hr => runs_pure (hr.filterM fun n x hx =>
      (hfocus x n r.2 hx).holdsAt n))
  · refine yields_after (honce.toList.bind fun v _ => ?_)
    split
    · split
      · refine runs_pure ?_
        split
        · exact (ha.items.drop _).take 1
        · exact yields_empty
      · refine runs_pure ?_
        split
        · exact ha.items
        · exact yields_empty
    · refine (runs_ofExcept_any _).bind fun c _ => runs_pure ?_
      split
      · exact ha.items
      · exact yields_empty

theorem runs_quantify (q : Quantifier) (slot : Slot) (ha : S.Carries a f)
    (hb : ∀ x, S.Has x → S.Carries b (f.bind slot (.items [x]))) :
    S.Runs (BinaryOp.quantify q slot a b f) fun _ => True := by
  refine ha.items.forIn_any _ fun _ x hx => (hb x hx).truth.bind fun _ _ => ?_
  split <;> exact runs_pure trivial

theorem carries_binary (n : Note) (op : BinaryOp) {x y : Meaning} (hf : S.HasFrame f)
    (hx : S.Carries x.toWays f) (hbound : S.Runs (x.bound f) S.HasValue)
    (hy : ∀ g, S.HasFrame g → S.Carries y.toWays g) : S.Carries (op.ways n x y) f := by
  have hfocus : S.CarriesUnderFocus y.toWays f := fun _ m size hz => hy _ (hf.withFocus hz m size)
  have hbind (slot : Slot) (z : Item) (hz : S.Has z) : S.Carries y.toWays (f.bind slot (.items [z])) :=
    hy _ (hf.bind (List.forall_mem_singleton.2 hz))
  have htruth {p : Eval Bool} (hp : S.Runs p fun _ => True) :
      S.Runs (do return UnaryOp.truth (← p)) (∀ z, · = some z → S.Has z) :=
    hp.gives fun _ _ => has_some _
  cases op with
  | arithmetic op => exact .ofItem n (runs_lift₂ _ hx (hy f hf))
  | valueComparison op => exact .ofItem n (runs_lift₂ _ hx (hy f hf))
  | generalComparison op => exact .ofItem n (htruth (runs_compareAny op hx (hy f hf)))
  | nodeComparison op => exact .ofItem n (runs_compareNodes op hx (hy f hf))
  | and =>
    refine .ofItem n (hx.truth.bind fun c _ => ?_)
    split
    · exact htruth (hy f hf).truth
    · exact runs_pure (has_some _)
  | or =>
    refine .ofItem n (hx.truth.bind fun c _ => ?_)
    split
    · exact runs_pure (has_some _)
    · exact htruth (hy f hf).truth
  | range => exact .ofItems n (yields_integers hx (hy f hf))
  | set op => exact .ofItems n (yields_after ((runs_combine op hx (hy f hf)).gives fun _ his =>
      yields_ofList (has_nodes his)))
  | path => exact .ofItems n (yields_path hx hfocus)
  | filter positional => exact .ofItems n (yields_select hx hfocus (hy f hf))
  | itemAt => exact .ofItem n (runs_itemAt hx (hy f hf))
  | «for» slot => exact .ofItems n (hx.items.bind fun _ z hz => (hbind slot z hz).items)
  | «let» slot => exact .ofItems n (yields_after (hbound.gives fun v hv => (hy _ (hf.bind hv)).items))
  | quantified q slot => exact .ofItem n (htruth (runs_quantify q slot hx (hbind slot)))

/-! Operators with three operands. -/

theorem runs_makeIndex (ha : S.Carries a f) (hb : S.CarriesUnderFocus b f) :
    S.Runs (a.makeIndex b f) S.HasIndex := by
  refine ha.toList.bind fun xs hxs => ?_
  refine (Runs.listMapM (S := fun e => S.Has e.1) fun y hy => ?_).gives fun es hes e he =>
    hes e (List.mem_toArray.1 he)
  have hitem := hxs y.1 (List.fst_mem_of_mem_zipIdx hy)
  exact (hb y.1 (y.2 + 1) xs.length hitem).values.toList.gives fun _ _ => hitem

theorem runs_selectByKey (exprs : Expr × Expr) (ha : S.Carries a f) (hb : S.CarriesUnderFocus b f)
    (hd : S.Carries d f)
    (hfind : a.IsIndexed f → S.Runs (a.findIndex ⟨exprs.1, exprs.2, a.indexNode f⟩ b f) S.HasIndex) :
    S.Runs (a.selectByKey exprs b d f) (∀ x ∈ ·, S.Has x) := by
  refine hd.values.toList.bind fun vs _ => ?_
  split
  · exact runs_pure (List.forall_mem_nil _)
  · have hfound {p : Eval Index} (hp : S.Runs p S.HasIndex) :
        S.Runs (do Eval.ofExcept ((← p).lookup vs)) (∀ x ∈ ·, S.Has x) := by
      refine hp.bind fun x hx => runs_ofExcept fun ys hys y hy => ?_
      obtain ⟨e, he, rfl⟩ := List.mem_map.1 ((Index.lookup_subset hys).1 hy)
      exact hx e (Array.mem_toList_iff.1 he)
    unfold Ways.IsIndexed Ways.indexNode at hfind
    dsimp only
    split
    · next hfocus =>
      rw [if_pos hfocus] at hfind
      refine (runs_require (Q := fun x => f.focus.map (·.item) = some x) fun _ => id).bind fun x hx => ?_
      rw [hx] at hfind
      split
      · next i hi =>
        rw [Option.bind_some, hi] at hfind
        exact hfound (hfind fun _ => rfl)
      · exact hfound (runs_makeIndex ha hb)
    · next hfocus =>
      rw [if_neg hfocus] at hfind
      exact hfound (hfind fun h => absurd h hfocus)

theorem carries_ternary (n : Note) (op : TernaryOp) (exprs : Expr × Expr) (hf : S.HasFrame f)
    (ha : S.Carries a f) (hb : ∀ g, S.HasFrame g → S.Carries b g) (hd : S.Carries d f)
    (hfind : op = .indexedFilter → a.IsIndexed f →
      S.Runs (a.findIndex ⟨exprs.1, exprs.2, a.indexNode f⟩ b f) S.HasIndex) :
    S.Carries (op.ways n exprs a b d) f := by
  cases op with
  | «if» =>
    refine .ofItems n (yields_after (ha.truth.bind fun c _ => ?_))
    split
    · exact runs_pure (hb f hf).items
    · exact runs_pure hd.items
  | indexedFilter =>
    exact .ofList n (runs_selectByKey exprs ha (fun _ m size hx => hb _ (hf.withFocus hx m size)) hd (hfind rfl))

end Setting
end XPath
