import XPath.Proofs.Ranks
import XPath.Proofs.Typed

/-!
What the operators give in the regime of types: items of the type that is inferred for them. Unary minus
of a derived integer, and the integer quotient of floats or doubles, are the two that are not.
-/
namespace XPath

namespace DocumentOrder

theorem mem_arrange_iff {g : Forest} {is : List NodeId} {o : DocumentOrder} {i : NodeId} :
    i ∈ (arrange g is o).1 ↔ i ∈ is := by
  unfold arrange
  split
  · rfl
  · conv_rhs => rw [← rankAll_nodes g is o]
    simp only [List.mem_map, List.mem_mergeSort]

theorem mem_arrange {g : Forest} {is : List NodeId} {o : DocumentOrder} {i : NodeId}
    (h : i ∈ (arrange g is o).1) : i ∈ is :=
  mem_arrange_iff.1 h

theorem mem_sort_iff {g : Forest} {is : List NodeId} {o : DocumentOrder} {i : NodeId} :
    i ∈ (sort g is o).1 ↔ i ∈ is :=
  mem_dropRepeats.trans mem_arrange_iff

theorem mem_sort {g : Forest} {is : List NodeId} {o : DocumentOrder} {i : NodeId}
    (h : i ∈ (sort g is o).1) : i ∈ is :=
  mem_sort_iff.1 h

end DocumentOrder

/-- Unary minus is not applied to a type of integers that is derived from `xs:integer`. -/
def UnaryOp.KeepsType (op : UnaryOp) (t : ItemType) : Prop :=
  op = .negate → t.numericType.derivesFrom .integer → t.numericType = .integer

/-- An integer quotient is not one of floats or doubles. -/
def BinaryOp.KeepsType (op : BinaryOp) (s t : ItemType) : Prop :=
  ∀ o, op = .arithmetic o → ItemType.DividesExactly o s t

namespace Regime

variable {k l : typing.Stage} {f : Frame} {s t : SequenceType} {a b d : Ways}

theorem has_atomic {v : Atomic} {g : Forest} (hm : 1 ≤ t.cardinality.most) (hp : v.IsProper)
    (hc : t.item.Covers g (.atomic v)) : t.Has g (.atomic v) :=
  ⟨hm, hp, hc⟩

theorem hasAll_truth (v : Bool) (hm : 1 ≤ t.cardinality.most) (ht : t.item = Typing.booleanType) :
    HasAll t k (UnaryOp.truth v).toList :=
  hasAll_singleton (has_atomic hm trivial (ht ▸ ItemType.covers_atomic rfl))

/-! Operators with one operand. -/

/-- An operation on at most one value. -/
theorem runs_lift_typed {g : Atomic → Except ErrorCode Atomic} (ha : Typed k a f s)
    (hm : 1 ≤ s.cardinality.most → 1 ≤ t.cardinality.most)
    (hg : ∀ v w, HasValue s v → g v = .ok w → w.IsProper ∧ ∀ h, t.item.Covers h (.atomic w)) :
    Runs k (UnaryOp.lift g a f) fun l o => HasAll t l o.toList := by
  apply ha.value?.bind
  intro m o _ ho
  refine Runs.optionMapM (S := (has t).holds) (fun v hv => ?_) (fun _ _ _ => hasAll_nil)
    fun _ _ _ _ _ hx => hasAll_singleton hx
  have hv' := ho v hv
  refine (runs_ofExcept (Q := fun _ w => g v = .ok w) fun _ w _ hw => hw).bind
    fun _ w _ hw => runs_pure fun n _ => ?_
  obtain ⟨hp, hc⟩ := hg v w hv' hw
  exact has_atomic (hm hv'.most) hp (hc n.forest)

/-- Nodes of the list, in any order. -/
theorem hasAll_nodes {xs : List Item} {is : List NodeId} (h : HasAll t k xs)
    (his : ∀ i ∈ is, i ∈ xs.filterMap (·.node?)) : HasAll t k (is.map .node) := by
  refine hasAll_iff.2 fun x hx => ?_
  obtain ⟨i, hi, rfl⟩ := List.mem_map.1 hx
  obtain ⟨y, hy, hyi⟩ := List.mem_filterMap.1 (his i hi)
  cases y with
  | atomic v => cases hyi
  | node j =>
    cases hyi
    exact h.each _ hy

theorem runs_sortItems_typed {xs : List Item} (h : HasAll t k xs) :
    Runs k (sortItems xs) fun l ys => HasAll t l ys := by
  unfold sortItems
  dsimp only
  split
  · exact runs_pure fun _ hm => h.later hm
  · split
    · refine (runs_ordering (Q := fun _ is => ∀ i ∈ is, i ∈ xs.filterMap (·.node?)) _
        fun _ g o i hi => DocumentOrder.mem_sort hi).map fun m is hm his => ?_
      exact hasAll_nodes (Fits.later h hm) his
    · exact runs_fail _

theorem runs_last_typed (ha : Typed k a f t) (hm : 1 ≤ t.cardinality.most → 1 ≤ s.cardinality.most)
    (hitem : t.item = s.item) : Runs k ((a.items f).forIn none fun _ x => return .yield (some x))
      fun l o => HasAll s l o.toList := by
  have hlast := ha.items.forIn (b := (none : Option Item)) (Q := fun l o => HasAll t l o.toList)
    (f := fun _ x => return .yield (some x))
    (fun _ => ⟨fun l o => HasAll t l o.toList, fun hl h => Fits.later h hl⟩)
    hasAll_nil (fun _ _ _ _ x _ _ hx _ _ => ?_) fun _ _ _ ho => ho
  · exact hlast.imp fun _ _ _ ho => ho.widens (widens_of_item hitem hm)
  · exact runs_pure fun _ hm => hasAll_singleton ((has t).later hm hx)

/-- Trees change in a way that keeps what there is, and one more node is of the type. -/
theorem runs_modifyForest {g : Forest → NodeId × Forest}
    (hg : ∀ h : Forest, h.IsSound → k.forest.Becomes h → (g h).2.IsSound ∧ h.Becomes (g h).2 ∧
      t.Has (g h).2 (.node (g h).1)) :
    Runs k (Eval.modifyForest g) fun l i => t.Has l.forest (.node i) := by
  intro (l : TypedStage) w hl (hw : w.Keeps l)
  have hrun : (Eval.modifyForest g).perform w =
      (.ok (g w.forest).1, { w with forest := (g w.forest).2 }) := rfl
  rw [hrun, hw.forest]
  obtain ⟨hsound, hbecomes, hnode⟩ := hg l.forest l.sound hl.1
  have hle : typing.le l ⟨(g l.forest).2, hsound, l.cells⟩ := ⟨hbecomes, List.prefix_refl _⟩
  refine ⟨⟨(g l.forest).2, hsound, l.cells⟩, hle, ⟨rfl, hw.size, fun i u xs hi hxs x hx => ?_,
    fun key x hx e he => ?_⟩, fun i hi => ?_⟩
  · exact SequenceType.Has.later (hw.kept i u xs hi hxs x hx) hle
  · exact SequenceType.Has.later (hw.indexes key x hx e he) hle
  · cases hi
    exact hnode

theorem runs_makeElement_typed (name : QName) {xs : List Item} (hxs : HasAll t k xs) :
    Runs k (makeElement name xs)
      fun l i => SequenceType.Has (.one (.node (.element { name := some name }))) l.forest (.node i) := by
  apply runs_modifyForest
  intro h hh hbefore
  have hgrows : Construction.Grows h name.nodeName
      ((Construction.start h name.nodeName).appendContent [] xs) :=
    (Construction.Grows.start hh _).appendContent hh [] xs fun i hi =>
      (hxs.each _ hi).known.later hbefore
  have hroot : ((Construction.start h name.nodeName).appendContent [] xs).element ∈
      ((Construction.start h name.nodeName).appendContent [] xs).whole.trees := List.mem_cons_self
  have hnode := Forest.mem_nodes_of_root hroot
  refine ⟨hgrows.sound, hgrows.becomes, le_rfl, hgrows.sound.lt_next hnode, ?_⟩
  refine ItemType.covers_node (hgrows.sound.node?_eq hnode) (KindTest.holds_element.2 ?_)
  exact ⟨_, hgrows.content, by simp [NameAndType.holds, Content.name?]⟩

theorem runs_addText_typed (text : String) :
    Runs k (Eval.modifyForest (·.addText text))
      fun l i => SequenceType.Has ⟨.node .text, .zeroOrOne⟩ l.forest (.node i) := by
  apply runs_modifyForest
  intro h hh _
  have hleaf : Tree.HasLeafTexts (.node 0 (.text text) []) := by
    intro u hu _
    obtain rfl := List.mem_singleton.1 hu
    rfl
  obtain ⟨hsound, hbecomes, hnode⟩ := Forest.Becomes.add hh hleaf rfl
  obtain ⟨hmem, hid⟩ := Forest.node?_eq_some hnode
  exact ⟨hsound, hbecomes, le_rfl, hid ▸ hsound.lt_next hmem, ItemType.covers_node hnode rfl⟩

/-- What an operator with one operand gives. -/
theorem typed_unary (n : Note) (op : UnaryOp) {i : StaticInfo} (ha : Typed k a f i.type)
    (hop : op.KeepsType i.item) : Typed k (op.ways n a) f (op.typeOf i) := by
  have hpick : 1 ≤ i.cardinality.most → 1 ≤ i.cardinality.pickOne.most := fun h => by
    rw [Cardinality.most_pickOne]
    exact le_min h le_rfl
  have hdrop : Widens i.type ⟨i.item, i.cardinality.orEmpty⟩ :=
    widens_of_item rfl fun h => h.trans_eq (Cardinality.most_orEmpty _).symm
  cases op with
  | negate =>
    refine .ofItem n (runs_lift_typed ha hpick fun v w hv hw => ?_)
    obtain ⟨hp, hc⟩ := ItemType.covers_negate hv.proper hv.derives (hop rfl) hw
    exact ⟨hp, fun _ => ItemType.covers_atomic hc⟩
  | plus =>
    refine .ofItem n (runs_lift_typed ha hpick fun v w hv hw => ?_)
    obtain ⟨hp, hc⟩ := ItemType.covers_plus hv.proper hv.derives hw
    exact ⟨hp, fun _ => ItemType.covers_atomic hc⟩
  | sort =>
    exact .ofItems n (yields_after (ha.toList.bind fun _ _ _ hxs => (runs_sortItems_typed hxs).bind
      fun _ _ _ hys => runs_pure fun _ hm => yields_ofList (hys.later hm)))
  | reverse =>
    exact .ofItems n (yields_after (ha.toList.bind fun _ xs _ hxs => runs_pure fun _ hm =>
      yields_ofList ((HasAll.subset hxs (List.reverse_subset.2 (List.Subset.refl xs))).later hm)))
  | first =>
    exact .ofItem n (ha.items.head?.imp fun _ _ _ ho =>
      HasAll.widens (hasAll_iff.2 ho.each) (widens_of_item rfl hpick))
  | last => exact .ofItem n (runs_last_typed ha hpick rfl)
  | slice min max =>
    have hrest := yields_widens (ha.items.drop (min - 1)) hdrop
    refine .ofItems n ?_
    unfold Ways.slice
    cases max with
    | none => exact hrest
    | some max =>
      dsimp only
      split
      · exact yields_empty
      · exact (hrest.take _).imp (fun _ _ _ hx => hx) le_rfl le_top
  | cast target allowsEmpty =>
    refine .ofItem n (ha.value?.bind fun m o _ ho => ?_)
    cases o with
    | none =>
      dsimp only
      split
      · exact runs_pure fun _ _ => hasAll_nil
      · exact runs_fail _
    | some v =>
      refine (runs_ofExcept (Q := fun _ w => v.cast target = .ok w) fun _ w _ hw => hw).bind
        fun _ w _ hw => runs_pure fun _ _ => hasAll_singleton ?_
      obtain ⟨hp, rfl⟩ := Atomic.cast_type (ho v rfl).proper hw
      refine has_atomic (Cardinality.one_le_most ?_) hp
        (ItemType.covers_atomic w.type.derivesFrom_refl)
      simp only [UnaryOp.typeOf, SequenceType.atomic]
      split <;> decide
  | castable target allowsEmpty =>
    refine .ofItem n (ha.values.toList.bind fun m vs _ _ => ?_)
    split <;> exact runs_pure fun _ _ => hasAll_truth _ le_rfl rfl
  | treat type =>
    refine .ofItems n (yields_after (ha.toList.bind fun m xs _ hxs => runs_forest_eq.bind
      fun l g hl hg => ?_))
    subst hg
    split
    · next hholds =>
      refine runs_pure fun l' hl' => yields_ofList (Fits.later (hasAll_of_holds hholds fun x hx => ?_) hl')
      exact (hxs.each x hx).known.later hl.1
    · exact runs_fail _
  | instanceOf type =>
    exact .ofItem n (ha.toList.bind fun _ _ _ _ => runs_forest.bind fun _ _ _ _ =>
      runs_pure fun _ _ => hasAll_truth _ le_rfl rfl)
  | element name =>
    exact .ofPush n (ha.toList.bind fun _ xs _ hxs => (runs_makeElement_typed name hxs).bind
      fun _ _ _ hi => runs_pure fun _ hm => hasAll_singleton ((has _).later hm hi))
  | text =>
    refine .ofPush n (ha.values.toList.bind fun _ vs _ _ => ?_)
    dsimp only
    split
    · exact runs_pure fun _ _ => hasAll_nil
    · exact (runs_addText_typed _).bind fun _ _ _ hi => runs_pure fun _ hm =>
        hasAll_singleton ((has _).later hm hi)

/-! Operators with two operands. -/

theorem runs_lift₂_typed {i j : StaticInfo} {g : Atomic → Atomic → Except ErrorCode Atomic}
    (ha : Typed k a f i.type) (hb : Typed k b f j.type)
    (hg : ∀ v w u, HasValue i.type v → HasValue j.type w → g v w = .ok u →
      ∀ h, t.Has h (.atomic u)) :
    Runs k (BinaryOp.lift g a b f) fun l o => HasAll t l o.toList := by
  apply ha.value?.bind
  intro m x hm hx
  apply (hb.value?.later hm).bind
  intro m' y _ hy
  split
  · next v w =>
    refine (runs_ofExcept (Q := fun _ u => g v w = .ok u) fun _ u _ hu => hu).bind
      fun _ u _ hu => runs_pure fun l _ => hasAll_singleton ?_
    exact hg v w u (hx v rfl) (hy w rfl) hu l.forest
  · exact runs_pure fun _ _ => hasAll_nil

theorem yields_count_typed (i : Int) (n : ℕ) :
    Yields (has (.atomic .integer .zeroOrMore)) 0 ⊤ k (BinaryOp.count i n) := by
  induction n generalizing i k with
  | zero => exact yields_empty
  | succ n ih =>
    intro l w hl hw
    have hx : (has (.atomic .integer .zeroOrMore)).holds l (.atomic (.ofInt i)) :=
      has_atomic le_top rfl (ItemType.covers_atomic rfl)
    exact .ok (typing.refl l) hw hx (Nat.zero_le _) le_top
      fun m w' hm hw' => ih (i + 1) m w' (typing.refl m) hw'

/-- Nodes of a type. -/
def hasNode (t : SequenceType) : typing.Known NodeId :=
  ⟨fun k i => t.Has k.forest (.node i), fun hl h => (has t).later hl h⟩

theorem runs_nodes_typed (ha : Typed k a f t) :
    Runs k (a.nodes f) fun l is => ∀ i ∈ is, (hasNode t).holds l i := by
  have hnodes : Yields (hasNode t) 0 ⊤ k
      ((a.items f).mapM fun x => Eval.require .typeMismatch x.node?) := by
    refine ha.items.mapM fun l x _ hx => runs_require fun m i hm hi => ?_
    cases x with
    | atomic v => cases hi
    | node j =>
      cases hi
      exact (has t).later hm hx
  refine hnodes.toList.bind fun m is hm his => ?_
  intro l w hl hw
  refine ⟨l, typing.refl l, typing.reordered _ hw, fun js hjs i hi => ?_⟩
  cases hjs
  exact (hasNode t).later hl (his.each i (DocumentOrder.mem_sort hi))

theorem runs_combine_typed (op : SetOp) (ha : Typed k a f s) (hb : Typed k b f t) :
    Runs k (BinaryOp.combine op a b f)
      fun l is => ∀ i ∈ is, (hasNode s).holds l i ∨ (hasNode t).holds l i := by
  apply (runs_nodes_typed ha).bind
  intro m is hm his
  apply ((runs_nodes_typed hb).later hm).bind
  intro m' js hm' hjs
  have his' {l : typing.Stage} (hl : typing.le m' l) : ∀ i ∈ is, (hasNode s).holds l i :=
    fun i hi => (hasNode s).later (typing.trans hm' hl) (his i hi)
  cases op with
  | union =>
    intro l w hl hw
    refine ⟨l, typing.refl l, typing.reordered _ hw, fun us hus i hi => ?_⟩
    cases hus
    exact (List.mem_append.1 (DocumentOrder.mem_sort hi)).imp (his' hl i)
      fun hj => (hasNode t).later hl (hjs i hj)
  | intersect => exact runs_pure fun _ hl i hi => .inl (his' hl i (List.mem_filter.1 hi).1)
  | except => exact runs_pure fun _ hl i hi => .inl (his' hl i (List.mem_filter.1 hi).1)

theorem hasAll_combine {i j : StaticInfo} {is : List NodeId}
    (his : ∀ x ∈ is, (hasNode i.type).holds k x ∨ (hasNode j.type).holds k x) :
    HasAll ⟨.nodeCommon i.item j.item, .zeroOrMore⟩ k (is.map .node) := by
  refine hasAll_iff.2 fun x hx => ?_
  obtain ⟨y, hy, rfl⟩ := List.mem_map.1 hx
  have hknown : (Item.node y).IsKnown k.forest := (his y hy).elim (·.known) (·.known)
  exact ⟨le_top, hknown, ItemType.covers_nodeCommon hknown ((his y hy).imp (·.covers) (·.covers))⟩

theorem runs_itemAt_typed (ha : Typed k a f s) (hb : Typed k b f t) :
    Runs k (a.itemAt b f) fun l o => HasAll s l o.toList := by
  apply hb.value?.bind
  intro m o hm _
  split
  · exact (ha.items.later hm).get? _
  · exact runs_pure fun _ _ => hasAll_nil

/-- What an operator gives that evaluates both operands in its own frame. -/
theorem typed_plain (n : Note) (op : BinaryOp) (x y : Meaning) {i j : StaticInfo} (hplain : op.isPlain)
    (hop : op.KeepsType i.item j.item) (ha : Typed k x.toWays f i.type)
    (hb : Typed k y.toWays f j.type) : Typed k (op.ways n x y) f (op.typeOf i j) := by
  have htrue {m : typing.Stage} {v : Eval Bool} (hv : Runs m v fun _ _ => True) :
      Runs m (do return UnaryOp.truth (← v))
        fun l o => HasAll (.one Typing.booleanType) l o.toList :=
    hv.bind fun _ b _ _ => runs_pure fun _ _ => hasAll_truth b le_rfl rfl
  cases op with
  | arithmetic op =>
    refine .ofItem n (runs_lift₂_typed ha hb fun v w u hv hw hu h => ?_)
    obtain ⟨hp, hc⟩ := ItemType.covers_arithmetic (f := h) hv.proper hw.proper hv.derives hw.derives
      (hop op rfl) hu
    have hi : i.cardinality ≠ .empty := Cardinality.ne_empty hv.most
    have hj : j.cardinality ≠ .empty := Cardinality.ne_empty hw.most
    refine has_atomic ?_ hp hc
    simp only [BinaryOp.typeOf, hi, hj, or_self, if_false]
    exact most_bothCardinality i j
  | valueComparison op =>
    refine .ofItem n (runs_lift₂_typed ha hb fun v w u hv hw hu h => ?_)
    obtain ⟨c, _, rfl⟩ : ∃ c, v.compareValues op w = .ok c ∧ Atomic.boolean c = u := by
      cases hc : v.compareValues op w with
      | error e =>
        rw [hc] at hu
        cases hu
      | ok c =>
        rw [hc] at hu
        cases hu
        exact ⟨c, rfl, rfl⟩
    exact has_atomic (most_bothCardinality i j) trivial (ItemType.covers_atomic rfl)
  | generalComparison op => exact .ofItem n (htrue (runs_compareAny op ha.sound hb.sound))
  | nodeComparison op =>
    have hone {m : typing.Stage} (v : Bool) :
        HasAll ⟨Typing.booleanType, .zeroOrOne⟩ m (UnaryOp.truth v).toList :=
      hasAll_truth v le_rfl rfl
    refine .ofItem n (ha.item.bind fun m _ hm _ => (hb.item.later hm).bind fun m' _ _ _ => ?_)
    split
    · cases op with
      | is => exact runs_pure fun _ _ => hone _
      | precedes => exact (runs_ordering_any _).bind fun _ _ _ _ => runs_pure fun _ _ => hone _
      | follows => exact (runs_ordering_any _).bind fun _ _ _ _ => runs_pure fun _ _ => hone _
    · exact runs_fail _
    · exact runs_pure fun _ _ => hasAll_nil
  | and =>
    refine .ofItem n (ha.sound.truth.bind fun m v hm _ => ?_)
    split
    · exact htrue (hb.sound.truth.later hm)
    · exact runs_pure fun _ _ => hasAll_truth _ le_rfl rfl
  | or =>
    refine .ofItem n (ha.sound.truth.bind fun m v hm _ => ?_)
    split
    · exact runs_pure fun _ _ => hasAll_truth _ le_rfl rfl
    · exact htrue (hb.sound.truth.later hm)
  | range =>
    refine .ofItems n (yields_after ((runs_rangeEnd ha.sound).bind fun m _ hm _ =>
      ((runs_rangeEnd hb.sound).later hm).bind fun _ _ _ _ => ?_))
    split
    · exact runs_pure fun _ _ => yields_count_typed _ _
    · exact runs_pure fun _ _ => yields_empty
  | set op =>
    exact .ofItems n (yields_after ((runs_combine_typed op ha hb).bind fun _ _ _ his => runs_pure
      fun _ hm => yields_ofList (Fits.later (hasAll_combine his) hm)))
  | itemAt =>
    have hmost : i.cardinality.pickOne.orEmpty.most = min i.cardinality.most 1 := by
      rw [Cardinality.most_orEmpty, Cardinality.most_pickOne]
    exact .ofItem n ((runs_itemAt_typed ha hb).imp fun _ _ _ ho =>
      HasAll.widens ho (widens_of_item rfl fun h => (le_min h le_rfl).trans_eq hmost.symm))
  | path => cases hplain
  | filter => cases hplain
  | «for» => cases hplain
  | «let» => cases hplain
  | quantified => cases hplain

/-- Typed with every item as the focus that there can be. -/
def TypedUnderFocus (k : typing.Stage) (b : Ways) (f : Frame) (t : SequenceType) : Prop :=
  ∀ l x n size, typing.le k l → known.holds l x → Typed l b (f.withFocus x n size) t

theorem TypedUnderFocus.later (h : TypedUnderFocus k b f t) (hl : typing.le k l) :
    TypedUnderFocus l b f t :=
  fun m x n size hm hx => h m x n size (typing.trans hl hm) hx

theorem runs_counted_typed (ha : Typed k a f t) :
    Runs k (a.counted b f) fun l r => Yields (has t) 0 ⊤ l r.1 := by
  unfold Ways.counted
  split
  · exact ha.toList.bind fun _ _ _ hxs => runs_pure fun _ hm => yields_ofList (hxs.later hm)
  · exact runs_pure fun _ hm => ha.items.later hm

theorem yields_path_typed {i j : StaticInfo} (ha : Typed k a f i.type)
    (hb : TypedUnderFocus k b f j.type) :
    Yields (has ⟨j.item, i.cardinality.product j.cardinality⟩) 0 ⊤ k (a.path b f) := by
  refine yields_after ((runs_counted_typed ha).bind fun m r hm hr => runs_pure fun m' hm' => ?_)
  refine yields_flatMap (hr.later hm') fun l n x hl hx => ?_
  split
  · have hb' := hb l x n r.2 (typing.trans hm (typing.trans hm' hl)) hx.known
    refine yields_widens hb'.items (widens_of_item rfl fun hj => ?_)
    exact (one_le_mul hx.most hj).trans (Cardinality.most_product _ _)
  · exact yields_fail _

theorem yields_select_typed {t u : SequenceType} (ha : Typed k a f t)
    (hb : TypedUnderFocus k b f u) (hb' : b.note.info.dependencies.focus = false → Typed k b f u) :
    Yields (has t) 0 ⊤ k (a.select b f) := by
  unfold Ways.select
  split
  · refine yields_after ((runs_counted_typed ha).bind fun m r hm hr => runs_pure fun m' hm' => ?_)
    refine (hr.later hm').filterM fun l n x hl hx => ?_
    exact (hb l x n r.2 (typing.trans hm (typing.trans hm' hl)) hx.known).sound.holdsAt n
  · next hfocus =>
    have hbase {m : typing.Stage} (hm : typing.le k m) : Yields (has t) 0 ⊤ m (a.items f) :=
      ha.items.later hm
    refine yields_after ((hb' (Bool.eq_false_iff.2 hfocus)).toList.bind fun m v hm _ => ?_)
    split
    · split
      · apply runs_pure
        intro m' hm'
        split
        · refine (((hbase (typing.trans hm hm')).drop _).take 1).imp (fun _ _ _ hx => hx) le_rfl le_top
        · exact yields_empty
      · apply runs_pure
        intro m' hm'
        split
        · exact hbase (typing.trans hm hm')
        · exact yields_empty
    · refine (runs_ofExcept_any _).bind fun m₁ c hm₁ _ => runs_pure fun m₂ hm₂ => ?_
      split
      · exact hbase (typing.trans hm (typing.trans hm₁ hm₂))
      · exact yields_empty

theorem widens_filter (positional : Bool) (i j : StaticInfo) :
    Widens i.type ((BinaryOp.filter positional).typeOf i j) := by
  refine widens_of_item rfl fun h => Cardinality.one_le_most ?_
  have hi : i.cardinality ≠ .empty := Cardinality.ne_empty h
  simp only [BinaryOp.typeOf, if_neg hi]
  split
  · decide
  · exact Cardinality.ne_empty (h.trans_eq (Cardinality.most_orEmpty _).symm)

theorem typed_for (n : Note) (slot : Slot) (x y : Meaning) {i j : StaticInfo} {P : typing.Known Item}
    (ha : Yields P 0 ⊤ k (x.items f)) (hm : ∀ l v, typing.le k l → P.holds l v → 1 ≤ i.cardinality.most)
    (hb : ∀ l v, typing.le k l → P.holds l v → Typed l y.toWays (f.bind slot (.items [v])) j.type) :
    Typed k ((BinaryOp.for slot).ways n x y) f ((BinaryOp.for slot).typeOf i j) := by
  refine .ofItems n (yields_flatMap ha fun l _ v hl hv => ?_)
  refine yields_widens (hb l v hl hv).items (widens_of_item rfl fun hj => ?_)
  exact (one_le_mul (hm l v hl hv) hj).trans (Cardinality.most_product _ _)

theorem typed_let (n : Note) (slot : Slot) (x y : Meaning) {i j : StaticInfo}
    {V : typing.Stage → Value → Prop} (hbound : Runs k (x.bound f) V)
    (hb : ∀ l v, typing.le k l → V l v → Typed l y.toWays (f.bind slot v) j.type) :
    Typed k ((BinaryOp.let slot).ways n x y) f ((BinaryOp.let slot).typeOf i j) :=
  .ofItems n (yields_after (hbound.bind fun l v hl hv => runs_pure fun _ hm =>
    (hb l v hl hv).items.later hm))

theorem typed_quantified (n : Note) (q : Quantifier) (slot : Slot) (x y : Meaning) {i j : StaticInfo}
    {P : typing.Known Item} (ha : Yields P 0 ⊤ k (x.items f))
    (hb : ∀ l v, typing.le k l → P.holds l v → Typed l y.toWays (f.bind slot (.items [v])) j.type) :
    Typed k ((BinaryOp.quantified q slot).ways n x y) f ((BinaryOp.quantified q slot).typeOf i j) := by
  have hq : Runs k (BinaryOp.quantify q slot x.toWays y.toWays f) fun _ _ => True := by
    apply ha.forIn_any _
    intro l _ v hl hv
    apply (hb l v hl hv).sound.truth.bind
    intro _ _ _ _
    split <;> exact runs_pure fun _ _ => trivial
  exact .ofItem n (hq.bind fun _ c _ _ => runs_pure fun _ _ => hasAll_truth c le_rfl rfl)

/-! Operators with three and with any number of operands. -/

theorem typed_if (n : Note) (exprs : Expr × Expr) {i j m : StaticInfo} (ha : Typed k a f i.type)
    (hb : Typed k b f j.type) (hd : Typed k d f m.type) :
    Typed k (TernaryOp.if.ways n exprs a b d) f (TernaryOp.if.typeOf i j m) := by
  have hm := Cardinality.most_join j.cardinality m.cardinality
  refine .ofItems n (yields_after (ha.sound.truth.bind fun l c hl _ => ?_))
  split
  · exact runs_pure fun _ hl' => yields_widens (hb.items.later (typing.trans hl hl'))
      (widens_commonType (by simp) fun h => h.trans hm.1)
  · exact runs_pure fun _ hl' => yields_widens (hd.items.later (typing.trans hl hl'))
      (widens_commonType (by simp) fun h => h.trans hm.2)

/-- The items of an index are of a type. -/
def indexed (t : SequenceType) : typing.Known Index :=
  ⟨fun k x => ∀ e ∈ x.entries, t.Has k.forest e.1, fun hl h e he => (has t).later hl (h e he)⟩

theorem runs_makeIndex_typed {u : SequenceType} (ha : Typed k a f t) (hb : TypedUnderFocus k b f u) :
    Runs k (a.makeIndex b f) (indexed t).holds := by
  apply ha.toList.bind
  intro m xs hm hxs
  have hentry : ∀ y ∈ xs.zipIdx, Runs m
      (do return (y.1, ← (b.values (f.withFocus y.1 (y.2 + 1) xs.length)).toList))
      (⟨fun l e => t.Has l.forest e.1, fun hl h => (has t).later hl h⟩ :
        typing.Known (Item × List Atomic)).holds := by
    intro y hy
    have hy' := hxs.each y.1 (List.fst_mem_of_mem_zipIdx hy)
    exact (hb m y.1 (y.2 + 1) xs.length hm hy'.known).values.toList.bind fun _ _ hl _ =>
      runs_pure fun _ hl' => (has t).later (typing.trans hl hl') hy'
  apply (Runs.listMapM hentry).bind
  intro m' es _ hes
  exact runs_pure fun _ hm' => (indexed t).later hm' fun e he => hes.2 e (List.mem_toArray.1 he)

theorem runs_findIndex_typed {u : SequenceType} (key : IndexKey) (ha : Typed k a f key.base.type)
    (hb : TypedUnderFocus k b f u) :
    Runs k (a.findIndex key b f) (indexed key.base.type).holds := by
  intro l w hl hw
  rw [perform_findIndex]
  cases hlook : w.indexes.lookup key with
  | some x =>
    refine ⟨l, typing.refl l, hw, fun y hy => ?_⟩
    cases hy
    exact World.Keeps.indexes hw key x hlook
  | none =>
    refine (((runs_makeIndex_typed ha hb).later hl).bind fun m x hm hx => ?_) l w (typing.refl l) hw
    intro m' w' hm' (hw' : w'.Keeps m')
    have hx' := (indexed key.base.type).later hm' hx
    refine ⟨m', typing.refl m', ⟨hw'.forest, hw'.size, hw'.kept, fun key' x' hx'' => ?_⟩, fun y hy => ?_⟩
    · change List.lookup key' ((key, x) :: w'.indexes) = some x' at hx''
      rw [List.lookup_cons] at hx''
      split at hx''
      · next heq =>
        cases hx''
        rw [eq_of_beq heq]
        exact hx'
      · exact hw'.indexes key' x' hx''
    · cases hy
      exact hx'

/-- What is found through an index is among the items of its base. -/
theorem runs_selectByKey_typed (exprs : Expr × Expr) {u v : SequenceType}
    (ha : Typed k a f exprs.1.type) (hb : TypedUnderFocus k b f u) (hd : Typed k d f v) :
    Runs k (a.selectByKey exprs b d f) fun l xs => HasAll exprs.1.type l xs := by
  apply hd.values.toList.bind
  intro m vs hm _
  split
  · exact runs_pure fun _ _ => hasAll_nil
  · have hfound {l : typing.Stage} {p : Eval Index} (hp : Runs l p (indexed exprs.1.type).holds) :
        Runs l (do Eval.ofExcept ((← p).lookup vs)) fun l xs => HasAll exprs.1.type l xs := by
      refine hp.bind fun l x _ hx => runs_ofExcept fun m ys hm hys => hasAll_iff.2 fun y hy => ?_
      obtain ⟨e, he, rfl⟩ := List.mem_map.1 ((Index.lookup_subset hys).1 hy)
      exact (has exprs.1.type).later hm (hx e (Array.mem_toList_iff.1 he))
    dsimp only
    split
    · apply (runs_require_any _ _).bind
      intro l x hl _
      have hl' := typing.trans hm hl
      split
      · exact hfound (runs_findIndex_typed ⟨exprs.1, exprs.2, _⟩ (ha.later hl') (hb.later hl'))
      · exact hfound (runs_makeIndex_typed (ha.later hl') (hb.later hl'))
    · exact hfound (runs_findIndex_typed ⟨exprs.1, exprs.2, _⟩ (ha.later hm) (hb.later hm))

/-- Lists of items of a type. -/
def hasAll (t : SequenceType) : typing.Known (List Item) :=
  ⟨fun k xs => HasAll t k xs, fun hl h => Fits.later h hl⟩

theorem widens_block {is : List StaticInfo} {i : StaticInfo} (hi : i ∈ is) :
    Widens i.type (NaryOp.block.typeOf is) := by
  refine widens_commonType hi fun hone => ?_
  have hmost := (Cardinality.foldl_concat is .empty).2
  refine hone.trans (le_trans ?_ hmost)
  rw [Cardinality.most_empty, zero_add]
  exact List.le_sum_of_mem (List.mem_map_of_mem hi)

theorem typed_block (n : Note) (c : DynamicContext) (as : List (Ways × StaticInfo))
    (h : ∀ a ∈ as, Typed k a.1 f a.2.type) :
    Typed k (NaryOp.block.ways c n (as.map (·.1))) f (NaryOp.block.typeOf (as.map (·.2))) := by
  have hwiden {a : Ways × StaticInfo} (ha : a ∈ as) :
      Widens a.2.type (NaryOp.block.typeOf (as.map (·.2))) := widens_block (List.mem_map_of_mem ha)
  refine .ofItemsAndPush n ?_ ?_
  · refine yields_concat fun src hsrc => ?_
    obtain ⟨w, hw, rfl⟩ := List.mem_map.1 hsrc
    obtain ⟨a, ha, rfl⟩ := List.mem_map.1 hw
    exact yields_widens (h a ha).items (hwiden ha)
  · have hpush : ∀ w ∈ as.map (·.1),
        Runs k (w.push f) (hasAll (NaryOp.block.typeOf (as.map (·.2)))).holds := by
      intro w hw
      obtain ⟨a, ha, rfl⟩ := List.mem_map.1 hw
      exact (h a ha).push.imp fun _ _ _ hxs => HasAll.widens hxs (hwiden ha)
    refine (Runs.listMapM hpush).bind fun m xss _ hxss => runs_pure fun m' hm' => ?_
    refine Fits.later (hasAll_iff.2 fun x hx => ?_) hm'
    obtain ⟨xs, hxs, hx⟩ := List.mem_flatten.1 hx
    exact (hxss.2 xs hxs).each x hx

end Regime
end XPath
