import XPath.Evaluation.Meaning
import XPath.Proofs.Numbers
import XPath.Proofs.Regime

/-!
What the operators give in a regime, in terms of what their operands give: how many items there may be,
and that they are numbers where the type is numeric.
-/
namespace XPath

/-- The items of an index are of a type. -/
structure Index.Fits (x : Index) (t : SequenceType) : Prop where
  each : ∀ e ∈ x.entries, t.item.Suits e.1
  most : x.entries.size ≤ t.cardinality.most

namespace Regime
variable {R : Regime} {k l : R.Stage} {f : Frame} {t : SequenceType}

/-- Items of a type, as far as numbers go. -/
abbrev ofType (R : Regime) (t : ItemType) : R.Known Item := .always R t.Suits

abbrev valuesOf (R : Regime) (t : ItemType) : R.Known Atomic := .always R t.SuitsValue

/-- The items of a list fit a type, as far as their number and numbers among them go. -/
abbrev FitsType (t : SequenceType) (k : R.Stage) (xs : List Item) : Prop :=
  Fits (R.ofType t.item) t.cardinality.least t.cardinality.most k xs

theorem fitsType_iff {xs : List Item} : FitsType t k xs ↔ t.Admits xs :=
  ⟨fun h => ⟨h.each, (Cardinality.allows_iff _ _).2 ⟨h.least, h.most⟩⟩, fun h =>
    ⟨h.each, ((Cardinality.allows_iff _ _).1 h.length).1, ((Cardinality.allows_iff _ _).1 h.length).2⟩⟩

/-- A way of evaluating that gives what a type says. -/
structure Sound (k : R.Stage) (a : Ways) (f : Frame) (t : SequenceType) : Prop where
  item : Runs k (a.item f) fun l o => FitsType t l o.toList
  items : Yields (R.ofType t.item) t.cardinality.least t.cardinality.most k (a.items f)
  push : Runs k (a.push f) fun l xs => FitsType t l xs

/-- Every sequence that fits the first type fits the second. -/
structure Narrower (s t : SequenceType) : Prop where
  suits : ∀ x, s.item.Suits x → t.item.Suits x
  least : t.cardinality.least ≤ s.cardinality.least
  most : s.cardinality.most ≤ t.cardinality.most

theorem Narrower.refl (t : SequenceType) : Narrower t t := ⟨fun _ => id, le_rfl, le_rfl⟩

theorem Narrower.of_eq {s t : SequenceType} (h : s = t) : Narrower s t := h ▸ .refl s

theorem Narrower.any (s : SequenceType) : Narrower s .any :=
  ⟨fun _ _ => nofun, Nat.zero_le _, le_top⟩

theorem Narrower.not_numeric {s : SequenceType} (h : Narrower s t) (hs : s.item.isNumeric = false) :
    t.item.isNumeric = false := by
  by_contra ht
  have htrue := h.suits (.atomic (.boolean true)) (ItemType.suits_of_not hs _)
  cases htrue (Bool.eq_true_of_not_eq_false ht)

/-- A value of the first type is one of the second, also where it is empty. -/
def Passes (s t : SequenceType) : Prop :=
  Narrower s t ∨ s.cardinality.most = 0 ∧ t.cardinality.least = 0

theorem passes_of_isSubtype {s : SequenceType} (h : s.isSubtype t) : Passes s t := by
  obtain ⟨hc, hitem⟩ := Bool.and_eq_true_iff.1 h
  obtain ⟨hleast, hmost⟩ := Cardinality.contains_iff.1 hc
  obtain hempty | hsub := Bool.or_eq_true_iff.1 hitem
  · rw [beq_iff_eq] at hempty
    rw [hempty] at hleast
    exact .inr ⟨by rw [hempty]; rfl, Nat.le_zero.1 hleast⟩
  · exact .inl ⟨fun x hx ht => hx (ItemType.isNumeric_of_isSubtype hsub ht), hleast, hmost⟩

theorem FitsType.narrower {s : SequenceType} {xs : List Item} (h : FitsType s k xs)
    (hn : Narrower s t) : FitsType t k xs :=
  Fits.imp h hn.suits hn.least hn.most

namespace Sound
variable {a b : Ways}

theorem later (h : Sound k a f t) (hl : R.le k l) : Sound l a f t :=
  ⟨h.item.later hl, h.items.later hl, h.push.later hl⟩

theorem narrower {s : SequenceType} (h : Sound k a f s) (hn : Narrower s t) : Sound k a f t where
  item := h.item.imp fun _ _ _ hx => FitsType.narrower hx hn
  items := h.items.imp (fun _ x _ => hn.suits x) hn.least hn.most
  push := h.push.imp fun _ _ _ hx => FitsType.narrower hx hn

/-- For an operator that gives at most one item. -/
theorem ofItem (n : Note) {x : Frame → Eval (Option Item)}
    (h : Runs k (x f) fun l o => FitsType t l o.toList) : Sound k (.ofItem n x) f t := by
  have hitems : Yields (R.ofType t.item) t.cardinality.least t.cardinality.most k
      ((Ways.ofItem n x).items f) :=
    yields_after ((h.orAt n.location).bind fun _ _ _ ho => runs_pure fun _ hm =>
      yields_ofList (ho.later hm))
  exact ⟨h.orAt n.location, hitems, hitems.toList⟩

theorem ofItemsAndPush (n : Note) {x : Frame → Items} {p : Frame → Eval (List Item)}
    (h : Yields (R.ofType t.item) t.cardinality.least t.cardinality.most k (x f))
    (hp : Runs k (p f) fun l xs => FitsType t l xs) : Sound k (.ofItemsAndPush n x p) f t :=
  ⟨(h.mapError _).only? _, h.mapError _, hp.orAt n.location⟩

theorem ofItems (n : Note) {x : Frame → Items}
    (h : Yields (R.ofType t.item) t.cardinality.least t.cardinality.most k (x f)) :
    Sound k (.ofItems n x) f t :=
  ofItemsAndPush n h h.toList

theorem ofPush (n : Note) {p : Frame → Eval (List Item)}
    (h : Runs k (p f) fun l xs => FitsType t l xs) : Sound k (.ofPush n p) f t :=
  ofItemsAndPush n (yields_after (h.bind fun _ _ _ hxs => runs_pure fun _ hm =>
    yields_ofList (hxs.later hm))) h

/-- For an operator that computes a list and then gives its items. -/
theorem ofList (n : Note) {p : Frame → Eval (List Item)}
    (h : Runs k (p f) fun l xs => FitsType t l xs) :
    Sound k (.ofItems n fun f => .after (return .ofList (← p f))) f t :=
  ofItems n (yields_after (h.bind fun _ _ _ hxs => runs_pure fun _ hm =>
    yields_ofList (hxs.later hm)))

theorem toList (h : Sound k a f t) : Runs k (a.toList f) fun l xs => FitsType t l xs := h.items.toList

theorem truth (h : Sound k a f t) : Runs k (a.truth f) fun _ _ => True :=
  (h.items.truth _).orAt _

private theorem runs_value_suits {t : ItemType} {x : Item} (hx : t.Suits x) :
    Runs k (Eval.value x) fun _ v => t.SuitsValue v := by
  apply runs_forest.bind
  intro m w _ _
  apply runs_pure
  intro _ _ ht
  cases x with
  | atomic a => exact hx ht
  | node i => exact absurd (hx ht) nofun

theorem values (h : Sound k a f t) :
    Yields (R.valuesOf t.item) t.cardinality.least t.cardinality.most k (a.values f) :=
  h.items.mapM fun _ _ _ hx => runs_value_suits hx

theorem value? (h : Sound k a f t) : Runs k (a.value? f) fun l o =>
    Fits (R.valuesOf t.item) t.cardinality.least t.cardinality.most l o.toList := by
  apply h.item.bind
  intro m o hm ho
  cases o with
  | none => exact runs_pure fun _ _ => ⟨List.forall_mem_nil _, ho.least, ho.most⟩
  | some x =>
    apply (runs_value_suits (ho.each x List.mem_cons_self)).map
    intro n v _ hv
    exact ⟨List.forall_mem_singleton.2 hv, ho.least, ho.most⟩

theorem text (h : Sound k a f t) : Runs k (a.text f) fun _ _ => True :=
  h.value?.bind fun _ _ _ _ => runs_pure fun _ _ => trivial

theorem texts (h : Sound k a f t) :
    Runs k (do return (← (a.values f).toList).map (·.text)) fun _ _ => True :=
  h.values.toList.bind fun _ _ _ _ => runs_pure fun _ _ => trivial

theorem nodes (h : Sound k a f t) : Runs k (a.nodes f) fun _ _ => True := by
  have hnodes : Yields (.any R NodeId) t.cardinality.least t.cardinality.most k
      ((a.items f).mapM fun x => Eval.require .typeMismatch x.node?) :=
    h.items.mapM fun _ _ _ _ => runs_require_any _ _
  exact hnodes.toList.bind fun _ _ _ _ => runs_ordering_any _

theorem holdsAt (h : Sound k a f t) (n : ℕ) : Runs k (a.holdsAt f n) fun _ _ => True := h.items.truth _

end Sound

variable {a b d : Ways}

/-- Making nodes keeps worlds good. -/
structure KeepsNodes (R : Regime) : Prop where
  element : ∀ {k w} (name : NodeName) (content : List Item), R.good k w → ∃ l, R.le k l ∧
    R.good l { w with forest := (((Construction.start w.forest name).appendContent [] content).finish).2 }
  text : ∀ {k w} (s : String), R.good k w → ∃ l, R.le k l ∧
    R.good l { w with forest := (w.forest.addText s).2 }

theorem KeepsNodes.runs_makeElement (h : R.KeepsNodes) (name : QName) (content : List Item) :
    Runs k (makeElement name content) fun _ _ => True := by
  intro l w hl hw
  obtain ⟨m, hm, hw'⟩ := h.element name.nodeName content hw
  exact ⟨m, hm, hw', fun _ _ => trivial⟩

theorem KeepsNodes.runs_addText (h : R.KeepsNodes) (s : String) :
    Runs k (Eval.modifyForest (·.addText s)) fun _ _ => True := by
  intro l w hl hw
  obtain ⟨m, hm, hw'⟩ := h.text s hw
  exact ⟨m, hm, hw', fun _ _ => trivial⟩

/-- One item of a type that is no number's, or one that is a number. -/
theorem fitsType_single {x : Item} (hx : t.item.Suits x) (hc : t.cardinality.least ≤ 1)
    (hm : 1 ≤ t.cardinality.most) : FitsType t k [x] :=
  ⟨List.forall_mem_singleton.2 hx, hc, by exact_mod_cast hm⟩

theorem fitsType_option {g : Atomic → Except ErrorCode Atomic} {s : ItemType} {o : Option Atomic}
    (hg : ∀ v w, g v = .ok w → t.item.Suits (.atomic w))
    (ho : Fits (R.valuesOf s) t.cardinality.least t.cardinality.most k o.toList) :
    Runs k (o.mapM fun v => do return Item.atomic (← Eval.ofExcept (g v)))
      fun l o => FitsType t l o.toList := by
  have hrun (v : Atomic) : Runs k (do return Item.atomic (← Eval.ofExcept (g v)))
      fun _ x => t.item.Suits x :=
    (runs_ofExcept fun _ w _ hw => (⟨w, rfl, hw⟩ : ∃ u, u = w ∧ g v = .ok u)).bind
      fun _ w _ hw => runs_pure fun _ _ => by
        obtain ⟨u, rfl, hu⟩ := hw
        exact hg v u hu
  refine Runs.optionMapM (fun v _ => hrun v) (fun m _ hnone => ?_) fun m v x _ hsome hx => ?_
  · rw [hnone] at ho
    exact ⟨List.forall_mem_nil _, ho.least, ho.most⟩
  · rw [hsome] at ho
    exact ⟨List.forall_mem_singleton.2 hx, ho.least, ho.most⟩

/-- An operation on at most one value. -/
theorem runs_lift {i : SequenceType} {g : Atomic → Except ErrorCode Atomic} (ha : Sound k a f i)
    (hg : ∀ v w, g v = .ok w → w.isNumeric) (u : ItemType) :
    Runs k (UnaryOp.lift g a f) fun l o => FitsType ⟨u, i.cardinality.pickOne⟩ l o.toList := by
  apply ha.value?.bind
  intro m o _ ho
  refine fitsType_option (s := i.item) (fun v w hw _ => hg v w hw)
    ⟨ho.each, ?_, ?_⟩
  · rw [Cardinality.least_pickOne]
    exact (min_le_left _ _).trans ho.least
  · rw [Cardinality.most_pickOne]
    apply le_min ho.most
    cases o <;> simp

/-- Where a node is among the items the type is no number's. -/
theorem not_numeric_of_node {xs : List Item} (h : FitsType t k xs) {i : NodeId}
    (hi : i ∈ xs.filterMap (·.node?)) : t.item.isNumeric = false := by
  obtain ⟨x, hx, hxi⟩ := List.mem_filterMap.1 hi
  by_contra ht
  have hnum := h.each x hx (Bool.eq_true_of_not_eq_false ht)
  cases x with
  | atomic v => cases hxi
  | node j => cases hnum

theorem fitsType_nodes {is : List NodeId} (ht : t.item.isNumeric = false)
    (hl : t.cardinality.least ≤ is.length) (hm : is.length ≤ t.cardinality.most) :
    FitsType t k (is.map Item.node) :=
  ⟨fun x _ => ItemType.suits_of_not ht x, by rwa [List.length_map], by rwa [List.length_map]⟩

/-- Sorting leaves as many items, or drops repeated nodes; it does not drop all. -/
theorem runs_sortItems {xs : List Item} (h : FitsType t k xs) :
    Runs k (sortItems xs) fun l ys => FitsType t l ys := by
  unfold sortItems
  dsimp only
  split
  · exact runs_pure fun _ hm => h.later hm
  · next hne =>
    split
    · next hlen =>
      obtain ⟨i, hi⟩ : ∃ i, i ∈ xs.filterMap (·.node?) :=
        List.exists_mem_of_ne_nil _ fun hnil => hne (by rw [hnil]; rfl)
      have ht := not_numeric_of_node h hi
      refine (runs_ordering (Q := fun _ is => is.length ≤ (xs.filterMap (·.node?)).length ∧
        min (xs.filterMap (·.node?)).length 1 ≤ is.length) _
          fun m w o => DocumentOrder.length_sort w _ o).map fun m is _ his => ?_
      rw [hlen] at his
      refine fitsType_nodes ht ?_ ?_
      · have := his.2
        have hleast := h.least
        have hone := t.cardinality.least_le_one_or
        omega
      · exact (by exact_mod_cast his.1 : (is.length : ℕ∞) ≤ xs.length).trans h.most
    · exact runs_fail _

/-- One truth value. -/
theorem fitsType_truth (b : Bool) :
    FitsType (.one Typing.booleanType) k (UnaryOp.truth b).toList :=
  fitsType_single (ItemType.suits_of_not rfl _) le_rfl le_rfl

theorem FitsType.dropAll {xs : List Item} (h : FitsType t k xs) {ys : List Item} (hsub : ys ⊆ xs)
    (hlen : ys.length ≤ xs.length) : FitsType ⟨t.item, t.cardinality.orEmpty⟩ k ys where
  each x hx := h.each x (hsub hx)
  least := by simp
  most := by
    rw [Cardinality.most_orEmpty]
    exact (by exact_mod_cast hlen : (ys.length : ℕ∞) ≤ xs.length).trans h.most

theorem fits_pickOne {c : Cardinality} {P : R.Known Item} {o : Option Item}
    (h : Fits P (min c.least 1) c.most k o.toList) :
    Fits P c.pickOne.least c.pickOne.most k o.toList where
  each := h.each
  least := (Cardinality.least_pickOne c).trans_le h.least
  most := by
    rw [Cardinality.most_pickOne]
    apply le_min h.most
    cases o <;> simp

/-- The last item is one of the items, and there is one if there is an item. -/
theorem runs_last {i : SequenceType} (ha : Sound k a f i) :
    Runs k ((a.items f).forIn none fun _ x => return .yield (some x))
      fun l o => FitsType ⟨i.item, i.cardinality.pickOne⟩ l o.toList := by
  have hstep := ha.items.forIn (b := (none : Option Item))
    (Q := fun l o => Fits (R.ofType i.item) (min i.cardinality.least 1) i.cardinality.most l o.toList)
    (f := fun _ x => return .yield (some x))
    (fun n => .always R fun o => match o with
      | none => i.cardinality.least ≤ n
      | some x => i.item.Suits x ∧ 1 ≤ i.cardinality.most)
    le_rfl (fun l m n b x _ _ hx _ hone => ?_) fun l o _ ho => ?_
  · exact hstep.imp fun m o _ ho => fits_pickOne ho
  · exact runs_pure fun _ _ => ⟨hx, hone⟩
  · cases o with
    | none => exact ⟨List.forall_mem_nil _, (min_le_left _ _).trans ho, zero_le⟩
    | some x => exact ⟨List.forall_mem_singleton.2 ho.1, min_le_right _ _, by exact_mod_cast ho.2⟩

/-- What an operator with one operand gives. -/
theorem sound_unary (n : Note) (op : UnaryOp) {i : StaticInfo} (ha : Sound k a f i.type)
    (hnodes : (op.effects {}).creates → R.KeepsNodes) : Sound k (op.ways n a) f (op.typeOf i) := by
  cases op with
  | negate => exact .ofItem n (runs_lift ha (fun _ _ => Atomic.isNumeric_negate) _)
  | plus => exact .ofItem n (runs_lift ha (fun _ _ => Atomic.isNumeric_plus) _)
  | sort =>
    exact .ofItems n (yields_after (ha.toList.bind fun _ _ _ hxs => (runs_sortItems hxs).bind
      fun _ _ _ hys => runs_pure fun _ hm => yields_ofList (hys.later hm)))
  | reverse =>
    refine .ofItems n (yields_after (ha.toList.bind fun _ xs _ hxs => runs_pure fun _ hm =>
      yields_ofList ?_))
    have hlen : xs.reverse.length = xs.length := List.length_reverse
    exact ⟨fun x hx => hxs.each x (List.mem_reverse.1 hx), hlen ▸ hxs.least, hlen ▸ hxs.most⟩
  | first => exact .ofItem n (ha.items.head?.imp fun _ _ _ ho => fits_pickOne ho)
  | last => exact .ofItem n (runs_last ha)
  | slice min max =>
    have hrest : Yields (R.ofType i.item) i.cardinality.orEmpty.least i.cardinality.orEmpty.most k
        ((a.items f).drop (min - 1)) :=
      (ha.items.drop _).imp (fun _ _ _ => id) (by simp) (by simp [StaticInfo.type])
    refine .ofItems n ?_
    unfold Ways.slice
    cases max with
    | none => exact hrest
    | some max =>
      dsimp only
      split
      · exact yields_empty.imp (fun _ _ _ => id) (by simp [UnaryOp.typeOf]) le_rfl
      · exact (hrest.take _).imp (fun _ _ _ => id) (by simp [UnaryOp.typeOf]) (min_le_right _ _)
  | cast target allowsEmpty =>
    refine .ofItem n (ha.value?.bind fun m o _ ho => ?_)
    cases o with
    | none =>
      dsimp only
      split
      · next hallow =>
        have hzero : i.cardinality.least = 0 := Nat.le_zero.1 ho.least
        have hc : i.cardinality.allowsEmpty := beq_iff_eq.2 hzero
        refine runs_pure fun _ _ => ⟨List.forall_mem_nil _, ?_, zero_le⟩
        simp [UnaryOp.typeOf, SequenceType.atomic, hc, hallow, Cardinality.least, Cardinality.bounds]
      · exact runs_fail _
    | some v =>
      refine (runs_ofExcept (Q := fun _ w => v.cast target = .ok w) fun _ w _ hw => hw).bind
        fun _ w _ hw => runs_pure fun _ _ => fitsType_single (fun ht => ?_) ?_ ?_
      · exact Atomic.isNumeric_cast hw ht
      · exact Cardinality.least_le_one_or _
      · simp only [UnaryOp.typeOf, SequenceType.atomic]
        split <;> simp [Cardinality.most, Cardinality.bounds]
  | castable target allowsEmpty =>
    refine .ofItem n (ha.values.toList.bind fun m vs _ _ => ?_)
    split <;> exact runs_pure fun _ _ => fitsType_truth _
  | treat type =>
    refine .ofItems n (yields_after (ha.toList.bind fun m xs _ _ => runs_forest.bind
      fun _ w _ _ => ?_))
    split
    · next hholds =>
      exact runs_pure fun _ _ => yields_ofList (fitsType_iff.2 (SequenceType.admits_of_holds hholds))
    · exact runs_fail _
  | instanceOf type =>
    exact .ofItem n (ha.toList.bind fun _ _ _ _ => runs_forest.bind fun _ _ _ _ =>
      runs_pure fun _ _ => fitsType_truth _)
  | element name =>
    refine .ofPush n (ha.toList.bind fun _ xs _ _ =>
      ((hnodes rfl).runs_makeElement name xs).bind fun _ _ _ _ => runs_pure fun _ _ => ?_)
    exact fitsType_single (ItemType.suits_of_not rfl _) le_rfl le_rfl
  | text =>
    refine .ofPush n (ha.values.toList.bind fun _ vs _ _ => ?_)
    dsimp only
    split
    · exact runs_pure fun _ _ => ⟨List.forall_mem_nil _, le_rfl, zero_le⟩
    · apply ((hnodes rfl).runs_addText _).bind
      intro _ _ _ _
      apply runs_pure
      intro _ _
      exact fitsType_single (ItemType.suits_of_not rfl _) (Nat.zero_le _) le_rfl

/-- Bounds on the result of an operation that needs a value of either operand. -/
private theorem runs_lift₂ {i j : StaticInfo} {g : Atomic → Atomic → Except ErrorCode Atomic}
    (ha : Sound k a f i.type) (hb : Sound k b f j.type)
    (hg : ∀ v w u, g v w = .ok u → t.item.Suits (.atomic u))
    (hl : t.cardinality.least ≤ min i.cardinality.least j.cardinality.least)
    (hm : 1 ≤ i.cardinality.most → 1 ≤ j.cardinality.most → 1 ≤ t.cardinality.most) :
    Runs k (BinaryOp.lift g a b f) fun l o => FitsType t l o.toList := by
  apply ha.value?.bind
  intro m x hm' hx
  apply (hb.value?.later hm').bind
  intro m' y _ hy
  cases x with
  | none => exact runs_pure fun _ _ => ⟨List.forall_mem_nil _, hl.trans ((min_le_left _ _).trans hx.least), zero_le⟩
  | some v =>
    cases y with
    | none => exact runs_pure fun _ _ => ⟨List.forall_mem_nil _, hl.trans ((min_le_right _ _).trans hy.least), zero_le⟩
    | some w =>
      refine (runs_ofExcept (Q := fun _ u => g v w = .ok u) fun _ u _ hu => hu).bind
        fun _ u _ hu => runs_pure fun _ _ => fitsType_single (hg v w u hu) ?_ ?_
      · exact hl.trans ((min_le_left _ _).trans hx.least)
      · have hi : 1 ≤ i.type.cardinality.most := by simpa using hx.most
        have hj : 1 ≤ j.type.cardinality.most := by simpa using hy.most
        exact hm hi hj

theorem least_bothCardinality (i j : StaticInfo) :
    (i.bothCardinality j).least ≤ min i.cardinality.least j.cardinality.least := by
  unfold StaticInfo.bothCardinality
  split
  · next h =>
    rw [h.1, h.2]
    decide
  · exact Nat.zero_le _

theorem most_bothCardinality (i j : StaticInfo) : 1 ≤ (i.bothCardinality j).most := by
  unfold StaticInfo.bothCardinality
  split <;> exact le_rfl

theorem yields_count (i : Int) (n : ℕ) : Yields (R.ofType t.item) 0 ⊤ k (BinaryOp.count i n) := by
  induction n generalizing i k with
  | zero => exact yields_empty
  | succ n ih =>
    intro l w hl hw
    have hx : (R.ofType t.item).holds l (.atomic (.ofInt i)) := fun _ => rfl
    exact .ok (R.refl l) hw hx (Nat.zero_le _) le_top fun m w' hm hw' => ih (i + 1) m w' (R.refl m) hw'

theorem runs_rangeEnd {i : SequenceType} (ha : Sound k a f i) :
    Runs k (BinaryOp.rangeEnd a f) fun _ _ => True := by
  apply ha.value?.bind
  intro m o _ _
  split
  · exact runs_pure fun _ _ => trivial
  · exact (runs_ofExcept_any _).map fun _ _ _ _ => trivial
  · exact runs_pure fun _ _ => trivial
  · exact runs_fail _

theorem runs_combine {i j : SequenceType} (op : SetOp) (ha : Sound k a f i) (hb : Sound k b f j) :
    Runs k (BinaryOp.combine op a b f) fun _ _ => True := by
  apply ha.nodes.bind
  intro m is hm _
  apply (hb.nodes.later hm).bind
  intro _ js _ _
  cases op with
  | union => exact runs_ordering_any _
  | intersect => exact runs_pure fun _ _ => trivial
  | except => exact runs_pure fun _ _ => trivial

theorem runs_compareAny {i j : SequenceType} (op : ComparisonOp) (ha : Sound k a f i)
    (hb : Sound k b f j) : Runs k (BinaryOp.compareAny op a b f) fun _ _ => True := by
  apply ha.values.toList.bind
  intro m left hm _
  split
  · exact runs_pure fun _ _ => trivial
  · apply (hb.values.later hm).forIn_any false
    intro l _ y _ _
    apply (runs_ofExcept_any _).bind
    intro _ found _ _
    split <;> exact runs_pure fun _ _ => trivial

theorem runs_compareNodes {i j : SequenceType} (op : NodeComparisonOp) (ha : Sound k a f i)
    (hb : Sound k b f j) : Runs k (BinaryOp.compareNodes op a b f)
      fun l o => FitsType ⟨Typing.booleanType, .zeroOrOne⟩ l o.toList := by
  have hone (m : R.Stage) (v : Bool) :
      FitsType ⟨Typing.booleanType, .zeroOrOne⟩ m (UnaryOp.truth v).toList :=
    fitsType_single (ItemType.suits_of_not rfl _) (Nat.zero_le _) le_rfl
  apply ha.item.bind
  intro m x hm _
  apply (hb.item.later hm).bind
  intro m' y _ _
  split
  · cases op with
    | is => exact runs_pure fun m _ => hone m _
    | precedes =>
      exact (runs_ordering_any _).bind
        fun _ _ _ _ => runs_pure fun m _ => hone m _
    | follows =>
      exact (runs_ordering_any _).bind
        fun _ _ _ _ => runs_pure fun m _ => hone m _
  · exact runs_fail _
  · exact runs_pure fun _ _ => ⟨List.forall_mem_nil _, Nat.zero_le _, zero_le⟩

theorem runs_itemAt {i j : StaticInfo} (ha : Sound k a f i.type) (hb : Sound k b f j.type) :
    Runs k (a.itemAt b f)
      fun l o => FitsType ⟨i.item, i.cardinality.pickOne.orEmpty⟩ l o.toList := by
  apply hb.value?.bind
  intro m o hm _
  split
  · refine ((ha.items.later hm).get? _).imp fun m' o _ ho => ⟨ho.each, by simp, ?_⟩
    rw [Cardinality.most_orEmpty, Cardinality.most_pickOne]
    apply le_min ho.most
    cases o <;> simp
  · exact runs_pure fun _ _ => ⟨List.forall_mem_nil _, by simp, zero_le⟩

/-- What an operator gives that evaluates both operands in its own frame. -/
theorem sound_plain (n : Note) (op : BinaryOp) (x y : Meaning) {i j : StaticInfo} (hop : op.isPlain)
    (ha : Sound k x.toWays f i.type) (hb : Sound k y.toWays f j.type) :
    Sound k (op.ways n x y) f (op.typeOf i j) := by
  have htrue {m : R.Stage} {v : Eval Bool} (hv : Runs m v fun _ _ => True) :
      Runs m (do return UnaryOp.truth (← v))
        fun l o => FitsType (.one Typing.booleanType) l o.toList :=
    hv.bind fun _ b _ _ => runs_pure fun _ _ => fitsType_truth b
  cases op with
  | arithmetic op =>
    refine .ofItem n (runs_lift₂ ha hb (fun _ _ u hu _ => Atomic.isNumeric_arithmetic hu) ?_ ?_)
    · unfold BinaryOp.typeOf
      dsimp only
      split
      · exact Nat.zero_le _
      · exact least_bothCardinality i j
    · intro hi hj
      unfold BinaryOp.typeOf
      dsimp only
      split
      · next hempty =>
        obtain h | h := hempty
        · rw [h] at hi
          exact hi
        · rw [h] at hj
          exact hj
      · exact most_bothCardinality i j
  | valueComparison op =>
    exact .ofItem n (runs_lift₂ ha hb (fun _ _ _ _ => ItemType.suits_of_not rfl _)
      (least_bothCardinality i j) fun _ _ => most_bothCardinality i j)
  | generalComparison op => exact .ofItem n (htrue (runs_compareAny op ha hb))
  | nodeComparison op => exact .ofItem n (runs_compareNodes op ha hb)
  | and =>
    refine .ofItem n (ha.truth.bind fun m v hm _ => ?_)
    split
    · exact htrue (hb.truth.later hm)
    · exact runs_pure fun _ _ => fitsType_truth _
  | or =>
    refine .ofItem n (ha.truth.bind fun m v hm _ => ?_)
    split
    · exact runs_pure fun _ _ => fitsType_truth _
    · exact htrue (hb.truth.later hm)
  | range =>
    refine .ofItems n (yields_after ((runs_rangeEnd ha).bind fun m _ hm _ =>
      ((runs_rangeEnd hb).later hm).bind fun _ _ _ _ => ?_))
    split
    · exact runs_pure fun _ _ => yields_count _ _
    · exact runs_pure fun _ _ => yields_empty
  | set op =>
    refine .ofItems n (yields_after ((runs_combine op ha hb).bind fun _ is _ _ => runs_pure
      fun _ _ => yields_ofList (fitsType_nodes ?_ (Nat.zero_le _) le_top)))
    simp only [BinaryOp.typeOf, ItemType.nodeCommon]
    split <;> rfl
  | itemAt => exact .ofItem n (runs_itemAt ha hb)
  | path => cases hop
  | filter => cases hop
  | «for» => cases hop
  | «let» => cases hop
  | quantified => cases hop

/-- Sound with every item as the focus. -/
def SoundUnderFocus (k : R.Stage) (b : Ways) (f : Frame) (t : SequenceType) : Prop :=
  ∀ l x n size, R.le k l → Sound l b (f.withFocus x n size) t

theorem runs_counted {i : SequenceType} (ha : Sound k a f i) :
    Runs k (a.counted b f) fun l r =>
      Yields (R.ofType i.item) i.cardinality.least i.cardinality.most l r.1 := by
  unfold Ways.counted
  split
  · exact ha.toList.bind fun _ _ _ hxs => runs_pure fun _ hm => yields_ofList (hxs.later hm)
  · exact runs_pure fun _ hm => ha.items.later hm

theorem yields_path {i j : StaticInfo} (ha : Sound k a f i.type) (hb : SoundUnderFocus k b f j.type) :
    Yields (R.ofType j.item) (i.cardinality.product j.cardinality).least
      (i.cardinality.product j.cardinality).most k (a.path b f) := by
  refine yields_after ((runs_counted ha).bind fun m r hm hr => runs_pure fun m' hm' => ?_)
  have hright (l : R.Stage) (n : ℕ) (x : Item) (hl : R.le m' l) :
      Yields (R.ofType j.item) j.cardinality.least j.cardinality.most l
        (if x.node?.isSome then b.items (f.withFocus x n r.2) else .fail { code := .pathOnNonNode }) := by
    split
    · exact (hb l x n r.2 (R.trans (R.trans hm hm') hl)).items
    · exact yields_fail _
  exact ((hr.later hm').bind fun l n x hl _ => hright l n x hl).imp (fun _ _ _ => id)
    (Cardinality.least_product _ _) (Cardinality.most_product _ _)

/-- A predicate that is a number and does not read the focus picks one item at most; one that is a number
for every item could pick several. -/
theorem yields_select {i j : StaticInfo} {positional : Bool} (ha : Sound k a f i.type)
    (hnumber : b.note.info.dependencies.focus → j.item.isNumeric → i.cardinality.most ≤ 1)
    (hfocus : b.note.info.dependencies.focus → SoundUnderFocus k b f j.type)
    (honce : b.note.info.dependencies.focus = false → Sound k b f j.type) :
    let t := (BinaryOp.filter positional).typeOf i j
    Yields (R.ofType t.item) t.cardinality.least t.cardinality.most k (a.select b f) := by
  intro t
  have hleast : t.cardinality.least = 0 := by
    change Cardinality.least (if _ then _ else if _ then _ else _) = 0
    split
    · rfl
    · split
      · rfl
      · exact Cardinality.least_orEmpty _
  have hmost (hnum : j.item.isNumeric = false) : t.cardinality.most = i.cardinality.most := by
    change Cardinality.most (if _ then _ else if _ then _ else _) = _
    rw [hnum, Bool.and_false, if_neg Bool.false_ne_true]
    split
    · next hempty => rw [hempty]
    · exact Cardinality.most_orEmpty _
  have hpick : min 1 i.cardinality.most ≤ t.cardinality.most := by
    change _ ≤ Cardinality.most (if _ then _ else if _ then _ else _)
    split
    · next hempty =>
      rw [hempty]
      exact min_le_right _ _
    · split
      · exact min_le_left _ _
      · rw [Cardinality.most_orEmpty]
        exact min_le_right _ _
  rw [hleast]
  have hall (hnum : j.item.isNumeric = false) {m : R.Stage} (hm : R.le k m) :
      Yields (R.ofType t.item) 0 t.cardinality.most m (a.items f) :=
    (ha.items.later hm).imp (fun _ _ _ => id) (Nat.zero_le _) (hmost hnum).ge
  unfold Ways.select
  split
  · next hf =>
    have hb := hfocus hf
    have hbase : i.cardinality.most ≤ t.cardinality.most := by
      by_cases hnum : j.item.isNumeric
      · exact (le_min (hnumber hf hnum) le_rfl).trans hpick
      · exact (hmost (Bool.eq_false_iff.2 hnum)).ge
    refine yields_after ((runs_counted ha).bind fun m r hm hr => runs_pure fun m' hm' => ?_)
    refine ((hr.later hm').filterM fun l n x hl _ => ?_).imp (fun _ _ _ => id) le_rfl hbase
    exact (hb l x n r.2 (R.trans (R.trans hm hm') hl)).holdsAt n
  · next hf =>
    have hb := honce (Bool.eq_false_iff.2 hf)
    refine yields_after (hb.toList.bind fun m v hm hv => ?_)
    split
    · next x =>
      split
      · apply runs_pure
        intro m' hm'
        split
        · exact (((ha.items.later (R.trans hm hm')).drop _).take 1).imp (fun _ _ _ => id) le_rfl hpick
        · exact yields_empty
      · next hno =>
        apply runs_pure
        intro m' hm'
        split
        · refine hall (Bool.eq_false_iff.2 fun hnum => hno ?_) (R.trans hm hm')
          exact hv.each (.atomic x) List.mem_cons_self hnum
        · exact yields_empty
    · next hsingle =>
      refine (runs_ofExcept (Q := fun _ c => Item.truth v = .ok c) fun _ c _ hc => hc).bind
        fun _ c hm' hc => runs_pure fun m'' hm'' => ?_
      cases c with
      | false => exact yields_empty
      | true =>
        refine hall (Bool.eq_false_iff.2 fun hnum => ?_) (R.trans (R.trans hm hm') hm'')
        -- Numbers alone are true only one at a time.
        match v, hc with
        | .node i :: _, _ => exact absurd (hv.each (.node i) List.mem_cons_self hnum) nofun
        | [.atomic x], _ => exact hsingle x rfl

theorem sound_for (n : Note) (slot : Slot) (x y : Meaning) {i j : StaticInfo} {P : R.Known Item}
    (ha : Yields P i.cardinality.least i.cardinality.most k (x.items f))
    (hb : ∀ l v, R.le k l → P.holds l v → Sound l y.toWays (f.bind slot (.items [v])) j.type) :
    Sound k ((BinaryOp.for slot).ways n x y) f ((BinaryOp.for slot).typeOf i j) := by
  refine .ofItems n ((ha.bind fun l _ v hl hv => (hb l v hl hv).items).imp (fun _ _ _ => id) ?_ ?_)
  · exact Cardinality.least_product _ _
  · exact Cardinality.most_product _ _

theorem sound_let (n : Note) (slot : Slot) (x y : Meaning) {i j : StaticInfo}
    {V : R.Stage → Value → Prop} (hbound : Runs k (x.bound f) V)
    (hb : ∀ l v, R.le k l → V l v → ∀ m, R.le l m → Sound m y.toWays (f.bind slot v) j.type) :
    Sound k ((BinaryOp.let slot).ways n x y) f ((BinaryOp.let slot).typeOf i j) :=
  .ofItems n (yields_after (hbound.bind fun l v hl hv => runs_pure fun m hm => (hb l v hl hv m hm).items))

theorem sound_quantified (n : Note) (q : Quantifier) (slot : Slot) (x y : Meaning) {i j : StaticInfo}
    {P : R.Known Item} (ha : Yields P i.cardinality.least i.cardinality.most k (x.items f))
    (hb : ∀ l v, R.le k l → P.holds l v → Sound l y.toWays (f.bind slot (.items [v])) j.type) :
    Sound k ((BinaryOp.quantified q slot).ways n x y) f ((BinaryOp.quantified q slot).typeOf i j) := by
  have hq : Runs k (BinaryOp.quantify q slot x.toWays y.toWays f) fun _ _ => True := by
    apply ha.forIn_any _
    intro l _ v hl hv
    apply (hb l v hl hv).truth.bind
    intro _ _ _ _
    split <;> exact runs_pure fun _ _ => trivial
  exact .ofItem n (hq.bind fun _ c _ _ => runs_pure fun _ _ => fitsType_truth c)

/-! Operators with three and with any number of operands. -/

/-- Of the items of an operand that may be left out of the common type there are none. -/
theorem yields_commonType (is : List StaticInfo) {i : StaticInfo} (hi : i ∈ is) {src : Items}
    (h : Yields (R.ofType i.item) i.cardinality.least i.cardinality.most k src) :
    Yields (R.ofType (StaticInfo.commonType is)) i.cardinality.least i.cardinality.most k src := by
  by_cases hempty : i.cardinality = .empty
  · have hmost : i.cardinality.most = 0 := by rw [hempty]; rfl
    rw [hmost] at h ⊢
    exact h.of_none _
  · refine h.imp (fun _ x _ hx hnum => hx ?_) le_rfl le_rfl
    exact ItemType.isNumeric_of_commonOf hnum i.item
      (List.mem_map_of_mem (List.mem_filter.2 ⟨hi, bne_iff_ne.2 hempty⟩))

theorem fits_commonType (is : List StaticInfo) {i : StaticInfo} (hi : i ∈ is) {p : Eval (List Item)}
    (h : Runs k p fun l xs => FitsType i.type l xs) :
    Runs k p (Fits (R.ofType (StaticInfo.commonType is)) i.cardinality.least i.cardinality.most) := by
  refine h.imp fun m xs _ hxs => ⟨fun x hx hnum => ?_, hxs.least, hxs.most⟩
  refine hxs.each x hx (ItemType.isNumeric_of_commonOf hnum i.item
    (List.mem_map_of_mem (List.mem_filter.2 ⟨hi, bne_iff_ne.2 fun hempty => ?_⟩)))
  have hnil : xs = [] := by simpa [StaticInfo.type, hempty] using hxs.most
  exact List.not_mem_nil (hnil ▸ hx)

theorem sound_if (n : Note) (exprs : Expr × Expr) {i j m : StaticInfo} (ha : Sound k a f i.type)
    (hb : Sound k b f j.type) (hd : Sound k d f m.type) :
    Sound k (TernaryOp.if.ways n exprs a b d) f (TernaryOp.if.typeOf i j m) := by
  have hl := Cardinality.least_join j.cardinality m.cardinality
  have hm := Cardinality.most_join j.cardinality m.cardinality
  refine .ofItems n (yields_after (ha.truth.bind fun l c hl' _ => ?_))
  split
  · apply runs_pure
    intro l' hl''
    have hy := yields_commonType [j, m] (by simp) (hb.later (R.trans hl' hl'')).items
    exact hy.imp (fun _ _ _ => id) (hl.trans (min_le_left _ _)) hm.1
  · apply runs_pure
    intro l' hl''
    have hy := yields_commonType [j, m] (by simp) (hd.later (R.trans hl' hl'')).items
    exact hy.imp (fun _ _ _ => id) (hl.trans (min_le_right _ _)) hm.2

/-- The indexes over a base hold items of a type. -/
structure KeepsIndexes (R : Regime) (base : Expr) (t : SequenceType) : Prop where
  found : ∀ {k w key x}, R.good k w → key.base = base → w.indexes.lookup key = some x → x.Fits t
  stored : ∀ {k w key x}, R.good k w → key.base = base → x.Fits t →
    ∃ l, R.le k l ∧ R.good l { w with indexes := (key, x) :: w.indexes }

theorem runs_makeIndex {s u : SequenceType} (ha : Sound k a f s) (hb : SoundUnderFocus k b f u) :
    Runs k (a.makeIndex b f) fun _ x => x.Fits s := by
  apply ha.toList.bind
  intro m xs hm hxs
  have hentry : ∀ y ∈ xs.zipIdx, Runs m
      (do return (y.1, ← (b.values (f.withFocus y.1 (y.2 + 1) xs.length)).toList))
      (Known.always R fun e : Item × List Atomic => s.item.Suits e.1).holds := by
    intro y hy
    have hkeys := (hb m y.1 (y.2 + 1) xs.length hm).values.toList
    exact hkeys.bind fun _ _ _ _ => runs_pure fun _ _ => hxs.each y.1 (List.fst_mem_of_mem_zipIdx hy)
  apply (Runs.listMapM hentry).bind
  intro m' es _ hes
  apply runs_pure
  intro _ _
  obtain ⟨hlen, hes⟩ := hes
  rw [List.length_zipIdx] at hlen
  exact ⟨fun e he => hes e (List.mem_toArray.1 he), by
    change ((es.toArray.size : ℕ) : ℕ∞) ≤ _
    rw [List.size_toArray, hlen]
    exact hxs.most⟩

theorem perform_findIndex (key : IndexKey) (a b : Ways) (f : Frame) (w : World) :
    (a.findIndex key b f).perform w = (match w.indexes.lookup key with
      | some x => pure x
      | none => do
        let x ← a.makeIndex b f
        modify fun w => { w with indexes := (key, x) :: w.indexes }
        return x : Eval Index).perform w := rfl

theorem runs_findIndex {base : Expr} {s u : SequenceType} (hkeep : R.KeepsIndexes base s)
    (ha : Sound k a f s) (hb : SoundUnderFocus k b f u) {key : IndexKey} (hkey : key.base = base) :
    Runs k (a.findIndex key b f) fun _ x => x.Fits s := by
  intro l w hl hw
  rw [perform_findIndex]
  cases hlook : w.indexes.lookup key with
  | some x =>
    refine ⟨l, R.refl l, hw, fun y hy => ?_⟩
    cases hy
    exact hkeep.found hw hkey hlook
  | none =>
    refine (((runs_makeIndex ha hb).later hl).bind fun m x hm hx => ?_) l w (R.refl l) hw
    intro l' w' hl' hw'
    obtain ⟨m', hm', hw''⟩ := hkeep.stored hw' hkey hx
    exact ⟨m', hm', hw'', fun y hy => by
      cases hy
      exact hx⟩

/-- What is found through an index is among the items of its base. -/
theorem runs_selectByKey {exprs : Expr × Expr} {i : StaticInfo} {s u : SequenceType}
    (hkeep : R.KeepsIndexes exprs.1 i.type) (ha : Sound k a f i.type) (hb : SoundUnderFocus k b f s)
    (hd : Sound k d f u) : Runs k (a.selectByKey exprs b d f)
      fun l xs => FitsType ⟨i.item, i.cardinality.orEmpty⟩ l xs := by
  apply hd.values.toList.bind
  intro m vs hm _
  split
  · exact runs_pure fun _ _ => ⟨List.forall_mem_nil _, by simp, zero_le⟩
  · have ha' := ha.later hm
    have hb' : SoundUnderFocus m b f s := fun l x n size hl => hb l x n size (R.trans hm hl)
    have hfound {l : R.Stage} {p : Eval Index} (hp : Runs l p fun _ x => x.Fits i.type) :
        Runs l (do Eval.ofExcept ((← p).lookup vs))
          fun l xs => FitsType ⟨i.item, i.cardinality.orEmpty⟩ l xs := by
      apply hp.bind
      intro l x _ hx
      apply runs_ofExcept
      intro l' ys _ hys
      obtain ⟨hsub, hlen⟩ := Index.lookup_subset hys
      refine ⟨fun y hy => ?_, by simp, ?_⟩
      · obtain ⟨e, he, rfl⟩ := List.mem_map.1 (hsub hy)
        exact hx.each e (Array.mem_toList_iff.1 he)
      · rw [Cardinality.most_orEmpty]
        exact (by exact_mod_cast hlen : (ys.length : ℕ∞) ≤ x.entries.size).trans hx.most
    dsimp only
    split
    · apply (runs_require_any _ _).bind
      intro l x hl _
      have hb'' : SoundUnderFocus l b f s := fun o x n size ho => hb' o x n size (R.trans hl ho)
      split
      · exact hfound (runs_findIndex hkeep (ha'.later hl) hb'' rfl)
      · exact hfound (runs_makeIndex (ha'.later hl) hb'')
    · exact hfound (runs_findIndex hkeep ha' hb' rfl)

theorem sound_indexedFilter (n : Note) {exprs : Expr × Expr} {i j m : StaticInfo}
    (hkeep : R.KeepsIndexes exprs.1 i.type) (ha : Sound k a f i.type)
    (hb : SoundUnderFocus k b f j.type) (hd : Sound k d f m.type) :
    Sound k (TernaryOp.indexedFilter.ways n exprs a b d) f (TernaryOp.indexedFilter.typeOf i j m) :=
  .ofList n (runs_selectByKey hkeep ha hb hd)

private theorem runs_mapM_push {P : R.Known Item} {as : List (Ways × StaticInfo)}
    (h : ∀ a ∈ as, Runs k (a.1.push f) (Fits P a.2.cardinality.least a.2.cardinality.most)) :
    Runs k ((as.map (·.1)).mapM (·.push f)) fun l xss => Fits P (as.map (·.2.cardinality.least)).sum
      (as.map (·.2.cardinality.most)).sum l xss.flatten := by
  induction as generalizing k with
  | nil => exact runs_pure fun _ _ => ⟨List.forall_mem_nil _, le_rfl, zero_le⟩
  | cons a as ih =>
    rw [List.map_cons, List.mapM_cons]
    apply (h a List.mem_cons_self).bind
    intro m xs hm hxs
    have has := ih fun b hb => (h b (List.mem_cons_of_mem a hb)).later hm
    apply has.bind
    intro m' xss hm' hxss
    apply runs_pure
    intro n hn
    rw [List.flatten_cons, List.map_cons, List.map_cons, List.sum_cons, List.sum_cons]
    exact (hxs.later (R.trans hm' hn)).append (hxss.later hn)

/-- One operand after the other. -/
theorem sound_block (n : Note) (c : DynamicContext) (as : List (Ways × StaticInfo))
    (h : ∀ a ∈ as, Sound k a.1 f a.2.type) :
    Sound k (NaryOp.block.ways c n (as.map (·.1))) f (NaryOp.block.typeOf (as.map (·.2))) := by
  obtain ⟨hl, hm⟩ := Cardinality.foldl_concat (as.map (·.2)) .empty
  rw [List.map_map, Cardinality.least_empty, Nat.zero_add] at hl
  rw [List.map_map, Cardinality.most_empty, zero_add] at hm
  have hitem {a : Ways × StaticInfo} (ha : a ∈ as) :
      Yields (R.ofType (StaticInfo.commonType (as.map (·.2)))) a.2.cardinality.least
        a.2.cardinality.most k (a.1.items f) :=
    yields_commonType _ (List.mem_map_of_mem ha) (h a ha).items
  refine .ofItemsAndPush n ?_ ?_
  · have hall := Yields.concat fun a ha => hitem ha
    rw [List.map_map]
    exact hall.imp (fun _ _ _ => id) hl hm
  · have hpush := runs_mapM_push fun a ha => fits_commonType _ (List.mem_map_of_mem ha) (h a ha).push
    apply hpush.bind
    intro m xss _ hxss
    apply runs_pure
    intro m' hm'
    exact (hxss.later hm').imp (fun _ => id) hl hm

end Regime
end XPath
