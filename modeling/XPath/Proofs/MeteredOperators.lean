import XPath.Proofs.Metering

/-!
How often the operators start what is put off. An operator adds what its operands add, each of which it evaluates once,
or else for every item of another one.
-/
namespace XPath

namespace Meter
variable {M : Meter} {a b d : Ways} {f : Frame} {m k l : ℕ∞} {β : Slot → ℕ∞} {v : Value}

/-! Values and frames. -/

/-- Using the value adds so many starts at most. -/
def Holds (M : Meter) (b : ℕ∞) : Value → Prop
  | .items _ => True
  | .deferred d _ => M.Yields b d.start

/-- Using a variable adds so many starts at most. -/
def HasFrame (M : Meter) (β : Slot → ℕ∞) (f : Frame) : Prop := ∀ s v, f.slots s = some v → M.Holds (β s) v

theorem Holds.source (h : M.Holds m v) : M.Yields m v.source := by
  cases v with
  | items xs => exact yields_ofList xs
  | deferred p skip => exact (yields_deferred h).drop skip

theorem Holds.toList (h : M.Holds m v) : M.Runs m v.toList fun _ => True := by
  cases v with
  | items xs => exact runs_pure trivial
  | deferred p skip => exact (runs_deferred h).gives fun _ _ => trivial

theorem Holds.tail (h : M.Holds m v) {n : ℕ} {t : Value} (ht : v.tail? n = some t) : M.Holds m t := by
  obtain ⟨xs, rfl, rfl⟩ | ⟨p, skip, rfl, -, rfl⟩ := Value.exists_of_tail? ht
  · trivial
  · exact h

namespace HasFrame

theorem bind (h : M.HasFrame β f) {slot : Slot} (hv : M.Holds m v) :
    M.HasFrame (Function.update β slot m) (f.bind slot v) := by
  intro s u hu
  unfold Frame.bind at hu
  dsimp only at hu
  split at hu
  · next hs =>
    subst hs
    cases hu
    rwa [Function.update_self]
  · next hs =>
    rw [Function.update_of_ne hs]
    exact h s u hu

theorem withFocus (h : M.HasFrame β f) (x : Item) (n : ℕ) (size : Option ℕ) : M.HasFrame β (f.withFocus x n size) := h

theorem capture (h : M.HasFrame β f) (slots : List Slot) : M.HasFrame β (f.capture slots) := by
  intro s u hu
  unfold Frame.capture at hu
  dsimp only at hu
  split at hu
  · exact h s u hu
  · cases hu

end HasFrame

theorem runs_contextItem : M.Runs m f.contextItem fun _ => True := runs_require_any _ _

theorem runs_contextNode : M.Runs m f.contextNode fun _ => True :=
  runs_contextItem.first fun _ _ => runs_require_any _ _

/-! Ways of evaluating. -/

/-- Whatever way it is evaluated, it adds so many starts at most. -/
structure Bounds (M : Meter) (m : ℕ∞) (a : Ways) (f : Frame) : Prop where
  item : M.Runs m (a.item f) fun _ => True
  items : M.Yields m (a.items f)
  push : M.Runs m (a.push f) fun _ => True

/-- The same with any item as the focus. -/
def BoundsUnderFocus (M : Meter) (m : ℕ∞) (a : Ways) (f : Frame) : Prop :=
  ∀ x n size, M.Bounds m a (f.withFocus x n size)

namespace Bounds

theorem of_le (h : M.Bounds m a f) (hle : m ≤ k) : M.Bounds k a f :=
  ⟨h.item.of_le hle, h.items.of_le hle, h.push.of_le hle⟩

theorem ofItem (n : Note) {x : Frame → Eval (Option Item)} (h : M.Runs m (x f) fun _ => True) :
    M.Bounds m (.ofItem n x) f := by
  have hitems : M.Yields m ((Ways.ofItem n x).items f) := yields_list (g := Option.toList) (h.orAt n.location)
  exact ⟨h.orAt n.location, hitems, hitems.toList⟩

theorem ofItemsAndPush (n : Note) {x : Frame → Items} {p : Frame → Eval (List Item)} (h : M.Yields m (x f))
    (hp : M.Runs m (p f) fun _ => True) : M.Bounds m (.ofItemsAndPush n x p) f :=
  ⟨(h.mapError _).only? _, h.mapError _, hp.orAt n.location⟩

theorem ofItems (n : Note) {x : Frame → Items} (h : M.Yields m (x f)) : M.Bounds m (.ofItems n x) f :=
  ofItemsAndPush n h h.toList

theorem nothing : M.Bounds m .nothing f := ofItems _ yields_empty

theorem toList (h : M.Bounds m a f) : M.Runs m (a.toList f) fun _ => True := h.items.toList

theorem truth (h : M.Bounds m a f) : M.Runs m (a.truth f) fun _ => True := (h.items.truth _).orAt _

theorem holdsAt (h : M.Bounds m a f) (n : ℕ) : M.Runs m (a.holdsAt f n) fun _ => True := h.items.truth _

theorem values (h : M.Bounds m a f) : M.Yields m (a.values f) := h.items.reads (Q := fun _ => True) runs_value

theorem value? (h : M.Bounds m a f) : M.Runs m (a.value? f) fun _ => True :=
  h.item.then fun _ _ => Runs.optionMapM runs_value

theorem text (h : M.Bounds m a f) : M.Runs m (a.text f) fun _ => True := h.value?.gives fun _ _ => trivial

theorem nodes (h : M.Bounds m a f) : M.Runs m (a.nodes f) fun _ => True :=
  (h.items.reads (Q := fun _ => True) fun _ => runs_require_any _ _).toList.then fun _ _ => runs_ordering _

end Bounds

/-! Operators without operands. -/

theorem runs_stepNodes (axis : Axis) (test : NodeTest) : M.Runs m (stepNodes axis test f) fun _ => True := by
  refine runs_contextNode.first fun i _ => runs_forest.first fun t _ => ?_
  dsimp only
  split
  · exact (runs_ordering _).gives fun _ _ => trivial
  · exact runs_pure trivial

theorem runs_documentOf : M.Runs m (documentOf f) fun _ => True :=
  runs_contextNode.first fun _ _ => runs_forest.first fun _ _ => (runs_require_any _ _).gives fun _ _ => trivial

/-- What using a variable adds. Declared variables have lists of items. -/
def shareOf (β : Slot → ℕ∞) : VariableRef → ℕ∞
  | .range s => β s
  | .global _ => 0

theorem HasFrame.valueOf (h : M.HasFrame β f) (c : DynamicContext) (r : VariableRef) :
    M.Runs 0 (f.valueOf c r) (M.Holds (shareOf β r)) := by
  cases r with
  | range slot => exact runs_require fun v hv => h slot v hv
  | global n =>
    refine runs_require fun v hv => ?_
    obtain ⟨xs, -, rfl⟩ := Option.map_eq_some_iff.1 hv
    trivial

/-- A variable adds what its value adds, and no other leaf adds anything. -/
theorem bounds_leaf (n : Note) (op : LeafOp) (c : DynamicContext) (hf : M.HasFrame β f)
    (hm : ∀ r, op = .variable r → shareOf β r ≤ m) : M.Bounds m (op.ways c n) f := by
  cases op with
  | literal cs =>
    rw [LeafOp.ways_literal]
    exact .ofItems n (yields_ofList _)
  | «variable» r =>
    have hitems := yields_after ((hf.valueOf c r).gives fun _ hv => hv.source)
    exact .ofItems n (hitems.of_le (by rw [zero_add]; exact hm r rfl))
  | contextItem => exact .ofItem n (runs_contextItem.map fun _ _ => trivial)
  | root => exact .ofItem n (runs_documentOf.gives fun _ _ => trivial)
  | step axis test => exact .ofItems n (yields_list (g := List.map Item.node) (runs_stepNodes axis test))

/-! Operators with one operand. -/

theorem runs_sortItems (xs : List Item) : M.Runs m (sortItems xs) fun _ => True := by
  unfold sortItems
  dsimp only
  split
  · exact runs_pure trivial
  · split
    · exact (runs_ordering _).map fun _ _ => trivial
    · exact runs_fail _

theorem runs_lift (g : Atomic → Except ErrorCode Atomic) (ha : M.Bounds m a f) :
    M.Runs m (UnaryOp.lift g a f) fun _ => True :=
  ha.value?.then fun _ _ => Runs.optionMapM fun v => (runs_ofExcept (g v)).gives fun _ _ => trivial

theorem bounds_unary (n : Note) (op : UnaryOp) (ha : M.Bounds m a f) : M.Bounds m (op.ways n a) f := by
  cases op with
  | negate => exact .ofItem n (runs_lift _ ha)
  | plus => exact .ofItem n (runs_lift _ ha)
  | sort =>
    refine .ofItems n ((yields_after (b := 0) (ha.toList.then fun xs _ => ?_)).of_le (add_zero m).le)
    exact (runs_sortItems xs).gives fun _ _ => yields_ofList _
  | reverse => exact .ofItems n (yields_list (g := List.reverse) ha.toList)
  | first => exact .ofItem n ha.items.head?
  | last => exact .ofItem n (ha.items.folds (fun _ _ => runs_pure trivial) none)
  | slice min max =>
    refine .ofItems n ?_
    unfold Ways.slice
    cases max with
    | none => exact ha.items.drop _
    | some max =>
      dsimp only
      split
      · exact yields_empty
      · exact (ha.items.drop _).take _
  | cast target allowsEmpty =>
    refine .ofItem n (ha.value?.then fun o _ => ?_)
    cases o with
    | none =>
      dsimp only
      split
      · exact runs_pure trivial
      · exact runs_fail _
    | some v => exact (runs_ofExcept _).gives fun _ _ => trivial
  | castable target allowsEmpty =>
    refine .ofItem n (ha.values.toList.then fun vs _ => ?_)
    split <;> exact runs_pure trivial
  | treat type =>
    refine .ofItems n ((yields_after (b := 0) (ha.toList.then fun xs _ => runs_forest.first fun t _ => ?_)).of_le
      (add_zero m).le)
    split
    · exact runs_pure (yields_ofList xs)
    · exact runs_fail _
  | instanceOf type => exact .ofItem n (ha.toList.then fun _ _ => runs_forest.gives fun _ _ => trivial)
  | element name =>
    have hmake := ha.toList.then (Q := fun _ => True) fun xs _ =>
      (runs_modifyForest (M := M) fun t => ((Construction.start t name.nodeName).appendContent [] xs).finish).gives
        (Q := fun _ => True) (g := fun i => [Item.node i]) fun _ _ => trivial
    exact .ofItemsAndPush n (yields_list (g := id) hmake) hmake
  | text =>
    have hmake : M.Runs m (do
        let s := " ".intercalate ((← (a.values f).toList).map (·.text))
        if s.isEmpty then return [] else return [Item.node (← Eval.modifyForest (·.addText s))]) fun _ => True := by
      refine ha.values.toList.then fun vs _ => ?_
      dsimp only
      split
      · exact runs_pure trivial
      · exact (runs_modifyForest _).gives fun _ _ => trivial
    exact .ofItemsAndPush n (yields_list (g := id) hmake) hmake

/-! Operators with two operands, both of which are evaluated once. -/

theorem runs_lift₂ (g : Atomic → Atomic → Except ErrorCode Atomic) (ha : M.Bounds m a f) (hb : M.Bounds k b f) :
    M.Runs (m + k) (BinaryOp.lift g a b f) fun _ => True := by
  refine ha.value?.bind fun x _ => hb.value?.then fun y _ => ?_
  split
  · exact (runs_ofExcept _).gives fun _ _ => trivial
  · exact runs_pure trivial

theorem runs_compareAny (op : ComparisonOp) (ha : M.Bounds m a f) (hb : M.Bounds k b f) :
    M.Runs (m + k) (BinaryOp.compareAny op a b f) fun _ => True := by
  refine ha.values.toList.bind fun left _ => ?_
  split
  · exact runs_pure trivial
  · refine hb.values.folds (fun _ y => (runs_ofExcept _).then fun found _ => ?_) false
    split <;> exact runs_pure trivial

theorem runs_compareNodes (op : NodeComparisonOp) (ha : M.Bounds m a f) (hb : M.Bounds k b f) :
    M.Runs (m + k) (BinaryOp.compareNodes op a b f) fun _ => True := by
  refine ha.item.bind fun x _ => hb.item.then fun y _ => ?_
  split
  · cases op with
    | is => exact runs_pure trivial
    | precedes => exact (runs_ordering _).gives fun _ _ => trivial
    | follows => exact (runs_ordering _).gives fun _ _ => trivial
  · exact runs_fail _
  · exact runs_pure trivial

theorem runs_rangeEnd (ha : M.Bounds m a f) : M.Runs m (BinaryOp.rangeEnd a f) fun _ => True := by
  refine ha.value?.then fun o _ => ?_
  split
  · exact runs_pure trivial
  · exact (runs_ofExcept _).map fun _ _ => trivial
  · exact runs_pure trivial
  · exact runs_fail _

theorem yields_count (i : ℤ) (n : ℕ) : M.Yields m (BinaryOp.count i n) := by
  induction n generalizing i with
  | zero => exact yields_empty
  | succ n ih => exact fun _ _ hw => .item hw le_rfl (ih (i + 1))

theorem yields_integers (ha : M.Bounds m a f) (hb : M.Bounds k b f) : M.Yields (m + k) (BinaryOp.integers a b f) := by
  refine (yields_after (b := 0) ((runs_rangeEnd ha).bind fun _ _ => (runs_rangeEnd hb).then fun _ _ => ?_)).of_le
    (add_zero _).le
  split
  · exact runs_pure (yields_count _ _)
  · exact runs_pure yields_empty

theorem runs_combine (op : SetOp) (ha : M.Bounds m a f) (hb : M.Bounds k b f) :
    M.Runs (m + k) (BinaryOp.combine op a b f) fun _ => True := by
  refine ha.nodes.bind fun is _ => hb.nodes.then fun js _ => ?_
  cases op with
  | union => exact runs_ordering _
  | intersect => exact runs_pure trivial
  | except => exact runs_pure trivial

theorem runs_itemAt (ha : M.Bounds m a f) (hb : M.Bounds k b f) : M.Runs (m + k) (a.itemAt b f) fun _ => True := by
  rw [add_comm]
  refine hb.value?.bind fun o _ => ?_
  split
  · exact ha.items.get? _
  · exact runs_pure trivial

/-! Operators that evaluate the second operand for every item of the first one. -/

/-- Items that are counted are evaluated at once, others when they are asked for. -/
theorem yields_counted {g : Items × Option ℕ → Items} (ha : M.Bounds m a f)
    (hg : ∀ xs size, M.Yields 0 xs → M.Yields k (g (xs, size)))
    (hg' : ∀ xs size, M.Yields m xs → M.Yields (m + k) (g (xs, size))) :
    M.Yields (m + k) (.after (return g (← a.counted b f))) := by
  unfold Ways.counted
  split
  · rw [bind_assoc]
    exact yields_after (ha.toList.then fun xs _ => by
      rw [pure_bind]
      exact runs_pure (hg _ _ (yields_ofList xs)))
  · rw [pure_bind]
    refine (yields_after (a := 0) (runs_pure (hg' _ _ ha.items))).of_le (zero_add _).le

theorem yields_path (ha : M.Bounds m a f) (hb : M.BoundsUnderFocus k b f) : M.Yields (m + ⊤ * k) (a.path b f) := by
  have hright (size : Option ℕ) (n : ℕ) (x : Item) : M.Yields k
      (if x.node?.isSome then b.items (f.withFocus x n size) else .fail { code := .pathOnNonNode }) := by
    split
    · exact (hb x n size).items
    · exact yields_fail _
  refine yields_counted ha (fun xs size hxs => ?_) fun xs size hxs => hxs.bind (hright size)
  exact (hxs.bind (hright size)).of_le (zero_add _).le

theorem yields_selectEach (ha : M.Bounds m a f) (hb : M.BoundsUnderFocus k b f) :
    M.Yields (m + ⊤ * k) (a.selectEach b f) := by
  refine yields_counted ha (fun xs size hxs => ?_) fun xs size hxs =>
    hxs.filterM fun n x => (hb x n size).holdsAt n
  exact (hxs.filterM fun n x => (hb x n size).holdsAt n).of_le (zero_add _).le

theorem yields_selectOnce (ha : M.Bounds m a f) (hb : M.Bounds k b f) : M.Yields (m + k) (a.selectOnce b f) := by
  rw [add_comm]
  refine yields_after (hb.toList.then fun v _ => ?_)
  split
  · split
    · refine runs_pure ?_
      split
      · exact (ha.items.drop _).take 1
      · exact yields_empty
    · refine runs_pure ?_
      split
      · exact ha.items
      · exact yields_empty
  · refine (runs_ofExcept _).gives fun c _ => ?_
    split
    · exact ha.items
    · exact yields_empty

theorem yields_select (ha : M.Bounds m a f) (hb : M.BoundsUnderFocus k b f) (honce : M.Bounds k b f) :
    M.Yields (m + ⊤ * k) (a.select b f) := by
  unfold Ways.select
  split
  · exact yields_selectEach ha hb
  · exact (yields_selectOnce ha honce).of_le (by gcongr; exact le_top_mul k)

theorem runs_quantify (q : Quantifier) (slot : Slot) (ha : M.Bounds m a f)
    (hb : ∀ x, M.Bounds k b (f.bind slot (.items [x]))) :
    M.Runs (m + ⊤ * k) (BinaryOp.quantify q slot a b f) fun _ => True := by
  refine ha.items.forIn (fun _ x => (hb x).truth.then fun _ _ => ?_) _
  split <;> exact runs_pure trivial

theorem runs_makeIndex (ha : M.Bounds m a f) (hb : M.BoundsUnderFocus k b f) :
    M.Runs (m + ⊤ * k) (a.makeIndex b f) fun _ => True := by
  refine ha.toList.bind fun xs _ => (Runs.listMapM (b := k) fun y _ => ?_).gives fun _ _ => trivial
  exact (hb y.1 (y.2 + 1) xs.length).values.toList.gives fun _ _ => trivial

theorem runs_findIndex (key : IndexKey) (ha : M.Bounds m a f) (hb : M.BoundsUnderFocus k b f) :
    M.Runs (m + ⊤ * k) (a.findIndex key b f) fun _ => True := by
  intro n w hw
  rw [Regime.perform_findIndex]
  cases w.indexes.lookup key with
  | some x => exact runs_pure trivial n w hw
  | none => exact (runs_makeIndex ha hb).then (fun _ _ => runs_of_cells fun _ => rfl) n w hw

theorem runs_selectByKey (exprs : Expr × Expr) (ha : M.Bounds m a f) (hb : M.BoundsUnderFocus k b f)
    (hd : M.Bounds l d f) : M.Runs (m + ⊤ * k + l) (a.selectByKey exprs b d f) fun _ => True := by
  rw [add_comm]
  refine hd.values.toList.bind fun vs _ => ?_
  have hlookup {p : Eval Index} (hp : M.Runs (m + ⊤ * k) p fun _ => True) :
      M.Runs (m + ⊤ * k) (do Eval.ofExcept ((← p).lookup vs)) fun _ => True :=
    hp.then fun _ _ => runs_ofExcept _
  split
  · exact runs_pure trivial
  · dsimp only
    split
    · refine runs_contextItem.first fun x _ => ?_
      split
      · exact hlookup (runs_findIndex _ ha hb)
      · exact hlookup (runs_makeIndex ha hb)
    · exact hlookup (runs_findIndex _ ha hb)

end Meter
end XPath
