import XPath.Atomic.Compare
import XPath.Proofs.Numbers

/-!
Indexes find what comparing finds. The operands of a general comparison may change places; texts are equal if their
characters are. So whether keys are hashed or each is compared with all values, the items that are found are those of
which some key equals some value, in the order of the index.
-/
namespace XPath

/-! Both operands of a comparison may change places. -/

theorem Binary.compare?_swap (x y : Binary) : y.compare? x = (x.compare? y).map Ordering.swap := by
  cases x with
  | nan => cases y <;> rfl
  | infinite s =>
    cases y with
    | nan => rfl
    | infinite t => cases s <;> cases t <;> rfl
    | finite t n g => cases s <;> rfl
  | finite s m e =>
    cases y with
    | nan => rfl
    | infinite t => cases t <;> rfl
    | finite t n g =>
      unfold compare?
      dsimp only
      rw [min_comm g e, Option.map_some, Int.compare_swap]

theorem Decimal.compare_swap (x y : Decimal) : y.compare x = (x.compare y).swap := by
  unfold compare
  dsimp only
  rw [max_comm y.scale, Int.compare_swap]

namespace Atomic

theorem compareText_swap (s t : String) : compareText t s = (compareText s t).swap := by
  unfold compareText
  exact compareOfLessAndEq_eq_swap (fun h h' => le_antisymm h h') le_total not_le

theorem order?_swap (a b : Atomic) : order? b a = (order? a b).map (·.map Ordering.swap) := by
  cases a <;> cases b <;> try rfl
  case integer.integer i _ j => exact congrArg (some ∘ some) (Int.compare_swap i j).symm
  case decimal.decimal x y => exact congrArg (some ∘ some) (Decimal.compare_swap x y)
  case float.float x y => exact congrArg some (Binary.compare?_swap x y)
  case double.double x y => exact congrArg some (Binary.compare?_swap x y)
  case string.string s t => exact congrArg (some ∘ some) (compareText_swap s t)
  case boolean.boolean c d => exact congrArg (some ∘ some) (Nat.compare_swap c.toNat d.toNat).symm

theorem promote_swap (a b : Atomic) : promote b a = (promote a b).map Prod.swap := by
  have hpair {α : Type} {r : Except ErrorCode α} {g : α → Atomic × Atomic} :
      (do return (g (← r)).swap) = (do return g (← r) : Except ErrorCode (Atomic × Atomic)).map Prod.swap := by
    cases r <;> rfl
  cases a <;> cases b <;> try first | rfl | exact hpair
  case decimal.integer d t i =>
    unfold promote
    cases (integer t i).toDecimal <;> rfl
  case integer.decimal t i d =>
    unfold promote
    cases (integer t i).toDecimal <;> rfl

theorem compareValues_inverse (op : ComparisonOp) (a b : Atomic) :
    compareValues op.inverse b a = compareValues op a b := by
  unfold compareValues
  rw [promote_swap]
  cases promote a.untypedToString b.untypedToString with
  | error code => rfl
  | ok p =>
    obtain ⟨x, y⟩ := p
    dsimp only [Except.map, Prod.swap, bind, Except.bind]
    rw [order?_swap]
    cases order? x y with
    | none => rfl
    | some o =>
      cases o with
      | none => cases op <;> rfl
      | some o => cases op <;> cases o <;> rfl

/-- A general comparison is the same with the operands swapped and the operator inverted. -/
theorem compareGeneral_inverse (op : ComparisonOp) (a b : Atomic) :
    compareGeneral op.inverse b a = compareGeneral op a b := by
  unfold compareGeneral
  cases a.isUntyped <;> cases b.isUntyped <;> simp only [compareValues_inverse]

theorem eq_of_isText {k : Atomic} (h : Index.isText k) : k = string k.text ∨ k = untyped k.text := by
  cases k <;> first | exact .inl rfl | exact .inr rfl | cases h

/-- Two texts are equal if they are the same, whether or not they have a type. -/
theorem compareGeneral_text {k v : Atomic} (hk : Index.isText k) (hv : Index.isText v) :
    k.compareGeneral .eq v = .ok (k.text == v.text) := by
  have hcompare (s t : String) : (compareText s t == .eq) = (s == t) := by
    unfold compareText compareOfLessAndEq
    by_cases h : s = t
    · subst h
      rw [if_neg (lt_irrefl s), if_pos rfl, beq_self_eq_true, beq_self_eq_true]
    · rw [if_neg h, beq_eq_false_iff_ne.2 h]
      split <;> rfl
  obtain hk | hk := eq_of_isText hk <;> obtain hv | hv := eq_of_isText hv <;> rw [hk, hv] <;>
    exact congrArg Except.ok (hcompare k.text v.text)

end Atomic

/-! Keys that are hashed. -/

namespace Index
variable {places : Std.HashMap String (List ℕ)} {n i : ℕ} {t : String} {es : List (Item × List Atomic)} {vs : List Atomic}

theorem mem_getD_note (ks : List Atomic) :
    i ∈ (ks.foldl (fun m k => m.insert k.text (n :: m.getD k.text [])) places).getD t [] ↔
      i ∈ places.getD t [] ∨ i = n ∧ ∃ k ∈ ks, k.text = t := by
  induction ks generalizing places with
  | nil => simp
  | cons k ks ih =>
    rw [List.foldl_cons, ih, Std.HashMap.getD_insert, List.exists_mem_cons_iff]
    by_cases h : k.text = t
    · rw [if_pos (beq_iff_eq.2 h), h, List.mem_cons]
      tauto
    · rw [if_neg (by simpa using h)]
      tauto

/-- The places of a text are those of the items that have it as a key. -/
theorem mem_getD_fill : i ∈ (fill places n es).getD t [] ↔
    i ∈ places.getD t [] ∨ ∃ e, (e, i) ∈ es.zipIdx n ∧ ∃ k ∈ e.2.filter isText, k.text = t := by
  induction es generalizing places n with
  | nil => simp [fill]
  | cons e es ih =>
    obtain ⟨x, ks⟩ := e
    rw [fill, ih, mem_getD_note, List.zipIdx_cons]
    constructor
    · rintro ((h | ⟨rfl, h⟩) | ⟨e, he, h⟩)
      · exact .inl h
      · exact .inr ⟨(x, ks), List.mem_cons_self, h⟩
      · exact .inr ⟨e, List.mem_cons_of_mem _ he, h⟩
    · rintro (h | ⟨e, he, h⟩)
      · exact .inl (.inl h)
      · obtain heq | he := List.mem_cons.1 he
        · cases heq
          exact .inl (.inr ⟨rfl, h⟩)
        · exact .inr ⟨e, he, h⟩

theorem mem_eraseReps_loop {as : List ℕ} (a : ℕ) (acc : List ℕ) :
    i ∈ List.eraseRepsBy.loop (· == ·) a as acc ↔ i = a ∨ i ∈ as ∨ i ∈ acc := by
  induction as generalizing a acc with
  | nil => simp [List.eraseRepsBy.loop, or_comm]
  | cons b as ih =>
    rw [List.eraseRepsBy.loop, List.mem_cons]
    split
    · next heq =>
      obtain rfl : a = b := beq_iff_eq.1 heq
      rw [ih]
      tauto
    · rw [ih, List.mem_cons]
      tauto

theorem mem_eraseReps (as : List ℕ) : i ∈ as.eraseReps ↔ i ∈ as := by
  unfold List.eraseReps List.eraseRepsBy
  cases as with
  | nil => rfl
  | cons a as =>
    dsimp only
    rw [mem_eraseReps_loop, List.mem_cons]
    simp

/-- Keys and values that are texts are compared by their texts. -/
theorem matchesAny_text {ks vs : List Atomic} (hks : ks.all isText) (hvs : vs.all isText) :
    matchesAny ks vs = .ok (ks.any fun k => vs.any fun v => k.text == v.text) :=
  anyM_of_forall fun _ hk => anyM_of_forall fun _ hv =>
    Atomic.compareGeneral_text (List.all_eq_true.1 hks _ hk) (List.all_eq_true.1 hvs _ hv)

/-- What is looked up is what is found by comparing all keys with the values. -/
theorem lookup_ofEntries (es : List (Item × List Atomic)) (vs : List Atomic) :
    (ofEntries es).lookup vs = (es.filterM fun e => matchesAny e.2 vs).map (·.map (·.1)) := by
  unfold lookup
  split
  · next h =>
    obtain ⟨hks, hvs⟩ := Bool.and_eq_true_iff.1 h
    have hks (e : Item × List Atomic) (he : e ∈ es) : e.2.all isText := List.all_eq_true.1 hks e he
    let found (e : Item × List Atomic) : Bool := e.2.any fun k => vs.any fun v => k.text == v.text
    have hplaces : (vs.flatMap fun v => (ofEntries es).places.getD v.text []).mergeSort.eraseReps =
        (es.zipIdx.filter (found ·.1)).map (·.2) := by
      refine (pairwise_eraseReps _).eq_of_mem_iff ?_ fun i => ?_
      · exact (List.zipIdx_map_snd 0 es ▸ List.pairwise_lt_range').sublist (List.filter_sublist.map _)
      · rw [mem_eraseReps, List.mem_mergeSort, List.mem_flatMap, List.mem_map]
        constructor
        · rintro ⟨v, hv, hi⟩
          obtain hi | ⟨e, he, k, hk, htext⟩ := mem_getD_fill.1 hi
          · simp at hi
          · refine ⟨(e, i), List.mem_filter.2 ⟨he, ?_⟩, rfl⟩
            exact List.any_eq_true.2 ⟨k, (List.mem_filter.1 hk).1, List.any_eq_true.2 ⟨v, hv, beq_iff_eq.2 htext⟩⟩
        · rintro ⟨⟨e, _⟩, he, rfl⟩
          obtain ⟨he, hfound⟩ := List.mem_filter.1 he
          obtain ⟨k, hk, hfound⟩ := List.any_eq_true.1 hfound
          obtain ⟨v, hv, htext⟩ := List.any_eq_true.1 hfound
          have hkey := List.all_eq_true.1 (hks e (List.fst_mem_of_mem_zipIdx he)) k hk
          exact ⟨v, hv, mem_getD_fill.2 (.inr ⟨e, he, k, List.mem_filter.2 ⟨hk, hkey⟩, beq_iff_eq.1 htext⟩)⟩
    have hentries : ((es.zipIdx.filter (found ·.1)).map (·.2)).filterMap ((ofEntries es).entries[·]?) =
        es.filter found := by
      rw [List.filterMap_map, List.filterMap_congr (g := some ∘ Prod.fst) fun q hq => ?_]
      · rw [List.filterMap_eq_map]
        exact (List.filter_map ..).symm.trans (congrArg (List.filter found) (List.zipIdx_map_fst 0 es))
      · have hq' := List.mk_mem_zipIdx_iff_getElem?.1 (List.mem_filter.1 hq).1
        exact (List.getElem?_toArray ..).trans hq'
    rw [filterM_of_forall fun e he => matchesAny_text (hks e he) hvs]
    dsimp only
    rw [hplaces, hentries]
    rfl
  · change (es.filterM fun e => matchesAny e.2 vs) >>= _ = _
    cases es.filterM fun e => matchesAny e.2 vs <;> rfl

end Index

end XPath
