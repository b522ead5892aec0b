import XPath.Proofs.Narrowing
import XPath.Proofs.Loops

/-!
A filter in the form that its predicate allows gives what the filter gives. A predicate that is answered as a whole may
be so in every frame and every world. Where a conjunction is split, its sides are asked in another order and each of
fewer items; and where a sort is dropped, less is asked about the order of the trees.
-/
namespace XPath

namespace Positions
variable {i : ℤ}

/-- A number stands for the positions that are equal to it. -/
theorem ofPosition_eq_ofInts {v : Atomic} (hv : v.isNumeric) (h : v.toIndex? = some i) :
    ofPosition v.position? = ofInts i (some i) := by
  rw [Atomic.position?_of_toIndex? hv h]
  split
  · next hpos =>
    have hone : Max.max i.toNat 1 = i.toNat := by omega
    rw [ofPosition, ofInts, hone, Option.map_some]
  · next hpos =>
    have hzero : i.toNat = 0 := by omega
    rw [ofPosition, ofInts, Option.map_some, hzero]
    rfl

theorem ofPosition_eq_none {v : Atomic} (h : v.toIndex? = .none) : ofPosition v.position? = none := by
  unfold Atomic.position?
  rw [h]
  cases v.isNumeric <;> rfl

end Positions

theorem Atomic.toIndex?_lt {i j : ℤ} (h : (Atomic.ofInt i).toIndex? = some j) : j < pow2 63 := by
  unfold Atomic.toIndex? Atomic.ofInt at h
  dsimp only at h
  split at h
  · next hrange =>
    cases h
    exact hrange.2
  · cases h

namespace Expr
variable {c : DynamicContext} {f : Frame} {w w' : World} {n m : Note} {positional positional' : Bool}
  {base P : Expr} {ys : List Item}

/-- Only the operands of a filter count for the items that it gives. -/
theorem filter_congr (h : (binary n (.filter positional) base P).result c f w = .ok ys) :
    (binary m (.filter positional') base P).result c f w = .ok ys := by
  rw [result_filter] at h ⊢
  rw [ok_of_mapError h]
  rfl

/-- The only item, asked for as such. -/
theorem perform_value? {v : Atomic} (h : ((P.meaning c).toList f).perform w = (.ok [.atomic v], w')) :
    ((P.meaning c).value? f).perform w = (.ok (some v), w') := by
  have honly := (P.coherent c).item f w
  rw [h] at honly
  unfold Ways.value?
  rw [Regime.perform_bind, show ((P.meaning c).item f).perform w = _ from honly]
  rfl

/-- An expression has one value in a frame and a world. -/
theorem IsOfType.of_result (ys : List Item) (h : P.result c f w = .ok ys)
    (htype : P.type.holds (((P.meaning c).toList f).perform w).2.forest ys) (hproper : ∀ v, .atomic v ∈ ys → v.IsProper) :
    P.IsOfType c f w := by
  intro xs w' hxs
  rw [hxs] at htype
  rw [result, hxs] at h
  cases h
  exact ⟨htype, hproper⟩

theorem IsOfType.of_error {e : Failure} (h : P.result c f w = .error e) : P.IsOfType c f w := by
  intro xs w' hxs
  rw [result, hxs] at h
  cases h

theorem IsOfType.of_truth {t : Bool} (hitem : P.itemType = .atomic .boolean) (hcount : P.cardinality.allows 1)
    (h : ((P.meaning c).toList f).perform w = (.ok [.atomic (.boolean t)], w')) : P.IsOfType c f w := by
  have hresult : P.result c f w = .ok [.atomic (.boolean t)] := congrArg Prod.fst h
  refine .of_result _ hresult ?_ fun v hv => ?_
  · refine Bool.and_eq_true_iff.2 ⟨hcount, List.all_eq_true.2 fun x hx => ?_⟩
    obtain rfl := List.mem_singleton.1 hx
    change P.itemType.holds _ _ = true
    rw [hitem]
    rfl
  · cases List.mem_singleton.1 hv
    trivial

/-- A number that is the same for every item is a number. -/
theorem IsOfType.number (h : P.IsOfType c f w) (hinvariant : P.isInvariantNumber) {v : List Item}
    (hv : ((P.meaning c).toList f).perform w = (.ok v, w')) : ∃ a : Atomic, v = [.atomic a] ∧ a.isNumeric := by
  obtain ⟨htype, hproper⟩ := h v w' hv
  unfold isInvariantNumber at hinvariant
  simp only [Bool.and_eq_true, decide_eq_true_iff] at hinvariant
  obtain ⟨⟨⟨hnumber, hone⟩, -⟩, -⟩ := hinvariant
  obtain ⟨hcount, hitems⟩ := Bool.and_eq_true_iff.1 htype
  rw [show P.type.cardinality = .one from hone] at hcount
  have hbounds := Bool.and_eq_true_iff.1 hcount
  obtain ⟨x, rfl⟩ := List.length_eq_one_iff.1
    (Nat.le_antisymm (of_decide_eq_true hbounds.2) (of_decide_eq_true hbounds.1))
  have hitem := List.all_eq_true.1 hitems x (List.mem_singleton_self x)
  change P.itemType.holds w'.forest x at hitem
  split at hnumber
  · next t ht =>
    rw [ht] at hitem
    cases x with
    | node i => cases hitem
    | atomic a => exact ⟨a, rfl, (Atomic.computedAs_of_type (hproper a (List.mem_singleton_self _)) hitem hnumber).1⟩
  · cases hnumber

/-- The specialization does not split a conjunction. -/
theorem specialize_of_not_splits {index : Bool}
    (h : ¬ (base.selectWhole? P n.location = none ∧ P.splits)) : (specialize n positional index base P).1 =
      (base.selectWhole? P n.location).getD (filterPlainly n positional index base P).1 := by
  cases P with
  | binary k op a b =>
    cases op with
    | and =>
      unfold specialize
      dsimp only
      split
      · next he => rw [he]; rfl
      · next hnone =>
        have hsides : a.readsPosition = b.readsPosition := by
          simpa [splits, hnone] using h
        rw [hnone, hsides]
        simp only [Bool.and_not_self, Bool.false_eq_true, if_false, Option.getD_none]
    | _ => unfold specialize; split <;> next he => rw [he]; rfl
  | _ => unfold specialize; split <;> next he => rw [he]; rfl

end Expr

namespace Typing
open XPath.Expr
variable {context : StaticContext} {v : CompileUnit} {base P e : Expr} {at' : LocationId}

/-- The cheaper form gives what the filter gives, wherever the base gives fewer items than there are positions and the
predicate gives what its type says. -/
def Answers (base P g : Expr) : Prop :=
  ∀ {n positional c f w ys}, (∀ xs, base.result c f w = .ok xs → (xs.length : ℤ) < largestIndex) → P.IsOfType c f w →
    (binary n (.filter positional) base P).result c f w = .ok ys → g.result c f w = .ok ys

/-- A predicate that is a constant. -/
theorem rechecks_constant (hbase : base.All (IsChecked context v)) {k : Constant}
    (h : base.selectConstant? at' k = some e) : ∃ g, Rechecks context v e g ∧ ∀ c f w, g.result c f w =
      delivered (Ways.chosenBy [.atomic (.ofConstant k)] ((base.meaning c).outcomes f w)) := by
  have htruth {t : Bool} {k : Constant} (hk : (Atomic.ofConstant k).isNumeric = false)
      (ht : (Atomic.ofConstant k).truth = t) : ∃ g, Rechecks context v (if t then base else .emptyAt at') g ∧
        ∀ c f w, g.result c f w =
          delivered (Ways.chosenBy [.atomic (.ofConstant k)] ((base.meaning c).outcomes f w)) := by
    unfold Ways.chosenBy
    dsimp only
    rw [hk, ht]
    cases t with
    | true => exact ⟨base, .of_all hbase, fun c f w => Source.toList_eq _ w⟩
    | false =>
      obtain ⟨n, hn⟩ : ∃ n, Rechecks context v _ (leaf n (.literal [])) := rechecks_literal [] at'
      exact ⟨_, hn, fun c f w => rfl⟩
  cases k with
  | integer i =>
    obtain ⟨p, hp, hproper, heq⟩ : ∃ p : Positions, base.selectConstant? at' (.integer i) = some (base.select p at') ∧
        p.IsProper ∧ Positions.ofPosition (Atomic.ofInt i).position? = p := by
      cases hindex : (Atomic.ofInt i).toIndex? with
      | some j =>
        exact ⟨.ofInts j (some j), by simp only [selectConstant?, hindex],
          Positions.isProper_ofInts (Atomic.toIndex?_lt hindex) _, Positions.ofPosition_eq_ofInts rfl hindex⟩
      | none =>
        exact ⟨.none, by simp only [selectConstant?, hindex], ⟨by decide, by decide⟩, Positions.ofPosition_eq_none hindex⟩
    obtain rfl := Option.some.inj (hp.symm.trans h)
    obtain ⟨g, hg, hselected⟩ := rechecks_select hbase hproper at'
    refine ⟨g, hg, fun c f w => (hselected.result c f w).trans ?_⟩
    rw [Ways.chosenBy_number (v := .ofConstant (.integer i)) rfl, ← heq]
    rfl
  | boolean b =>
    cases h
    exact htruth rfl rfl
  | string s =>
    cases h
    rw [show (if s.isEmpty then emptyAt at' else base) = if !s.isEmpty then base else emptyAt at' by cases s.isEmpty <;> rfl]
    exact htruth rfl rfl
  | decimal d => cases h
  | double x => cases h

/-- A predicate that is answered as a whole. -/
theorem rechecks_selectWhole (hbase : base.All (IsChecked context v)) (hP : P.All (IsChecked context v))
    (hr : P.Recorded) (h : base.selectWhole? P at' = some e) : ∃ g, Rechecks context v e g ∧ Answers base P g := by
  unfold selectWhole? at h
  split at h
  · next hconstant =>
    cases h
    obtain ⟨k, hk, hselect⟩ := Option.bind_eq_some_iff.1 hconstant
    unfold constant? at hk
    split at hk
    · next m k' =>
      cases hk
      obtain ⟨g, hg, hresult⟩ := rechecks_constant hbase hselect
      refine ⟨g, hg, fun {n positional c f w ys} _ _ hfilter => ?_⟩
      have hnone : (leaf m (.literal [k])).info.dependencies = {} := congrArg Effects.reads hr.self
      obtain ⟨u, w', hu, hys⟩ := (filter_once (by rw [hnone]; rfl)).1 hfilter
      obtain rfl : [Item.atomic (.ofConstant k)] = u := Except.ok.inj (congrArg Prod.fst hu)
      obtain rfl : w = w' := congrArg Prod.snd hu
      rw [hresult, hys]
    · cases hk
  · split at h
    · next p hp =>
      cases h
      obtain ⟨t, ht⟩ := positions_asks hp
      obtain ⟨g, hg, hselected⟩ := rechecks_select hbase ht.proper at'
      refine ⟨g, hg, fun hfew _ hfilter => ?_⟩
      rw [hselected.result]
      exact filter_positions hp hr.self hfew hfilter
    · split at h
      · next hinvariant =>
        cases h
        obtain ⟨m, hm⟩ := rechecks_binary .itemAt (.of_all hbase) (.of_all hP) { location := at' } rfl ⟨_, rfl⟩
        refine ⟨_, hm, fun {n positional c f w ys} _ htyped hfilter => ?_⟩
        have hfocus : P.info.dependencies.focus = false := by
          unfold isInvariantNumber at hinvariant
          simp only [Bool.and_eq_true, Bool.not_eq_true'] at hinvariant
          exact hinvariant.1.2
        obtain ⟨u, w', hu, hys⟩ := (filter_once hfocus).1 hfilter
        obtain ⟨a, rfl, ha⟩ := htyped.number hinvariant hu
        rw [result_itemAt c m base f w (perform_value? hu), ← hys, Ways.chosenBy_number ha]
      · cases h

/-- A filter that keeps its form, from the predicate of which a sort of nodes may be dropped. -/
theorem rechecks_filterPlainly (hbase : base.All (IsChecked context v)) (hP : P.All (IsChecked context v)) (n : Note)
    (positional : Bool) : ∃ m positional', Rechecks context v (filterPlainly n positional false base P).1
      (binary m (.filter positional') base (if positional then P else P.unordered)) := by
  cases positional with
  | true => exact rechecks_filter (.of_all hbase) (.of_all hP) n true
  | false =>
    refine rechecks_filter (.of_all hbase) (.of_all ?_) n false
    unfold unordered
    split
    · split
      · exact (all_unary.1 hP).2
      · exact hP
    · exact hP

/-- A checked filter knows whether its predicate asks for the position. -/
theorem positional_of_checked {n : Note} {positional : Bool}
    (h : (binary n (.filter positional) base P).All (IsChecked context v)) (hplace : P.readsPosition) :
    positional = true := by
  obtain ⟨-, hinferred⟩ := (inferBinary_returns n (.filter positional) base P).of_run h.self.inferred
  injection hinferred with _ hop
  injection hop with hop
  rw [hop]
  unfold readsPosition at hplace
  change (P.itemType.mayBeNumeric || P.info.dependencies.position || P.info.dependencies.last) = true
  rw [Bool.or_assoc, hplace, Bool.or_true]

/-- A conjunction that is split asks for the position, and is no number. -/
theorem of_splits (hP : P.All (IsChecked context v)) (hr : P.Recorded) (h : P.splits) :
    P.readsPosition ∧ P.itemType.mayBeNumeric = false := by
  unfold splits at h
  split at h
  · next m a b =>
    refine ⟨?_, ?_⟩
    · unfold readsPosition at h ⊢
      rw [dependencies_and hr]
      change (a.info.dependencies.position || b.info.dependencies.position ||
        (a.info.dependencies.last || b.info.dependencies.last)) = true
      generalize a.info.dependencies.position = p, a.info.dependencies.last = q at h ⊢
      generalize b.info.dependencies.position = r, b.info.dependencies.last = s at h ⊢
      revert p q r s
      decide
    · obtain ⟨-, hinferred⟩ := (inferBinary_returns m .and a b).of_run hP.self.inferred
      rw [hinferred]
      rfl
  · cases h

theorem unordered_of_not_isNodeSort (h : P.isNodeSort = false) : P.unordered = P := by
  unfold unordered
  split
  · next m a => rw [if_neg (by rw [show a.itemType.isNode = false from h]; exact Bool.false_ne_true)]
  · rfl

/-- A filter that is not split gives in its other form what it gives, wherever no sort of nodes is dropped; and also where
one is, if it is steady and the order of the trees is settled. -/
theorem rechecks_unsplit {n : Note} {positional : Bool} (hbase : base.All (IsChecked context v))
    (hP : P.All (IsChecked context v)) (hr : P.Recorded)
    (hsplit : ¬ (base.selectWhole? P n.location = none ∧ P.splits)) :
    let filter := binary n (.filter positional) base P
    ∃ g, Rechecks context v (specialize n positional false base P).1 g ∧
      ∀ c f w, (∀ xs, base.result c f w = .ok xs → (xs.length : ℤ) < largestIndex) → P.IsOfType c f w →
        (P.isNodeSort = false → ∀ xs, filter.result c f w = .ok xs → g.result c f w = .ok xs) ∧
        ∀ S : Settlement, S.context = c → S.setting.HasContext c → S.setting.HasFrame f → S.Good w → filter.IsSteady →
          ∀ xs, filter.result c f w = .ok xs → g.result c f w = .ok xs := by
  intro filter
  rw [specialize_of_not_splits hsplit]
  cases hwhole : base.selectWhole? P n.location with
  | some e =>
    obtain ⟨g, hg, hanswers⟩ := rechecks_selectWhole hbase hP hr hwhole
    exact ⟨g, hg, fun c f w hfew htyped => ⟨fun _ xs => hanswers hfew htyped,
      fun S _ _ _ _ _ xs => hanswers hfew htyped⟩⟩
  | none =>
    obtain ⟨m, positional', hg⟩ := rechecks_filterPlainly hbase hP n positional
    refine ⟨_, hg, fun c f w _ _ => ⟨fun hsort xs => ?_, fun S hS hc hf hw hsteady xs => ?_⟩⟩
    · rw [unordered_of_not_isNodeSort hsort, ite_self]
      exact filter_congr
    · cases positional with
      | true => exact filter_congr
      | false =>
        rw [if_neg Bool.false_ne_true]
        unfold unordered
        split
        · next k a =>
          split
          · subst hS
            exact Settlement.filter_unsorted hsteady.binary.1 hsteady.binary.2.unary hsteady.binary.2 hc hf hw
          · exact filter_congr
        · exact filter_congr

/-- A checked filter in the form that its predicate allows, checked again. It gives what the filter gives, if that does
not fail, in every frame and every world where the base gives fewer items than there are positions and the predicate
gives what its type says. For a predicate from which a sort of nodes is dropped the filter has to be steady and the
order of the trees settled. For a conjunction that is split as well; there the filter or its other form may fail, but if
both do not, they give the same, wherever the sides of the conjunction give what their types say. -/
theorem check_specialized {unit : CompileUnit} {n : Note} {positional : Bool}
    (hcheck : (check e).run context unit = (.ok (binary n (.filter positional) base P), v)) (hbound : WellBound [e]) :
    let filter := binary n (.filter positional) base P
    let split := base.selectWhole? P n.location = none ∧ P.splits
    ∃ g, (check (specialize n positional false base P).1).run context v = (.ok g, v) ∧
      ∀ c f w, (∀ xs, base.result c f w = .ok xs → (xs.length : ℤ) < largestIndex) → P.IsOfType c f w →
        (¬ split → P.isNodeSort = false → ∀ xs, filter.result c f w = .ok xs → g.result c f w = .ok xs) ∧
        ∀ S : Settlement, S.context = c → S.setting.HasContext c → S.setting.HasFrame f → S.Good w → filter.IsSteady →
          (¬ split → ∀ xs, filter.result c f w = .ok xs → g.result c f w = .ok xs) ∧
          ((∀ xs, base.result c f w = .ok xs → S.AreOfType f xs P) →
            ∀ xs ys, filter.result c f w = .ok xs → g.result c f w = .ok ys → ys = xs) := by
  intro filter split
  have hall := check_isChecked e hcheck hbound (check_refines e hcheck).size fun _ _ => rfl
  obtain ⟨-, hbase, hP⟩ := all_binary.1 hall
  obtain ⟨-, -, hr⟩ := all_binary.1 (check_recorded e hcheck)
  by_cases hsplit : split
  · obtain ⟨hplace, hmay⟩ := of_splits hP hr hsplit.2
    obtain rfl := positional_of_checked hall hplace
    obtain ⟨g, hg, hnarrows⟩ := rechecks_specialize hbase P hP hr hplace hmay n
    refine ⟨g, hg, fun c f w hfew _ => ⟨fun h => absurd hsplit h, fun S hS hc hf hw hsteady =>
      ⟨fun h => absurd hsplit h, fun htyped xs ys hxs hys => ?_⟩⟩⟩
    subst hS
    exact Settlement.eq_of_narrows hnarrows hsteady.binary.1 hsteady.binary.2 (focus_of_readsPosition hplace) hmay hc hf
      hw hfew htyped hxs hys
  · obtain ⟨g, hg, hresults⟩ := rechecks_unsplit hbase hP hr hsplit
    refine ⟨g, hg, fun c f w hfew htyped => ?_⟩
    obtain ⟨heverywhere, hsettled⟩ := hresults c f w hfew htyped
    refine ⟨fun _ => heverywhere, fun S hS hc hf hw hsteady => ⟨fun _ => hsettled S hS hc hf hw hsteady,
      fun _ xs ys hxs hys => ?_⟩⟩
    rw [hsettled S hS hc hf hw hsteady xs hxs] at hys
    exact (Except.ok.inj hys).symm

/-- `($a | $b)[($b, $a)/self::node()]` -/
def unionFiltered : Expr :=
  .mkBinary (.filter false)
    (.mkBinary (.set .union) (.mkLeaf (.variable (.range 1)) 0) (.mkLeaf (.variable (.range 2)) 0) 0) bothNodes 0

/-- `($a, $b)[position() = 1 and . is $a]` -/
def firstIfSame : Expr :=
  .mkBinary (.filter false)
    (.mkNary .block [.mkLeaf (.variable (.range 1)) 0, .mkLeaf (.variable (.range 2)) 0] 0)
    (.mkBinary .and
      (.mkBinary (.generalComparison .eq) (.callAt .position [] 0) (.constantAt (.integer 1) 0) 0)
      (.mkBinary (.nodeComparison .is) (.mkLeaf .contextItem 0) (.mkLeaf (.variable (.range 1)) 0) 0) 0) 0

/-- `(1 to 9223372036854775807)[position() > 9223372036854775807]` -/
def afterAll : Expr :=
  .mkBinary (.filter false)
    (.mkBinary .range (.constantAt (.integer 1) 0) (.constantAt (.integer largestIndex) 0) 0)
    (.mkBinary (.generalComparison .gt) (.callAt .position [] 0) (.constantAt (.integer largestIndex) 0) 0) 0

/-- In its other form the filter by a sort of nodes gives the union in the order that is settled, as one of the trees has
been asked about. A conjunction is split: the first item is asked whether it is the one looked for. -/
theorem check_specialized_elements :
    (∃ n base P v g, (check unionFiltered).run {} threeVariables = (.ok (binary n (.filter false) base P), v) ∧
      (check (specialize n false false base P).1).run {} v = (.ok g, v) ∧
      g.result {} secondAndFirst (oneAsked 3) = .ok [.node 3, .node 0]) ∧
    ∃ n base P v g, (check firstIfSame).run {} threeVariables = (.ok (binary n (.filter true) base P), v) ∧
      (check (specialize n true false base P).1).run {} v = (.ok g, v) ∧
      ∀ xs, g.result {} secondAndFirst (oneAsked 3) = .ok xs → xs = [.node 3] := by
  obtain ⟨S, hcontext, hnames, hframe, hgood⟩ := Settlement.exists_twoElements
  constructor
  · obtain ⟨n, base, P, v, hcheck, htyped, hsplit, hcreates, hkeys, hmodes, hbase, hresult⟩ : ∃ n base P v,
        (check unionFiltered).run {} threeVariables = (.ok (.binary n (.filter false) base P), v) ∧
        P.IsOfType {} secondAndFirst (oneAsked 3) ∧ P.splits = false ∧
        (Expr.binary n (.filter false) base P).effects.creates = false ∧
        (Expr.binary n (.filter false) base P).All HasClosedKeys ∧
        (Expr.binary n (.filter false) base P).All (fun x => x.mode.defers = false) ∧
        base.result {} secondAndFirst (oneAsked 3) = .ok [.node 3, .node 0] ∧
        (Expr.binary n (.filter false) base P).result {} secondAndFirst (oneAsked 3) = .ok [.node 3, .node 0] := by
      refine ⟨_, _, _, _, rfl, ?_, rfl, rfl, by simp [annotate, withInfo, withNote, HasClosedKeys],
        by simp [annotate, withInfo, withNote, Expr.mode, note, Mode.defers], by cbv, by cbv⟩
      exact .of_result [.node 3, .node 0] (by cbv) (by cbv) (by simp)
    have hbound : WellBound [unionFiltered] := ⟨fun _ _ _ _ => List.not_mem_nil, List.nodup_nil⟩
    have hformed : unionFiltered.All IsFormed := by
      simp [unionFiltered, bothNodes, mkUnary, mkBinary, mkNary, mkLeaf, IsFormed]
    have hfew : ∀ xs, base.result {} secondAndFirst (oneAsked 3) = .ok xs → (xs.length : ℤ) < largestIndex := by
      intro xs hxs
      rw [hbase] at hxs
      cases hxs
      decide
    obtain ⟨g, hg, hresults⟩ := check_specialized hcheck hbound
    obtain ⟨hgives, -⟩ := (hresults {} secondAndFirst (oneAsked 3) hfew htyped).2 S hcontext (hcontext ▸ hnames)
      hframe hgood ⟨check_recorded _ hcheck, (check_resembles _ hcheck).formed hformed, hkeys, hcreates, hmodes⟩
    exact ⟨n, base, P, v, g, hcheck, hg, hgives (fun h => by rw [hsplit] at h; cases h.2) _ hresult⟩
  · obtain ⟨n, base, P, v, hcheck, hfails, hcreates, hkeys, hmodes, hbase, hsides, hresult⟩ : ∃ n base P v,
        (check firstIfSame).run {} threeVariables = (.ok (.binary n (.filter true) base P), v) ∧
        P.result {} secondAndFirst (oneAsked 3) = .error ⟨.absentDynamic, some 0⟩ ∧
        (Expr.binary n (.filter true) base P).effects.creates = false ∧
        (Expr.binary n (.filter true) base P).All HasClosedKeys ∧
        (Expr.binary n (.filter true) base P).All (fun x => x.mode.defers = false) ∧
        base.result {} secondAndFirst (oneAsked 3) = .ok [.node 3, .node 0] ∧
        (∀ x ∈ P.conjuncts, (x.itemType = .atomic .boolean ∧ x.cardinality.allows 1) ∧ ∀ q ∈ [(Item.node 3, 1), (Item.node 0, 2)], ∀ size w,
          ∃ t, ((x.meaning {}).toList (secondAndFirst.withFocus q.1 q.2 size)).perform w =
            (.ok [.atomic (.boolean t)], w)) ∧
        (Expr.binary n (.filter true) base P).result {} secondAndFirst (oneAsked 3) = .ok [.node 3] := by
      refine ⟨_, _, _, _, rfl, by cbv, rfl, by simp [annotate, withInfo, withNote, HasClosedKeys],
        by simp [annotate, withInfo, withNote, Expr.mode, note, Mode.defers], by cbv, ?_, by cbv⟩
      refine List.forall_mem_cons.2 ⟨⟨⟨rfl, rfl⟩, ?_⟩, List.forall_mem_cons.2 ⟨⟨⟨rfl, rfl⟩, ?_⟩,
        List.forall_mem_cons.2 ⟨⟨⟨rfl, rfl⟩, ?_⟩, List.forall_mem_nil _⟩⟩⟩
      all_goals exact List.forall_mem_cons.2 ⟨fun _ _ => ⟨_, rfl⟩, List.forall_mem_cons.2 ⟨fun _ _ => ⟨_, rfl⟩, List.forall_mem_nil _⟩⟩
    have hbound : WellBound [firstIfSame] := ⟨fun _ _ _ _ => List.not_mem_nil, List.nodup_nil⟩
    have hformed : firstIfSame.All IsFormed := by
      simp [firstIfSame, callAt, constantAt, mkBinary, mkNary, mkLeaf, IsFormed]
      rfl
    have hgiven {xs : List Item} (hxs : base.result {} secondAndFirst (oneAsked 3) = .ok xs) :
        [.node 3, .node 0] = xs := Except.ok.inj (hbase.symm.trans hxs)
    have htyped : P.IsOfType {} secondAndFirst (oneAsked 3) := .of_error hfails
    obtain ⟨g, hg, hresults⟩ := check_specialized hcheck hbound
    obtain ⟨-, hsame⟩ := (hresults {} secondAndFirst (oneAsked 3) (fun xs hxs => hgiven hxs ▸ by decide) htyped).2 S
      hcontext (hcontext ▸ hnames) hframe hgood
      ⟨check_recorded _ hcheck, (check_resembles _ hcheck).formed hformed, hkeys, hcreates, hmodes⟩
    refine ⟨n, base, P, v, g, hcheck, hg, fun xs => hsame (fun ys hys => ?_) _ xs hresult⟩
    obtain rfl := hgiven hys
    intro x hx
    obtain ⟨⟨hitem, hcount⟩, hvalue⟩ := hsides x hx
    refine ⟨fun a ha => ?_, fun q hq size w _ => ?_⟩
    · cases hitem.symm.trans ha
      rfl
    · obtain ⟨t, ht⟩ := hvalue q hq size w
      rw [hcontext]
      exact .of_truth hitem hcount ht

/-- What a checked filter gives, and what its other form does. -/
def resultsOfForms (e : Expr) (w : World) : Option (Except Failure (List Item) × Except Failure (List Item)) :=
  match (check e).run {} threeVariables with
  | (.ok (.binary n (.filter positional) base P), v) =>
    match (check (specialize n positional false base P).1).run {} v with
    | (.ok g, _) =>
      some ((binary n (.filter positional) base P).result {} secondAndFirst w, g.result {} secondAndFirst w)
    | _ => none
  | _ => none

/-- The last of the integers up to one is that one. -/
theorem slice_last {c : DynamicContext} {f : Frame} {m : ℕ} (h : (base.meaning c).items f =
      .ofList (Item.integers ((List.range (m + 1)).map fun k : ℕ => 1 + (k : ℤ)))) (n : Note) (w : World) :
    (unary n (.slice (m + 1) none) base).result c f w = .ok [.atomic (.ofInt (1 + m))] := by
  have hpick : Positions.pick ⟨m + 1, none⟩ (Item.integers ((List.range (m + 1)).map fun k : ℕ => 1 + (k : ℤ))) =
      [.atomic (.ofInt (1 + m))] := by
    unfold Positions.pick Item.integers
    rw [List.range_succ, List.map_append, List.map_append]
    exact List.drop_left' (by simp)
  rw [result_slice, Ways.outcomes, h, Source.outcomes_ofList, Positions.pick_map, delivered_items, hpick]

/-- A predicate that is false at every position of the base selects nothing. -/
theorem filter_never {c : DynamicContext} {f : Frame} {w : World} {n : Note} {positional : Bool} {xs : List Item}
    {t : ℕ → Bool} (hbase : (base.meaning c).items f = .ofList xs)
    (hP : ∀ x k, (P.meaning c).items (f.withFocus x k none) = .ofList [.atomic (.boolean (t k))])
    (hfocus : P.info.dependencies.focus) (hlast : P.info.dependencies.last = false)
    (hnever : ∀ k ≤ xs.length, t k = false) : (binary n (.filter positional) base P).result c f w = .ok [] := by
  have htest (k : ℕ) (x : Item) : (P.meaning c).holdsAt (f.withFocus x k none) k = pure (t k) := by
    unfold Ways.holdsAt
    rw [hP]
    rfl
  have hjudged : delivered (judged (fun k (_ : Item) => .ok (t k)) 1 (xs.map .ok)) = .ok [] := by
    refine delivered_judged.2 ⟨xs, fun _ => false, rfl, fun q hq => ?_, by rw [List.filter_false]; rfl⟩
    rw [hnever q.2 (by have := List.snd_lt_of_mem_zipIdx hq; omega)]
  rw [result_filter, select_each _ _ _ _ hfocus, selectEach_items _ _ _ _ hlast, hbase]
  unfold Source.filterM
  rw [Pull.outcomes_filterM htest, Source.outcomes_ofList, hjudged]
  rfl

/-- A sort is dropped: the union comes in the order in which the trees have been asked about, and the sort asks about the
first one first. The largest integer of machine size counts as the position after it. -/
theorem specialization_observed :
    resultsOfForms unionFiltered { forest := DocumentOrder.twoElements } =
      some (.ok [.node 0, .node 3], .ok [.node 3, .node 0]) ∧
    ∃ n base P v g, (check afterAll).run {} {} = (.ok (binary n (.filter true) base P), v) ∧
      (check (specialize n true false base P).1).run {} v = (.ok g, v) ∧
      ∀ w, (binary n (.filter true) base P).result {} {} w = .ok [] ∧
        g.result {} {} w = .ok [.atomic (.ofInt largestIndex)] := by
  refine ⟨by cbv, ?_⟩
  have hrange {low high : Expr} (m : Note) (hlow : low.smallInteger? = some 1)
      (hhigh : high.smallInteger? = some largestIndex) :
      ((binary m .range low high).meaning {}).items {} =
        .ofList (Item.integers ((List.range (9223372036854775806 + 1)).map fun k : ℕ => 1 + (k : ℤ))) := by
    rw [items_range (items_smallInteger hlow {} {}).1 (items_smallInteger hhigh {} {}).1]
    rfl
  refine ⟨_, _, _, _, _, rfl, rfl, fun w => ⟨?_, slice_last (hrange _ rfl rfl) _ w⟩⟩
  refine filter_never (hrange _ rfl rfl) (fun x k => items_generalComparison _ _ (items_position rfl _ _ _ _ _)
    (items_smallInteger rfl _ _).1) rfl rfl fun k hk => ?_
  rw [Item.integers, List.length_map, List.length_map, List.length_range] at hk
  have hle : compare (k : ℤ) largestIndex ≠ .gt := by
    rw [Ne, compare_gt_iff_gt, show largestIndex = 9223372036854775806 + 1 from rfl]
    omega
  simpa [ComparisonOp.test] using hle

end Typing
end XPath
