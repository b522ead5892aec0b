import XPath.Proofs.Choosing

/-!
A predicate that does not ask for the context is evaluated once, to all its items, instead of being asked for every
item of the base. To be asked, it gives as many items as its truth depends on: the first one if that is a node, and at
most two otherwise. So evaluating it once may fail where every item could be decided, if something fails behind a first
node; and apart from that it comes to the same.
-/
namespace XPath

/-- Whether a value on its own selects the item at a position. -/
def Atomic.selects (k : ℕ) (a : Atomic) : Bool := if a.isNumeric then a.position? == some k else a.truth

namespace Positions

theorem pos_ofPosition (a : Atomic) : 0 < (ofPosition a.position?).min := by
  cases h : a.position? with
  | none => exact Nat.one_pos
  | some n => exact Atomic.position?_pos h

theorem has_ofPosition (o : Option ℕ) {k : ℕ} (hk : 0 < k) : (ofPosition o).has k = (o == some k) := by
  unfold has ofPosition
  rw [Bool.eq_iff_iff]
  cases o with
  | none =>
    simp only [none, Option.all_some, Bool.and_eq_true, decide_eq_true_iff, beq_iff_eq]
    exact iff_of_false (by omega) nofun
  | some n =>
    simp only [Option.all_some, Bool.and_eq_true, decide_eq_true_iff, beq_iff_eq, Option.some.injEq]
    omega

end Positions

section Decided
variable {v xs : List Item} {chosen : Item × ℕ → Bool} {t : Bool}

/-- The same is said of all items. -/
theorem filtered_of_forall (h : ∀ q ∈ xs.zipIdx 1, chosen q = t) : filtered chosen xs = if t then xs else [] := by
  rw [filtered_eq_filter (u := fun _ => t) h]
  cases t with
  | true => exact List.filter_true _
  | false => exact List.filter_false _

/-- Items that are decided one by one are the ones that are chosen for all. -/
theorem chosenBy_of_decided (hne : xs ≠ [])
    (h : ∀ q ∈ xs.zipIdx 1, truthOf (Atomic.selects q.2) (v.map .ok) = .ok (chosen q)) :
    Ways.chosenBy v (xs.map .ok) = (filtered chosen xs).map .ok := by
  match v with
  | [] =>
    rw [filtered_of_forall fun q hq => (Except.ok.inj (h q hq)).symm]
    rfl
  | .node i :: rest =>
    rw [filtered_of_forall fun q hq => (Except.ok.inj (h q hq)).symm]
    rfl
  | [.atomic a] =>
    have hchosen (q : Item × ℕ) (hq : q ∈ xs.zipIdx 1) : a.selects q.2 = chosen q := Except.ok.inj (h q hq)
    unfold Atomic.selects at hchosen
    unfold Ways.chosenBy
    dsimp only
    by_cases ha : a.isNumeric
    · rw [if_pos ha, Positions.pick_map, Positions.pick_eq_filtered (Positions.pos_ofPosition a)]
      refine congrArg (fun ys => List.map Except.ok (List.map Prod.fst ys)) (List.filter_congr fun q hq => ?_)
      rw [Positions.has_ofPosition _ (List.le_snd_of_mem_zipIdx hq), ← hchosen q hq, if_pos ha]
    · rw [if_neg ha, filtered_of_forall fun q hq => by rw [← hchosen q hq, if_neg ha]]
      cases a.truth <;> rfl
  | .atomic a :: y :: rest =>
    -- There is an item for which this is asked in vain.
    obtain ⟨x, xs, rfl⟩ := List.exists_cons_of_ne_nil hne
    cases h (x, 1) List.mem_cons_self

/-- If some are chosen for all, each one is decided. -/
theorem decided_of_chosenBy {rs : List (Except Failure Item)} {ys : List Item}
    (h : delivered (Ways.chosenBy v rs) = .ok ys) :
    ∃ chosen : Item × ℕ → Bool, ∀ q, truthOf (Atomic.selects q.2) (v.map .ok) = .ok (chosen q) := by
  match v with
  | [] => exact ⟨fun _ => false, fun _ => rfl⟩
  | .node i :: rest => exact ⟨fun _ => true, fun _ => rfl⟩
  | [.atomic a] => exact ⟨fun q => a.selects q.2, fun _ => rfl⟩
  | .atomic a :: y :: rest => cases h

/-- Where the first of some results is no node, its truth depends on all of them. -/
theorem isOk_of_decided {one : Atomic → Bool} {rs : List (Except Failure Item)} (h : truthOf one rs = .ok t)
    (hnode : ∀ i, rs.head? ≠ some (.ok (.node i))) : (delivered rs).isOk := by
  match rs with
  | [] => rfl
  | .error e :: rs => cases h
  | .ok (.node i) :: rs => exact absurd rfl (hnode i)
  | [.ok (.atomic a)] => rfl
  | .ok (.atomic a) :: .error e :: rs => cases h
  | .ok (.atomic a) :: .ok y :: rs => cases h

end Decided

namespace Expr
variable {c : DynamicContext} {f : Frame} {w : World} {n : Note} {positional : Bool} {base P : Expr}
  {xs ys : List Item} {chosen : Item × ℕ → Bool}

/-- The predicate is asked for each of some items, in the same world, and this is what it says. -/
def DecidesEach (c : DynamicContext) (P : Expr) (f : Frame) (w : World) (xs : List Item) (chosen : Item × ℕ → Bool) :
    Prop :=
  ∀ q ∈ xs.zipIdx 1, (((P.meaning c).holdsAt (f.withFocus q.1 q.2 none) q.2).perform w).1 = .ok (chosen q)

/-- What a predicate says that does not ask for the context. -/
theorem decidesEach_iff (hr : P.Recorded) (hf : P.All IsFormed) (hfocus : P.info.dependencies.focus = false) :
    DecidesEach c P f w xs chosen ↔
      ∀ q ∈ xs.zipIdx 1, truthOf (Atomic.selects q.2) ((P.meaning c).outcomes f w) = .ok (chosen q) := by
  refine forall₂_congr fun q _ => ?_
  rw [(matches_withoutFocus hr hf hfocus q.1 q.2 none).holdsAt]
  exact iff_of_eq (congrArg (· = _) (Items.truth_eq ((P.meaning c).items f) (Atomic.selects q.2) w))

/-- A predicate that is evaluated once gives what it would give if it were asked for every item, where it does not fail
as a whole. -/
theorem filter_once_decides (hr : P.Recorded) (hf : P.All IsFormed) (hfocus : P.info.dependencies.focus = false)
    (hne : xs ≠ []) (hbase : ∀ v w', ((P.meaning c).toList f).perform w = (.ok v, w') →
      (base.meaning c).outcomes f w' = xs.map .ok) :
    (binary n (.filter positional) base P).result c f w = .ok ys ↔
      (P.result c f w).isOk ∧ ∃ chosen, DecidesEach c P f w xs chosen ∧ ys = filtered chosen xs := by
  have houtcomes {v : List Item} {w' : World} (hv : ((P.meaning c).toList f).perform w = (.ok v, w')) :
      (P.meaning c).outcomes f w = v.map .ok :=
    delivered_eq_ok.1 ((Source.toList_eq ((P.meaning c).items f) w).symm.trans (congrArg Prod.fst hv))
  simp only [filter_once hfocus, decidesEach_iff hr hf hfocus]
  constructor
  · rintro ⟨v, w', hv, hys⟩
    obtain ⟨chosen, hchosen⟩ := decided_of_chosenBy hys
    refine ⟨by rw [result, hv]; rfl, chosen, fun q _ => houtcomes hv ▸ hchosen q, ?_⟩
    rw [hbase v w' hv, chosenBy_of_decided hne fun q _ => hchosen q, delivered_items] at hys
    exact (Except.ok.inj hys).symm
  · rintro ⟨hok, chosen, hchosen, rfl⟩
    cases hv : ((P.meaning c).toList f).perform w with
    | mk r w' =>
      rw [result, hv] at hok
      cases r with
      | error e => cases hok
      | ok v =>
        refine ⟨v, w', rfl, ?_⟩
        rw [hbase v w' hv, chosenBy_of_decided hne fun q hq => houtcomes hv ▸ hchosen q hq, delivered_items]

end Expr

namespace Settlement
open Likeness XPath.Expr
variable {S : Settlement} {f : Frame} {w : World} {n : Note} {positional : Bool} {base P : Expr} {xs ys : List Item}
  {chosen : Item × ℕ → Bool}

/-- To be asked for every item is to be asked for each of them in the same world, where the order of the trees is
settled. -/
theorem selectEach_decides (hbase : S.setting.Carries (base.meaning S.context).toWays f)
    (hP : S.setting.CarriesUnderFocus (P.meaning S.context).toWays f) (hlast : P.info.dependencies.last = false)
    (hw : S.Good w) (hxs : S.Draws ((base.meaning S.context).items f) (xs.map .ok)) :
    delivered ((base.meaning S.context).selectEach (P.meaning S.context).toWays f w).outcomes.1 = .ok ys ↔
      ∃ chosen, DecidesEach S.context P f w xs chosen ∧ ys = filtered chosen xs := by
  obtain ⟨rs, hrs, hinside⟩ := exists_draws_of_carries hbase
  cases hrs.unique hxs
  have hinside (x : Item) (hx : x ∈ xs) : S.exchange.Has x := hinside x (List.mem_map_of_mem hx)
  have hverdict (q : Item × ℕ) (hq : q ∈ xs.zipIdx 1) :
      (((P.meaning S.context).holdsAt (f.withFocus q.1 q.2 none) q.2).perform w).1 = S.verdict P f none q.2 q.1 :=
    (gets_verdict hP (hinside q.1 (List.fst_mem_of_mem_zipIdx hq)) none q.2).answer hw
  have hcount : P.countFor xs = none := by
    rw [countFor, hlast]
    rfl
  rw [(draws_selectEach hP hxs hinside w hw).outcomes, hcount, delivered_judged]
  constructor
  · rintro ⟨zs, chosen, hzs, hchosen, rfl⟩
    obtain rfl := List.map_injective_iff.2 (fun _ _ => Except.ok.inj) hzs
    exact ⟨chosen, fun q hq => (hverdict q hq).trans (hchosen q hq), rfl⟩
  · rintro ⟨chosen, hchosen, rfl⟩
    exact ⟨xs, chosen, rfl, fun q hq => (hverdict q hq).symm.trans (hchosen q hq), rfl⟩

end Settlement

namespace Expr
variable {P : Expr}

/-- A filter by a predicate that does not ask for the context, of a base that gives some items and does not fail. It
gives something if the predicate does not fail as a whole and can be decided for each item, and then it gives the items
for which it holds; if every item can be decided, the predicate fails as a whole at most behind a first node. Where the
order of the trees is settled and the filter is steady, deciding each item comes to having the predicate asked for one
item after the other. -/
theorem once_decides_each (hr : P.Recorded) (hf : P.All IsFormed) (hfocus : P.info.dependencies.focus = false)
    (n : Note) (positional : Bool) (base : Expr) (f : Frame) (w : World) {xs : List Item} (hne : xs ≠ []) :
    let filter := binary n (.filter positional) base P
    (∀ c, (∀ v w', ((P.meaning c).toList f).perform w = (.ok v, w') → (base.meaning c).outcomes f w' = xs.map .ok) →
      (∀ ys, filter.result c f w = .ok ys ↔
        (P.result c f w).isOk ∧ ∃ chosen, DecidesEach c P f w xs chosen ∧ ys = filtered chosen xs) ∧
      ∀ chosen, DecidesEach c P f w xs chosen →
        (∀ i, ((P.meaning c).outcomes f w).head? ≠ some (.ok (.node i))) → (P.result c f w).isOk) ∧
    ∀ S : Settlement, filter.IsSteady → S.setting.HasContext S.context → S.setting.HasFrame f → S.Good w →
      base.result S.context f w = .ok xs → ∀ ys, filter.result S.context f w = .ok ys ↔ (P.result S.context f w).isOk ∧
        delivered ((base.meaning S.context).selectEach (P.meaning S.context).toWays f w).outcomes.1 = .ok ys := by
  intro filter
  refine ⟨fun c hbase => ⟨fun ys => filter_once_decides hr hf hfocus hne hbase, fun chosen hchosen hnode => ?_⟩,
    fun S hsteady hc hframe hw hxs ys => ?_⟩
  · obtain ⟨x, xs, rfl⟩ := List.exists_cons_of_ne_nil hne
    have hfirst := (decidesEach_iff hr hf hfocus).1 hchosen (x, 1) List.mem_cons_self
    change ((((P.meaning c).items f).toList.perform w).1).isOk = true
    rw [Source.toList_eq]
    exact isOk_of_decided hfirst hnode
  · have hcarries {e : Expr} (he : e.IsSteady) (f : Frame) (hf : S.setting.HasFrame f) := (he.ignores hc).carries f hf
    have hP := hcarries hsteady.binary.2
    obtain ⟨rs, hrs, -⟩ := Settlement.exists_draws_items hsteady.binary.1 hc hframe
    obtain rfl := delivered_eq_ok.1 ((hrs.result hw).symm.trans hxs)
    have hlast : P.info.dependencies.last = false := by
      unfold Dependencies.focus at hfocus
      simp only [Bool.or_eq_false_iff] at hfocus
      exact hfocus.2
    rw [Settlement.selectEach_decides (hcarries hsteady.binary.1 f hframe)
      (fun x k size hx => hP _ (hframe.withFocus hx k size)) hlast hw hrs]
    refine filter_once_decides hr hf hfocus hne fun v w' hv => ?_
    obtain ⟨r, hr', -⟩ := Settlement.exists_gets (hP f hframe).toList
    obtain ⟨w₁, hw₁, heq⟩ := hr' w hw
    rw [show ((P.meaning S.context).toWays.toList f).perform w = _ from hv] at heq
    cases heq
    exact (hrs w' hw₁).outcomes

end Expr

namespace Typing
open XPath.Expr

/-- `(1, 2)[$a]` -/
def allIfNode : Expr :=
  .mkBinary (.filter false) (.mkLeaf (.literal [.integer 1, .integer 2]) 0) (.mkLeaf (.variable (.range 1)) 0) 0

/-- The predicate holds for both items, as there is a node. -/
theorem once_decides_each_node : ∃ n base P v,
    (check allIfNode).run {} threeVariables = (.ok (binary n (.filter true) base P), v) ∧
    (binary n (.filter true) base P).result {} secondAndFirst (oneAsked 3) =
      .ok [.atomic (.ofInt 1), .atomic (.ofInt 2)] := by
  obtain ⟨n, base, P, v, hcheck, hfocus, hcreates, hkeys, hmodes, hbase, hpredicate, heach⟩ : ∃ n base P v,
      (check allIfNode).run {} threeVariables = (.ok (.binary n (.filter true) base P), v) ∧
      P.info.dependencies.focus = false ∧ (Expr.binary n (.filter true) base P).effects.creates = false ∧
      (Expr.binary n (.filter true) base P).All HasClosedKeys ∧
      (Expr.binary n (.filter true) base P).All (fun x => x.mode.defers = false) ∧
      base.result {} secondAndFirst (oneAsked 3) = .ok [.atomic (.ofInt 1), .atomic (.ofInt 2)] ∧
      (P.result {} secondAndFirst (oneAsked 3)).isOk ∧
      delivered ((base.meaning {}).selectEach (P.meaning {}).toWays secondAndFirst (oneAsked 3)).outcomes.1 =
        .ok [.atomic (.ofInt 1), .atomic (.ofInt 2)] :=
    ⟨_, _, _, _, rfl, rfl, rfl, by simp [annotate, withInfo, withNote, HasClosedKeys],
      by simp [annotate, withInfo, withNote, Expr.mode, note, Mode.defers], rfl, rfl, rfl⟩
  have hformed : allIfNode.All IsFormed := by simp [allIfNode, mkBinary, mkLeaf, IsFormed]
  have hsteady : (Expr.binary n (.filter true) base P).IsSteady :=
    ⟨check_recorded _ hcheck, (check_resembles _ hcheck).formed hformed, hkeys, hcreates, hmodes⟩
  obtain ⟨S, hcontext, hnames, hframe, hgood⟩ := Settlement.exists_twoElements
  have hne : [Item.atomic (.ofInt 1), .atomic (.ofInt 2)] ≠ [] := List.cons_ne_nil _ _
  have hsettled := (once_decides_each hsteady.binary.2.recorded hsteady.binary.2.formed hfocus n true base secondAndFirst
    (oneAsked 3) hne).2 S hsteady hnames hframe hgood
  rw [hcontext] at hsettled
  exact ⟨n, base, P, v, hcheck, (hsettled hbase _).2 ⟨hpredicate, heach⟩⟩

/-- `(1, 2)[($a, error())]` -/
def allIfNodeOrError : Expr :=
  .mkBinary (.filter false) (.mkLeaf (.literal [.integer 1, .integer 2]) 0)
    (.mkNary .block [.mkLeaf (.variable (.range 1)) 0, .callAt .error [] 1] 0) 0

/-- Behind a node there is a failure. Each item can be decided, but the predicate as a whole fails. -/
theorem once_fails_behind_node : ∃ n base P v,
    (check allIfNodeOrError).run {} threeVariables = (.ok (binary n (.filter true) base P), v) ∧
    P.info.dependencies.focus = false ∧ ∀ w,
      (base.meaning {}).outcomes secondAndFirst w = [.ok (.atomic (.ofInt 1)), .ok (.atomic (.ofInt 2))] ∧
      DecidesEach {} P secondAndFirst w [.atomic (.ofInt 1), .atomic (.ofInt 2)] (fun _ => true) ∧
      delivered ((base.meaning {}).selectEach (P.meaning {}).toWays secondAndFirst w).outcomes.1 =
        .ok [.atomic (.ofInt 1), .atomic (.ofInt 2)] ∧
      (binary n (.filter true) base P).result {} secondAndFirst w = .error ⟨.raised, some 1⟩ :=
  ⟨_, _, _, _, rfl, rfl, fun _ => ⟨rfl, List.forall_mem_cons.2 ⟨rfl, List.forall_mem_singleton.2 rfl⟩, rfl, rfl⟩⟩

end Typing
end XPath
