import XPath.Optimize.Selection
import XPath.Proofs.Outcomes

/-!
Selecting by position, and failures. A failure counts if it stands at a position that is selected, or between two
such positions; those that come before the first selected position are thrown away with the items there.
-/
namespace XPath

theorem Atomic.position?_pos {v : Atomic} {n : ℕ} (h : v.position? = some n) : 0 < n := by
  unfold Atomic.position? at h
  split at h
  · cases h
    exact Nat.succ_pos _
  · cases h

namespace Positions
variable {α ε : Type} {p : Positions}

/-- What stands at the positions. -/
def pick (p : Positions) (xs : List α) : List α :=
  match p.max with
  | some max => (xs.drop (p.min - 1)).take (max - (p.min - 1))
  | .none => xs.drop (p.min - 1)

/-- What stands at the positions and before them. -/
def upTo (p : Positions) (xs : List α) : List α :=
  match p.max with
  | some max => xs.take max
  | .none => xs

/-- What a selection owes that hides no failure: the items at the positions if nothing fails up to the last
of them, and else the first failure. -/
def due (p : Positions) (rs : List (Except ε α)) : Except ε (List α) :=
  if p.isEmpty then .ok [] else (delivered (p.upTo rs)).map (·.drop (p.min - 1))

/-- The position that a number stands for, or none. -/
def ofPosition : Option ℕ → Positions
  | some n => ⟨n, some n⟩
  | .none => none

theorem pick_upTo (xs : List α) : p.pick xs = (p.upTo xs).drop (p.min - 1) := by
  unfold pick upTo
  cases p.max with
  | none => rfl
  | some max => exact (List.drop_take ..).symm

/-- At most one thing stands at one position. -/
theorem pick_single {n : ℕ} (h : 0 < n) (xs : List α) : Positions.pick ⟨n, some n⟩ xs = (xs.drop (n - 1)).take 1 := by
  unfold pick
  dsimp only
  rw [show n - (n - 1) = 1 by omega]

/-- Nothing stands at no position. -/
theorem pick_of_isEmpty (h : p.isEmpty) (xs : List α) : p.pick xs = [] := by
  unfold isEmpty at h
  unfold pick
  cases hmax : p.max with
  | none =>
    rw [hmax] at h
    cases h
  | some max =>
    rw [hmax, Option.any_some, decide_eq_true_iff] at h
    dsimp only
    rw [show max - (p.min - 1) = 0 by omega, List.take_zero]

theorem take_upTo (h : p.isEmpty = false) (xs : List α) : (p.upTo xs).take (p.min - 1) = xs.take (p.min - 1) := by
  unfold isEmpty at h
  unfold upTo
  cases hmax : p.max with
  | none => rfl
  | some max =>
    rw [hmax, Option.any_some, decide_eq_false_iff_not] at h
    dsimp only
    rw [List.take_take, Nat.min_eq_left (by omega)]

end Positions

/-- The results at the positions are delivered; so the selection is as due if nothing fails before them. -/
structure Selects (p : Positions) (rs : List (Except Failure Item)) (r : Except Failure (List Item)) : Prop where
  delivers : r = delivered (p.pick rs)
  due : (∀ x ∈ rs.take (p.min - 1), x.isOk) → r = p.due rs

namespace Selects
variable {p : Positions} {rs : List (Except Failure Item)} {r : Except Failure (List Item)}

theorem of_delivers (h : r = delivered (p.pick rs)) : Selects p rs r where
  delivers := h
  due hbefore := by
    subst h
    unfold Positions.due
    split
    · next hp => rw [Positions.pick_of_isEmpty hp]; rfl
    · next hp =>
      rw [Bool.not_eq_true] at hp
      rw [Positions.pick_upTo, delivered_drop]
      rwa [Positions.take_upTo hp]

end Selects

/-! Where a failure comes from. -/

/-- Every failure is known to come from some expression. -/
def Located (rs : List (Except Failure Item)) : Prop := ∀ e, .error e ∈ rs → e.location.isSome

theorem Failure.isSome_orAt (l : LocationId) (e : Failure) : (e.orAt l).location.isSome := by
  unfold Failure.orAt
  cases e.location <;> rfl

theorem Failure.orAt_of_isSome {e : Failure} (h : e.location.isSome) (l : LocationId) : e.orAt l = e := by
  obtain ⟨code, location⟩ := e
  cases location with
  | none => cases h
  | some m => rfl

/-- The expression around does not count. -/
theorem Located.map_orAt {rs : List (Except Failure Item)} (h : Located rs) (l : LocationId) :
    rs.map (·.mapError (Failure.orAt l)) = rs := by
  refine (List.map_congr_left fun r hr => ?_).trans (List.map_id rs)
  cases r with
  | ok x => rfl
  | error e => exact congrArg Except.error (Failure.orAt_of_isSome (h e hr) l)

theorem located_mapError (src : Items) (l : LocationId) (w : World) :
    Located (src.mapError (Failure.orAt l) w).outcomes.1 := by
  intro e he
  rw [Source.mapError, Pull.outcomes_mapError] at he
  obtain ⟨r, _, hr⟩ := List.mem_map.1 he
  cases r with
  | ok x => cases hr
  | error e' =>
    cases hr
    exact e'.isSome_orAt l

/-- The only result of a step that gives at most one item. -/
theorem outcomes_ofOption (a : Eval (Option Item)) (l : LocationId) (w : World) :
    ((Source.after do return .ofOption (← a.orAt l)) w).outcomes.1 = match (a.perform w).1 with
      | .ok o => o.toList.map .ok
      | .error e => [.error (e.orAt l)] := by
  refine (Source.outcomes_after (a.orAt l) Option.toList w).trans ?_
  rw [Eval.orAt, Regime.perform_mapError]
  cases (a.perform w).1 <;> rfl

theorem located_ofOption (a : Eval (Option Item)) (l : LocationId) (w : World) :
    Located ((Source.after do return .ofOption (← a.orAt l)) w).outcomes.1 := by
  rw [outcomes_ofOption]
  intro e he
  split at he
  · obtain ⟨x, _, hx⟩ := List.mem_map.1 he
    cases hx
  · cases List.mem_singleton.1 he
    exact Failure.isSome_orAt _ _

/-- Whatever fails is located. -/
theorem Expr.located (c : DynamicContext) (e : Expr) (f : Frame) (w : World) :
    Located ((e.meaning c).outcomes f w) := by
  cases e with
  | leaf n op =>
    rw [meaning_leaf]
    cases op with
    | literal | «variable» | step => exact located_mapError _ n.location w
    | contextItem | root => exact located_ofOption _ n.location w
  | unary n op a =>
    rw [meaning_unary]
    cases op with
    | sort | reverse | slice | treat | element | text => exact located_mapError _ n.location w
    | _ => exact located_ofOption _ n.location w
  | binary n op a b =>
    rw [meaning_binary]
    cases op with
    | range | set | path | filter | «for» | «let» => exact located_mapError _ n.location w
    | _ => exact located_ofOption _ n.location w
  | ternary n op a b d =>
    rw [meaning_ternary]
    cases op <;> exact located_mapError _ n.location w
  | nary n op args =>
    rw [meaning_nary]
    cases op with
    | block => exact located_mapError _ n.location w
    | call g => cases g <;> exact located_mapError _ n.location w

theorem Located.pick {rs : List (Except Failure Item)} (h : Located rs) (p : Positions) : Located (p.pick rs) := by
  intro e he
  apply h e
  unfold Positions.pick at he
  split at he
  · exact List.mem_of_mem_drop (List.mem_of_mem_take he)
  · exact List.mem_of_mem_drop he

/-! The selections. -/

namespace Ways
variable {a b : Ways} {f : Frame} {w w' : World}

/-- A source that gives the results at some positions, under another expression. -/
theorem toList_of_pick {src : Items} {p : Positions} {rs : List (Except Failure Item)} (hrs : Located rs)
    (h : (src w).outcomes.1 = p.pick rs) (l : LocationId) :
    (((src.mapError (Failure.orAt l)).toList).perform w).1 = delivered (p.pick rs) := by
  rw [Source.toList_eq, Source.mapError, Pull.outcomes_mapError, h, (hrs.pick p).map_orAt]

theorem outcomes_slice (a : Ways) (min : ℕ) (max : Option ℕ) (f : Frame) (w : World) :
    (a.slice min max f w).outcomes.1 = Positions.pick ⟨min, max⟩ (a.outcomes f w) := by
  have hdrop : (((a.items f).drop (min - 1)) w).outcomes.1 = (a.outcomes f w).drop (min - 1) :=
    congrArg Prod.fst ((a.items f w).outcomes_drop (min - 1))
  unfold slice
  cases max with
  | none => exact hdrop
  | some max =>
    dsimp only
    split
    · next hlt => exact (Positions.pick_of_isEmpty (p := ⟨min, some max⟩) (decide_eq_true hlt) _).symm
    · rw [Pull.outcomes_take, hdrop]
      rfl

/-- What is selected where the predicate has this value for all items. -/
def chosenBy (v : List Item) (rs : List (Except Failure Item)) : List (Except Failure Item) :=
  match v with
  | [.atomic a] => if a.isNumeric then (Positions.ofPosition a.position?).pick rs else if a.truth then rs else []
  | _ => match Item.truth v with
    | .ok t => if t then rs else []
    | .error code => [.error { code }]

theorem chosenBy_number {v : Atomic} (hv : v.isNumeric) (rs : List (Except Failure Item)) :
    chosenBy [.atomic v] rs = (Positions.ofPosition v.position?).pick rs := if_pos hv

/-- A predicate that is the same for all items. -/
theorem outcomes_selectOnce {v : List Item} (hb : (b.toList f).perform w = (.ok v, w')) :
    (a.selectOnce b f w).outcomes.1 = chosenBy v (a.outcomes f w') := by
  unfold selectOnce Source.after
  rw [Regime.perform_bind, hb]
  match v with
  | [.atomic v] =>
    unfold chosenBy
    dsimp only
    by_cases hv : v.isNumeric
    · rw [if_pos hv, if_pos hv]
      change ((match v.position? with
        | some n => ((a.items f).drop (n - 1)).take 1
        | none => .empty : Items) w').outcomes.1 = _
      cases hpos : v.position? with
      | none => rfl
      | some n =>
        rw [Positions.ofPosition, Positions.pick_single (Atomic.position?_pos hpos)]
        dsimp only
        rw [Pull.outcomes_take]
        exact congrArg (·.1.take 1) ((a.items f w').outcomes_drop (n - 1))
    · rw [if_neg hv, if_neg hv]
      cases v.truth <;> rfl
  | [] | .node _ :: _ | .atomic _ :: _ :: _ => rfl

theorem perform_itemAt {v : Atomic} (hb : (b.value? f).perform w = (.ok (some v), w')) :
    ((a.itemAt b f).perform w).1 =
      (v.position?.bind fun n => (a.outcomes f w')[n - 1]?).elim (.ok none) (·.map some) := by
  unfold itemAt
  rw [Regime.perform_bind, hb]
  dsimp only
  rw [Option.bind_some]
  cases v.position? with
  | none => rfl
  | some n =>
    exact Source.get?_eq (a.items f) (n - 1) w'

/-- What an operator gives that gives at most one item: the result at a place. -/
theorem single_of_result {rs : List (Except Failure Item)} (h : Located rs) (m : ℕ) (l : LocationId) :
    (match rs[m]?.elim (.ok none) (·.map some) with
      | .ok o => o.toList.map .ok
      | .error e => [.error (e.orAt l)]) = (rs.drop m).take 1 := by
  rw [List.take_one, List.head?_drop]
  cases hm : rs[m]? with
  | none => rfl
  | some r =>
    cases r with
    | ok x => rfl
    | error e =>
      exact congrArg (fun e => [Except.error e]) (Failure.orAt_of_isSome (h e (List.mem_of_getElem? hm)) l)

/-- The only result at a position, if there is one. -/
theorem toList_itemAt {v : Atomic} (hb : (b.value? f).perform w = (.ok (some v), w'))
    (ha : Located (a.outcomes f w')) (n : Note) :
    (((ofItem n (a.itemAt b)).toList f).perform w).1 =
      delivered ((Positions.ofPosition v.position?).pick (a.outcomes f w')) := by
  have hall : ((ofItem n (a.itemAt b)).outcomes f w) =
      (Positions.ofPosition v.position?).pick (a.outcomes f w') := by
    refine (outcomes_ofOption (a.itemAt b f) n.location w).trans ?_
    rw [perform_itemAt hb]
    cases hpos : v.position? with
    | none => rfl
    | some m =>
      rw [Option.bind_some, Positions.ofPosition, Positions.pick_single (Atomic.position?_pos hpos)]
      exact single_of_result ha (m - 1) n.location
  exact (Source.toList_eq _ w).trans (congrArg delivered hall)

/-- The first result, if there is one. -/
theorem toList_first (ha : Located (a.outcomes f w)) (n : Note) :
    (((ofItem n fun f => (a.items f).head?).toList f).perform w).1 =
      delivered (Positions.pick ⟨1, some 1⟩ (a.outcomes f w)) := by
  have hhead : (((a.items f).head?).perform w).1 = (a.outcomes f w)[0]?.elim (.ok none) (·.map some) :=
    Source.get?_eq (a.items f) 0 w
  have hall : (ofItem n fun f => (a.items f).head?).outcomes f w = Positions.pick ⟨1, some 1⟩ (a.outcomes f w) := by
    refine (outcomes_ofOption ((a.items f).head?) n.location w).trans ?_
    rw [hhead]
    exact single_of_result ha 0 n.location
  exact (Source.toList_eq _ w).trans (congrArg delivered hall)

end Ways

/-! Values that are put off. -/

namespace Value

/-- The number of items to skip does not run over. -/
def CanSkip (v : Value) (n : ℕ) : Prop := ∀ d skip, v = .deferred d skip → skip + n < pow2 64

variable {v : Value} {n : ℕ}

theorem exists_tail? (h : v.CanSkip n) : ∃ t, v.tail? n = some t := by
  cases v with
  | items xs => exact ⟨_, rfl⟩
  | deferred d skip => exact ⟨_, if_pos (h d skip rfl)⟩

theorem outcomes_tail {t : Value} (h : v.tail? n = some t) (w : World) :
    (t.source w).outcomes.1 = ((v.source w).outcomes.1).drop n := by
  obtain ⟨xs, rfl, rfl⟩ | ⟨d, skip, rfl, -, rfl⟩ := exists_of_tail? h
  · change (Source.ofList (xs.drop n) w).outcomes.1 = ((Source.ofList xs w).outcomes.1).drop n
    rw [Source.outcomes_ofList, Source.outcomes_ofList, List.map_drop]
  · change ((d.source.drop (skip + n)) w).outcomes.1 = ((d.source.drop skip) w).outcomes.1.drop n
    rw [Source.drop, Source.drop, Pull.outcomes_drop, Pull.outcomes_drop, List.drop_drop]

/-- All items are evaluated, also those that are skipped. -/
theorem perform_tail {t : Value} (h : v.tail? n = some t) (w : World) :
    (t.toList.perform w).1 = (v.toList.perform w).1.map (·.drop n) := by
  obtain ⟨xs, rfl, rfl⟩ | ⟨d, skip, rfl, -, rfl⟩ := exists_of_tail? h
  · rfl
  · change ((do return (← d.toList).drop (skip + n) : Eval (List Item)).perform w).1 =
      (((do return (← d.toList).drop skip : Eval (List Item)).perform w).1).map _
    rw [Regime.perform_bind, Regime.perform_bind]
    cases d.toList.perform w with
    | mk r w' =>
      cases r with
      | error e => rfl
      | ok xs => exact congrArg Except.ok (List.drop_drop ..).symm

end Value

namespace Expr

section Results
variable (c : DynamicContext) (n : Note) (base : Expr) (f : Frame) (w : World)

theorem result_slice (min : ℕ) (max : Option ℕ) : (unary n (.slice min max) base).result c f w =
    delivered (Positions.pick ⟨min, max⟩ ((base.meaning c).outcomes f w)) := by
  rw [result, meaning_unary]
  exact Ways.toList_of_pick (base.located c f w) (Ways.outcomes_slice _ min max f w) n.location

theorem result_first : (unary n .first base).result c f w =
    delivered (Positions.pick ⟨1, some 1⟩ ((base.meaning c).outcomes f w)) := by
  rw [result, meaning_unary]
  exact Ways.toList_first (base.located c f w) n

theorem result_itemAt {index : Expr} {v : Atomic} {w' : World}
    (hv : ((index.meaning c).value? f).perform w = (.ok (some v), w')) : (binary n .itemAt base index).result c f w =
    delivered ((Positions.ofPosition v.position?).pick ((base.meaning c).outcomes f w')) := by
  rw [result, meaning_binary]
  exact Ways.toList_itemAt hv (base.located c f w') n

theorem select_once (predicate : Expr) (hfocus : predicate.info.dependencies.focus = false) :
    (base.meaning c).select (predicate.meaning c).toWays f =
      (base.meaning c).selectOnce (predicate.meaning c).toWays f := by
  rw [Ways.select, meaning_note, if_neg (by rw [show predicate.note.info = predicate.info from rfl, hfocus]; simp)]

theorem result_filter_number {predicate : Expr} (positional : Bool) (hfocus : predicate.info.dependencies.focus = false)
    {v : Atomic} (hnumber : v.isNumeric) {w' : World}
    (hv : ((predicate.meaning c).toList f).perform w = (.ok [.atomic v], w')) :
    (binary n (.filter positional) base predicate).result c f w =
      delivered ((Positions.ofPosition v.position?).pick ((base.meaning c).outcomes f w')) := by
  rw [result, meaning_binary]
  have hchosen : ((base.meaning c).select (predicate.meaning c).toWays f w).outcomes.1 =
      (Positions.ofPosition v.position?).pick ((base.meaning c).outcomes f w') := by
    rw [select_once c base f predicate hfocus, Ways.outcomes_selectOnce hv, Ways.chosenBy_number hnumber]
  exact Ways.toList_of_pick (base.located c f w') hchosen n.location

end Results

/-- Selecting by a number that is the same for every item, by an item's position, the first item, a slice, or
the tail of a value that is put off delivers what stands at the positions: the items, or the first failure
among them. A failure that comes before the first of the positions is passed over; if there is none,
the selection is as due. Of a tail that is evaluated at once no failure is passed over. -/
theorem selections_deliver (c : DynamicContext) (base : Expr) (f : Frame) (n : Note) (w : World) :
    let results := (base.meaning c).outcomes f
    (∀ min max, Selects ⟨min, max⟩ (results w) ((unary n (.slice min max) base).result c f w)) ∧
    Selects ⟨1, some 1⟩ (results w) ((unary n .first base).result c f w) ∧
    (∀ index v w', ((index.meaning c).value? f).perform w = (.ok (some v), w') →
      Selects (.ofPosition v.position?) (results w') ((binary n .itemAt base index).result c f w)) ∧
    (∀ positional predicate v w', predicate.info.dependencies.focus = false → v.isNumeric →
      ((predicate.meaning c).toList f).perform w = (.ok [.atomic v], w') →
      Selects (.ofPosition v.position?) (results w') ((binary n (.filter positional) base predicate).result c f w)) ∧
    ∀ (v : Value) k, v.CanSkip k → ∃ t, v.tail? k = some t ∧
      Selects ⟨k + 1, none⟩ (v.source w).outcomes.1 (t.source.toList.perform w).1 ∧
      (t.toList.perform w).1 = (v.toList.perform w).1.map (·.drop k) := by
  refine ⟨fun min max => .of_delivers ?_, .of_delivers ?_, fun index v w' hv => .of_delivers ?_,
    fun positional predicate v w' hfocus hnumber hv => .of_delivers ?_, fun v k hk => ?_⟩
  · exact result_slice c n base f w min max
  · exact result_first c n base f w
  · exact result_itemAt c n base f w hv
  · exact result_filter_number c n base f w positional hfocus hnumber hv
  · obtain ⟨t, ht⟩ := Value.exists_tail? hk
    refine ⟨t, ht, .of_delivers ?_, Value.perform_tail ht w⟩
    rw [Source.toList_eq, Value.outcomes_tail ht]
    rfl

/-- `error()` between `4` and `5` -/
def failsBetween : Expr :=
  .mkNary .block [.constantAt (.integer 4) 0, .callAt .error [] 1, .constantAt (.integer 5) 0] 0

/-- The third item is selected by a number, by its position and by leaving out the first two; the first item of the
tail of a value that is put off is asked for. -/
theorem selections_deliver_third :
    let third := constantAt (.integer 3) 0
    let results := [.ok (.atomic (.ofInt 4)), .error ⟨.raised, some 1⟩, .ok (.atomic (.ofInt 5))]
    let start : World := { forest := {} }
    let late : Value := .deferred ⟨0, false, (failsBetween.meaning {}).items {}⟩ 0
    Selects ⟨3, some 3⟩ results ((binary { location := 0 } (.filter true) failsBetween third).result {} {} start) ∧
    Selects ⟨3, some 3⟩ results ((binary { location := 0 } .itemAt failsBetween third).result {} {} start) ∧
    late.CanSkip 2 ∧ ∃ t, late.tail? 2 = some t ∧
      (t.toList.perform start).1 = (late.toList.perform start).1.map (·.drop 2) := by
  intro third results start late
  have hlate : late.CanSkip 2 := by
    intro d skip h
    have hskip : 0 = skip := (Value.deferred.inj h).2
    subst hskip
    decide
  obtain ⟨-, -, hindex, hfilter, htail⟩ := selections_deliver {} failsBetween {} { location := 0 } start
  obtain ⟨t, ht, -, hall⟩ := htail late 2 hlate
  exact ⟨hfilter true third (.ofInt 3) start rfl rfl rfl, hindex third (.ofInt 3) start rfl, hlate, t, ht, hall⟩

/-- The third item is selected although the second one fails. -/
theorem selections_hide_failure :
    (binary { location := 0 } (.filter true) failsBetween (constantAt (.integer 3) 0)).result {} {} { forest := {} } =
      .ok [.atomic (.ofInt 5)] ∧
    Positions.due ⟨3, some 3⟩ ((failsBetween.meaning {}).outcomes {} { forest := {} }) =
      .error ⟨.raised, some 1⟩ :=
  ⟨rfl, rfl⟩

end Expr
end XPath
