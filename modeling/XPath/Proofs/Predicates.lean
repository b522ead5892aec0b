import XPath.Proofs.Selecting

/-!
Predicates that only ask for the position. Such a predicate has the same truth for all items at a position, in every
world, and it is true at the positions of an interval; so what it selects is what stands there.
-/
namespace XPath

/-- What is chosen among some things that are numbered from one. -/
def filtered {α : Type} (chosen : α × ℕ → Bool) (xs : List α) : List α := ((xs.zipIdx 1).filter chosen).map Prod.fst

namespace Positions
variable {p q : Positions} {n : ℕ} {α : Type}

/-- Whether the position is among them. -/
def has (p : Positions) (n : ℕ) : Bool := p.min ≤ n && p.max.all (n ≤ ·)

/-- The first position is one that a number can stand for. -/
structure IsProper (p : Positions) : Prop where
  pos : 0 < p.min
  small : (p.min : ℤ) < pow2 63

theorem has_intersect : (p.intersect q).has n = (p.has n && q.has n) := by
  unfold has intersect
  cases p.max <;> cases q.max <;> grind

theorem IsProper.intersect (hp : p.IsProper) (hq : q.IsProper) : (p.intersect q).IsProper := by
  obtain ⟨hp, hp'⟩ := hp
  obtain ⟨hq, hq'⟩ := hq
  refine ⟨?_, ?_⟩ <;> unfold Positions.intersect <;> dsimp only <;> omega

theorem isProper_ofInts {i : ℤ} (h : i < pow2 63) (max : Option ℤ) : (ofInts i max).IsProper := by
  unfold ofInts
  have hpow : (1 : ℤ) < pow2 63 := by decide
  exact ⟨by dsimp only; omega, by dsimp only; omega⟩

theorem has_ofInts {k : ℕ} (hk : 0 < k) (i : ℤ) (max : Option ℤ) :
    (ofInts i max).has k = (i ≤ k && max.all ((k : ℤ) ≤ ·)) := by
  unfold ofInts has
  rw [Bool.eq_iff_iff]
  cases max with
  | none =>
    simp only [Option.map_none, Option.all_none, Bool.and_true, decide_eq_true_iff]
    omega
  | some m =>
    simp only [Option.map_some, Option.all_some, Bool.and_eq_true, decide_eq_true_iff]
    omega

/-- What is kept of things that are numbered from `k` on. -/
private theorem map_filter_has (p : Positions) (xs : List α) (k : ℕ) :
    ((xs.zipIdx k).filter fun q => p.has q.2).map Prod.fst = match p.max with
      | some max => (xs.drop (p.min - k)).take (max + 1 - Max.max p.min k)
      | .none => xs.drop (p.min - k) := by
  obtain ⟨min, max⟩ := p
  induction xs generalizing k with
  | nil => cases max <;> simp
  | cons x xs ih =>
    rw [List.zipIdx_cons, List.filter_cons]
    by_cases hmin : min ≤ k
    · have hnow : min - k = 0 := by omega
      have hnext : min - (k + 1) = 0 := by omega
      cases max with
      | none =>
        rw [if_pos (by simp [has, hmin]), List.map_cons, ih]
        dsimp only
        rw [hnow, hnext]
        rfl
      | some max =>
        by_cases hle : k ≤ max
        · rw [if_pos (by simp [has, hmin, hle]), List.map_cons, ih]
          dsimp only
          rw [hnow, hnext, show max + 1 - Max.max min k = (max + 1 - Max.max min (k + 1)) + 1 by omega]
          rfl
        · rw [if_neg (by simp [has, hle]), ih]
          dsimp only
          rw [show max + 1 - Max.max min k = 0 by omega, show max + 1 - Max.max min (k + 1) = 0 by omega,
            List.take_zero, List.take_zero]
    · rw [if_neg (by simp [has, hmin]), ih]
      dsimp only
      rw [show min - k = (min - (k + 1)) + 1 by omega, show Max.max min k = Max.max min (k + 1) by omega]
      rfl

/-- What stands at the positions is what is kept of the things whose number is among them. -/
theorem pick_eq_filtered (hp : 0 < p.min) (xs : List α) : p.pick xs = filtered (fun q => p.has q.2) xs := by
  unfold pick filtered
  rw [map_filter_has p xs 1]
  cases p.max with
  | none => rfl
  | some max =>
    dsimp only
    rw [show max + 1 - Max.max p.min 1 = max - (p.min - 1) by omega]

end Positions

/-! Expressions that give the same items in every world. -/

/-- The integers as items. -/
def Item.integers (is : List ℤ) : List Item := is.map fun i => .atomic (.ofInt i)

namespace Source

theorem mapError_ofList {α : Type} (xs : List α) (g : Failure → Failure) :
    (ofList xs : Source World Failure α).mapError g = ofList xs := by
  induction xs with
  | nil => rfl
  | cons x xs ih => exact funext fun w => congrArg (Pull.item (.ok x) w) ih

theorem mapM_ofList {α β γ : Type} {g : β → Eval γ} {k : α → β} {h : α → γ} (hg : ∀ x, g (k x) = pure (h x))
    (xs : List α) : (ofList (xs.map k) : Source World Failure β).mapM g = ofList (xs.map h) := by
  induction xs with
  | nil => rfl
  | cons x xs ih =>
    funext w
    change (match (g (k x)).perform w with | (r, w) => Pull.item r w ((ofList (xs.map k)).mapM g)) = _
    rw [hg x, ih]
    rfl

/-- A search that ends with the first item found. -/
theorem forIn_ofList {α β : Type} {g : β → Eval Bool} {k : α → β} {t : α → Bool} (hg : ∀ x, g (k x) = pure (t x))
    (xs : List α) : ((ofList (xs.map k) : Source World Failure β).forIn false fun _ y => do
      if ← g y then return .done true else return .yield false) = pure (xs.any t) := by
  induction xs with
  | nil => rfl
  | cons x xs ih =>
    funext w
    rw [List.any_cons]
    change (Pull.item (.ok (k x)) w (ofList (xs.map k))).forIn false _ = _
    unfold Pull.forIn
    rw [hg x]
    cases t x with
    | true => rfl
    | false => exact congrFun ih w

end Source

theorem Atomic.anyM_compareGeneral (op : ComparisonOp) (is : List ℤ) (j : ℤ) :
    ((is.map ofInt).anyM fun x => x.compareGeneral op (ofInt j)) = .ok (is.any fun i => op.test (compare i j)) := by
  induction is with
  | nil => rfl
  | cons i is ih =>
    have hpair : (ofInt i).compareGeneral op (ofInt j) = .ok (op.test (compare i j)) := rfl
    rw [List.map_cons, List.anyM_cons, hpair, List.any_cons]
    cases op.test (compare i j) with
    | true => rfl
    | false => exact ih

namespace Ways
variable {a b : Ways} {f g : Frame}

theorem values_integers {is : List ℤ} (h : a.items f = .ofList (Item.integers is)) :
    a.values f = .ofList (is.map .ofInt) := by
  unfold values
  rw [h]
  exact Source.mapM_ofList (g := Eval.value) (k := fun i => Item.atomic (.ofInt i)) (fun _ => rfl) is

/-- Whether some integers compare as asked. -/
theorem compareAny_integers {op : ComparisonOp} {is js : List ℤ} (ha : a.items f = .ofList (Item.integers is))
    (hb : b.items f = .ofList (Item.integers js)) :
    BinaryOp.compareAny op a b f = pure (js.any fun j => is.any fun i => op.test (compare i j)) := by
  have hsearch := Source.forIn_ofList (k := Atomic.ofInt)
    (g := fun y => Eval.ofExcept ((is.map Atomic.ofInt).anyM fun x : Atomic => x.compareGeneral op y))
    (t := fun j => is.any fun i => op.test (compare i j)) (fun j => by rw [Atomic.anyM_compareGeneral]; rfl) js
  unfold BinaryOp.compareAny
  rw [values_integers ha, values_integers hb, Source.toList_ofList, pure_bind]
  cases is with
  | nil => exact congrArg pure (List.any_eq_false.2 fun _ _ => Bool.false_ne_true).symm
  | cons i is => exact hsearch

end Ways

namespace Expr
variable {e a b : Expr} {c : DynamicContext} {f : Frame} {w : World}

theorem items_ofItem {n : Note} {p : Frame → Eval (Option Item)} {o : Option Item} (h : p f = pure o) :
    (Ways.ofItem n p).items f = .ofOption o := by
  change Source.after (do return .ofOption (← (p f).orAt n.location)) = _
  rw [h]
  rfl

/-- The only item, if it is the same in every world. -/
theorem value_of_items {v : Atomic} (h : (e.meaning c).items f = .ofList [.atomic v]) :
    (e.meaning c).value? f = pure (some v) := by
  have hitem : (e.meaning c).item f = pure (some (.atomic v)) := by
    funext w
    have honly := (e.coherent c).item f w
    rw [Ways.toList, h, Source.toList_ofList] at honly
    exact honly
  unfold Ways.value?
  rw [hitem]
  rfl

theorem items_position (h : e.isPositionCall) (c : DynamicContext) (f : Frame) (x : Item) (k : ℕ) (size : Option ℕ) :
    (e.meaning c).items (f.withFocus x k size) = .ofList (Item.integers [k]) := by
  unfold isPositionCall at h
  split at h
  · rw [meaning_nary]
    rfl
  · cases h

/-- A literal that is an integer of machine size. -/
theorem items_smallInteger {i : ℤ} (h : e.smallInteger? = some i) (c : DynamicContext) (f : Frame) :
    (e.meaning c).items f = .ofList (Item.integers [i]) ∧ i < pow2 63 := by
  unfold smallInteger? at h
  split at h
  · next j heq =>
    unfold constant? at heq
    split at heq
    · cases heq
      unfold Atomic.toIndex? Atomic.ofInt at h
      dsimp only at h
      split at h
      · next hrange =>
        cases h
        exact ⟨rfl, hrange.2⟩
      · cases h
    · cases heq
  · cases h

theorem count_eq (i : ℤ) (n : ℕ) :
    BinaryOp.count i n = .ofList (Item.integers ((List.range n).map fun k : ℕ => i + k)) := by
  induction n generalizing i with
  | zero => rfl
  | succ n ih =>
    have hrest : (List.range n).map (fun k : ℕ => i + 1 + (k : ℤ)) = ((List.range n).map Nat.succ).map fun k : ℕ => i + k := by
      rw [List.map_map]
      exact List.map_congr_left fun k _ => by simp only [Function.comp_apply, Nat.succ_eq_add_one]; omega
    rw [List.range_succ_eq_map, List.map_cons, ← hrest, Nat.cast_zero, add_zero]
    funext w
    change Pull.item (.ok (.atomic (.ofInt i))) w (BinaryOp.count (i + 1) n) =
      Pull.item (.ok (.atomic (.ofInt i))) w (Source.ofList (Item.integers _))
    rw [ih]

/-- The integers between two literals. -/
theorem items_range {n : Note} {low high : Expr} {i j : ℤ} (hi : (low.meaning c).items f = .ofList (Item.integers [i]))
    (hj : (high.meaning c).items f = .ofList (Item.integers [j])) : ((binary n .range low high).meaning c).items f =
      .ofList (Item.integers ((List.range (j + 1 - i).toNat).map fun k : ℕ => i + k)) := by
  rw [meaning_binary]
  change (BinaryOp.integers (low.meaning c).toWays (high.meaning c).toWays f).mapError _ = _
  have hend (x : Expr) {m : ℤ} (hx : (x.meaning c).items f = .ofList (Item.integers [m])) :
      BinaryOp.rangeEnd (x.meaning c).toWays f = pure (some m) := by
    unfold BinaryOp.rangeEnd
    rw [value_of_items hx]
    rfl
  unfold BinaryOp.integers
  rw [hend low hi, hend high hj, pure_bind, pure_bind]
  dsimp only
  rw [count_eq]
  exact Source.mapError_ofList _ _

end Expr

/-! Integers as positions. -/

namespace Atomic

theorem toIndex?_ofInt {i : ℤ} (hlow : -(pow2 63 : ℤ) ≤ i) (hsmall : i < pow2 63) : (ofInt i).toIndex? = some i := by
  unfold toIndex? ofInt
  dsimp only
  rw [if_pos (And.intro hlow hsmall)]

theorem position?_of_toIndex? {v : Atomic} (hv : v.isNumeric) {i : ℤ} (h : v.toIndex? = some i) :
    v.position? = if 0 < i then some i.toNat else none := by
  unfold position?
  rw [if_pos hv, h]
  cases i with
  | negSucc n => rfl
  | ofNat n =>
    cases n with
    | zero => rfl
    | succ n => exact (if_pos (Int.natCast_pos.2 n.succ_pos)).symm

theorem position?_ofInt {m : ℕ} (hpos : 0 < m) (hsmall : (m : ℤ) < pow2 63) : (ofInt m).position? = some m := by
  have hlow : -(pow2 63 : ℤ) ≤ m := (neg_nonpos.2 (Int.natCast_nonneg _)).trans (Int.natCast_nonneg _)
  rw [position?_of_toIndex? rfl (toIndex?_ofInt hlow hsmall), if_pos (Int.natCast_pos.2 hpos)]
  rfl

end Atomic

/-! Comparisons with the position. -/

theorem ComparisonOp.test_inverse (op : ComparisonOp) (i j : ℤ) : op.inverse.test (compare i j) = op.test (compare j i) := by
  rw [← Int.compare_swap]
  cases op <;> cases compare j i <;> rfl

namespace Expr
variable {e a b : Expr} {op : ComparisonOp} {p : Positions}

theorem positionsOf_has {i : ℤ} (hi : i < pow2 63) (h : positionsOf op i = some p) :
    p.IsProper ∧ ∀ k : ℕ, 0 < k → (k : ℤ) < largestIndex → p.has k = op.test (compare (k : ℤ) i) := by
  have hlargest : largestIndex = pow2 63 - 1 := rfl
  have hpow : (2 : ℤ) < pow2 63 := by decide
  cases op <;> cases h
  all_goals
    refine ⟨Positions.isProper_ofInts (by omega) _, fun k hk hlt => ?_⟩
    rw [Positions.has_ofInts hk, Bool.eq_iff_iff]
    simp only [ComparisonOp.test, Option.all_none, Option.all_some, Bool.and_eq_true, Bool.and_true,
      decide_eq_true_iff, beq_iff_eq, bne_iff_ne, ne_eq, compare_lt_iff_lt, compare_gt_iff_gt, compare_eq_iff_eq]
    omega

/-- What a position is compared with: one integer, or the integers of a range. -/
theorem positionsAgainst_has {general : Bool} (h : positionsAgainst op general e = some p) :
    ∃ js, (∀ c f, (e.meaning c).items f = .ofList (Item.integers js)) ∧ (general = false → ∃ j, js = [j]) ∧
      p.IsProper ∧
      ∀ k : ℕ, 0 < k → (k : ℤ) < largestIndex → p.has k = js.any fun j => op.test (compare (k : ℤ) j) := by
  unfold positionsAgainst at h
  split at h
  · next n low high =>
    split at h
    · next hop =>
      obtain ⟨hgeneral, rfl⟩ : general = true ∧ op = .eq := by simpa using hop
      obtain ⟨i, hi, h⟩ := Option.bind_eq_some_iff.1 h
      obtain ⟨j, hj, h⟩ := Option.bind_eq_some_iff.1 h
      cases h
      refine ⟨(List.range (j + 1 - i).toNat).map fun k : ℕ => i + k, fun c f => ?_, fun hfalse => ?_,
        Positions.isProper_ofInts ?_ _, fun k hk _ => ?_⟩
      · exact items_range (items_smallInteger hi c f).1 (items_smallInteger hj c f).1
      · rw [hgeneral] at hfalse
        cases hfalse
      · exact (items_smallInteger hi {} {}).2
      · rw [Positions.has_ofInts hk, Bool.eq_iff_iff, List.any_eq_true]
        simp only [Option.all_some, Bool.and_eq_true, decide_eq_true_iff, List.mem_map, List.mem_range,
          ComparisonOp.test, beq_iff_eq, compare_eq_iff_eq]
        constructor
        · rintro ⟨hle, hle'⟩
          exact ⟨k, ⟨(k - i).toNat, by omega, by omega⟩, rfl⟩
        · rintro ⟨_, ⟨m, hm, rfl⟩, heq⟩
          omega
    · cases h
  · obtain ⟨i, hi, hp⟩ := Option.bind_eq_some_iff.1 h
    have hitems := items_smallInteger hi
    obtain ⟨hproper, hhas⟩ := positionsOf_has (hitems {} {}).2 hp
    refine ⟨[i], fun c f => (hitems c f).1, fun _ => ⟨i, rfl⟩, hproper, fun k hk hlt => ?_⟩
    rw [hhas k hk hlt, List.any_cons, List.any_nil, Bool.or_false]

end Expr

/-- A predicate that only asks for the position, and gives whether it is among these. The largest integer of machine
size counts as the last position. -/
structure AsksPosition (P : Expr) (p : Positions) (t : ℕ → Bool) : Prop where
  proper : p.IsProper
  items (c : DynamicContext) (f : Frame) (x : Item) (k : ℕ) (size : Option ℕ) :
    (P.meaning c).items (f.withFocus x k size) = .ofList [.atomic (.boolean (t k))]
  has (k : ℕ) : 0 < k → (k : ℤ) < Expr.largestIndex → p.has k = t k

namespace Expr
variable {e a b : Expr} {op : ComparisonOp} {p : Positions}

theorem items_generalComparison (n : Note) (op : ComparisonOp) {c : DynamicContext} {f : Frame} {is js : List ℤ}
    (ha : (a.meaning c).items f = .ofList (Item.integers is)) (hb : (b.meaning c).items f = .ofList (Item.integers js)) :
    ((binary n (.generalComparison op) a b).meaning c).items f =
      .ofList [.atomic (.boolean (js.any fun j => is.any fun i => op.test (compare i j)))] := by
  rw [meaning_binary]
  refine items_ofItem (n := n) (o := UnaryOp.truth _) ?_
  rw [Ways.compareAny_integers ha hb]
  rfl

theorem items_valueComparison (n : Note) (op : ComparisonOp) {c : DynamicContext} {f : Frame} {i j : ℤ}
    (ha : (a.meaning c).items f = .ofList (Item.integers [i])) (hb : (b.meaning c).items f = .ofList (Item.integers [j])) :
    ((binary n (.valueComparison op) a b).meaning c).items f =
      .ofList [.atomic (.boolean (op.test (compare i j)))] := by
  rw [meaning_binary]
  refine items_ofItem (n := n) (o := some (.atomic (.boolean _))) ?_
  unfold BinaryOp.lift
  rw [value_of_items ha, value_of_items hb]
  rfl

/-- A comparison with the position, on one side or the other. -/
theorem comparedPositions_asks {general : Bool} (h : comparedPositions op general a b = some p) (n : Note) :
    ∃ t, AsksPosition (binary n (if general then .generalComparison op else .valueComparison op) a b) p t := by
  unfold comparedPositions at h
  split at h
  · next ha =>
    obtain ⟨js, hitems, hone, hproper, hhas⟩ := positionsAgainst_has h
    refine ⟨fun k => js.any fun j => op.test (compare (k : ℤ) j), hproper, fun c f x k size => ?_, hhas⟩
    have hk := items_position ha c f x k size
    cases general with
    | true =>
      have hall := items_generalComparison n op hk (hitems c (f.withFocus x k size))
      simpa using hall
    | false =>
      obtain ⟨j, rfl⟩ := hone rfl
      have hall := items_valueComparison n op hk (hitems c (f.withFocus x k size))
      simpa using hall
  · split at h
    · next hb =>
      obtain ⟨js, hitems, hone, hproper, hhas⟩ := positionsAgainst_has h
      simp only [ComparisonOp.test_inverse] at hhas
      refine ⟨fun k => js.any fun j => op.test (compare j (k : ℤ)), hproper, fun c f x k size => ?_, hhas⟩
      have hk := items_position hb c f x k size
      cases general with
      | true =>
        have hall := items_generalComparison n op (hitems c (f.withFocus x k size)) hk
        simpa using hall
      | false =>
        obtain ⟨j, rfl⟩ := hone rfl
        have hall := items_valueComparison n op (hitems c (f.withFocus x k size)) hk
        simpa using hall
    · cases h

theorem truth_of_items {c : DynamicContext} {f : Frame} {t : Bool}
    (h : (e.meaning c).items f = .ofList [.atomic (.boolean t)]) : (e.meaning c).truth f = pure t := by
  unfold Ways.truth
  rw [h]
  rfl

/-- A predicate of which the positions are known asks for nothing else. -/
theorem positions_asks {P : Expr} (h : P.positions? = some p) : ∃ t, AsksPosition P p t := by
  fun_induction positions? P generalizing p with
  | case1 n a b iha ihb =>
    obtain ⟨p₁, h₁, h⟩ := Option.bind_eq_some_iff.1 h
    obtain ⟨p₂, h₂, h⟩ := Option.bind_eq_some_iff.1 h
    cases h
    obtain ⟨t, ht⟩ := iha h₁
    obtain ⟨u, hu⟩ := ihb h₂
    refine ⟨fun k => t k && u k, ht.proper.intersect hu.proper, fun c f x k size => ?_, fun k hk hlt => ?_⟩
    · rw [meaning_binary]
      refine items_ofItem (n := n) (o := UnaryOp.truth _) ?_
      rw [truth_of_items (ht.items c f x k size), truth_of_items (hu.items c f x k size), pure_bind]
      cases t k <;> rfl
    · rw [Positions.has_intersect, ht.has k hk hlt, hu.has k hk hlt]
  | case2 n op a b => exact comparedPositions_asks h n
  | case3 n op a b => exact comparedPositions_asks h n
  | case4 => cases h

theorem effects_smallInteger {i : ℤ} (h : e.smallInteger? = some i) : e.effects = {} := by
  unfold smallInteger? constant? at h
  split at h
  · next heq =>
    split at heq
    · rfl
    · cases heq
  · cases h

theorem effects_positionsAgainst {general : Bool} (h : positionsAgainst op general e = some p) : e.effects = {} := by
  unfold positionsAgainst at h
  split at h
  · split at h
    · obtain ⟨i, hi, h⟩ := Option.bind_eq_some_iff.1 h
      obtain ⟨j, hj, -⟩ := Option.bind_eq_some_iff.1 h
      rw [effects_binary, effects_smallInteger hi, effects_smallInteger hj]
      rfl
    · cases h
  · obtain ⟨i, hi, -⟩ := Option.bind_eq_some_iff.1 h
    exact effects_smallInteger hi

theorem effects_positionCall (h : e.isPositionCall) : e.effects = ⟨{ position := true }, false⟩ := by
  unfold isPositionCall at h
  split at h
  · rfl
  · cases h

/-- Such a predicate reads the position and nothing else. -/
theorem effects_positions {P : Expr} (h : P.positions? = some p) : P.effects = ⟨{ position := true }, false⟩ := by
  have hcompared {op : ComparisonOp} {general : Bool} {a b : Expr} {p : Positions}
      (h : comparedPositions op general a b = some p) :
      a.effects ∪ b.effects = ⟨{ position := true }, false⟩ := by
    unfold comparedPositions at h
    split at h
    · next ha => rw [effects_positionCall ha, effects_positionsAgainst h]; rfl
    · split at h
      · next hb => rw [effects_positionCall hb, effects_positionsAgainst h]; rfl
      · cases h
  fun_induction positions? P generalizing p with
  | case1 n a b iha ihb =>
    obtain ⟨p₁, h₁, h⟩ := Option.bind_eq_some_iff.1 h
    obtain ⟨p₂, h₂, -⟩ := Option.bind_eq_some_iff.1 h
    rw [effects_binary, iha h₁, ihb h₂]
    rfl
  | case2 n op a b => exact (effects_binary ..).trans (hcompared h)
  | case3 n op a b => exact (effects_binary ..).trans (hcompared h)
  | case4 => cases h

end Expr

/-! What is chosen by a predicate that is asked for every item. -/

/-- What is left of some results, which are numbered from `k` on; where the predicate fails, its failure is. -/
def judged {α : Type} (verdict : ℕ → α → Except Failure Bool) : ℕ → List (Except Failure α) → List (Except Failure α)
  | _, [] => []
  | k, .error e :: rs => .error e :: judged verdict (k + 1) rs
  | k, .ok x :: rs => match verdict k x with
    | .ok true => .ok x :: judged verdict (k + 1) rs
    | .ok false => judged verdict (k + 1) rs
    | .error e => .error e :: judged verdict (k + 1) rs

/-- Something is delivered if neither the results nor the predicate fail. -/
theorem delivered_judged {α : Type} {verdict : ℕ → α → Except Failure Bool} {k : ℕ} {rs : List (Except Failure α)}
    {ys : List α} : delivered (judged verdict k rs) = .ok ys ↔ ∃ (xs : List α) (chosen : α × ℕ → Bool), rs = xs.map .ok ∧
      (∀ q ∈ xs.zipIdx k, verdict q.2 q.1 = .ok (chosen q)) ∧ ys = ((xs.zipIdx k).filter chosen).map Prod.fst := by
  constructor
  · intro h
    suffices hall : ∃ xs : List α, rs = xs.map .ok ∧ (∀ q ∈ xs.zipIdx k, (verdict q.2 q.1).isOk) ∧
        ys = ((xs.zipIdx k).filter fun q => (verdict q.2 q.1).toOption.getD false).map Prod.fst by
      obtain ⟨xs, hrs, hok, hys⟩ := hall
      refine ⟨xs, _, hrs, fun q hq => ?_, hys⟩
      have hq := hok q hq
      generalize verdict q.2 q.1 = r at hq
      cases r with
      | error e => cases hq
      | ok t => rfl
    fun_induction judged verdict k rs generalizing ys with
    | case1 k =>
      cases h
      exact ⟨[], rfl, nofun, rfl⟩
    | case2 k e rs => cases h
    | case3 k x rs hx ih =>
      rw [delivered_ok] at h
      obtain ⟨zs, hzs, rfl⟩ := ok_of_map h
      obtain ⟨xs, rfl, hok, rfl⟩ := ih hzs
      refine ⟨x :: xs, rfl, ?_, ?_⟩
      · rw [List.zipIdx_cons]
        exact List.forall_mem_cons.2 ⟨hx ▸ rfl, hok⟩
      · rw [List.zipIdx_cons, List.filter_cons, if_pos (by rw [hx]; rfl)]
        rfl
    | case4 k x rs hx ih =>
      obtain ⟨xs, rfl, hok, rfl⟩ := ih h
      refine ⟨x :: xs, rfl, ?_, ?_⟩
      · rw [List.zipIdx_cons]
        exact List.forall_mem_cons.2 ⟨hx ▸ rfl, hok⟩
      · rw [List.zipIdx_cons, List.filter_cons, if_neg (by rw [hx]; exact Bool.false_ne_true)]
    | case5 k x rs e hx => cases h
  · rintro ⟨xs, chosen, rfl, hverdict, rfl⟩
    induction xs generalizing k with
    | nil => rfl
    | cons x xs ih =>
      rw [List.zipIdx_cons] at hverdict
      obtain ⟨hx, hxs⟩ := List.forall_mem_cons.1 hverdict
      dsimp only at hx
      rw [List.map_cons, judged, hx, List.zipIdx_cons, List.filter_cons]
      cases hc : chosen (x, k) with
      | true => exact (delivered_ok x _).trans (by rw [ih hxs]; rfl)
      | false => exact ih hxs

theorem Pull.outcomes_filterM {α : Type} {test : ℕ → α → Eval Bool} {t : ℕ → α → Bool}
    (h : ∀ k x, test k x = pure (t k x)) (p : Pull World Failure α) (k : ℕ) :
    (p.filterM test k).outcomes.1 = judged (fun k x => .ok (t k x)) k p.outcomes.1 := by
  induction p generalizing k with
  | done w => rfl
  | item r w rest ih =>
    cases r with
    | error e => exact congrArg (Except.error e :: ·) (ih w (k + 1))
    | ok x =>
      rw [filterM, h, outcomes_item, judged]
      cases t k x with
      | true => exact congrArg (Except.ok x :: ·) (ih w (k + 1))
      | false => exact ih w (k + 1)

theorem Positions.pick_map {α β : Type} (p : Positions) (g : α → β) (xs : List α) : p.pick (xs.map g) = (p.pick xs).map g := by
  unfold pick
  cases p.max with
  | none => exact List.map_drop.symm
  | some max => simp only [List.map_drop, List.map_take]

/-- Among fewer things than there are positions, what is kept is what stands at the positions. -/
theorem AsksPosition.filtered_eq {P : Expr} {p : Positions} {t : ℕ → Bool} (h : AsksPosition P p t) {α : Type} {xs : List α}
    (hlength : (xs.length : ℤ) < Expr.largestIndex) : filtered (fun q => t q.2) xs = p.pick xs := by
  rw [Positions.pick_eq_filtered h.proper.pos]
  unfold filtered
  refine congrArg (List.map Prod.fst) (List.filter_congr fun q hq => (h.has q.2 ?_ ?_).symm)
  · exact List.le_snd_of_mem_zipIdx hq
  · have hlt := List.snd_lt_of_mem_zipIdx hq
    omega

namespace Expr
variable (c : DynamicContext) (n : Note) (base predicate : Expr) (f : Frame) (w : World)

/-- Selecting by a predicate that asks for the context. -/
theorem select_each (hfocus : predicate.info.dependencies.focus) :
    (base.meaning c).select (predicate.meaning c).toWays f =
      (base.meaning c).selectEach (predicate.meaning c).toWays f := by
  rw [Ways.select, meaning_note, if_pos (show predicate.note.info.dependencies.focus = true from hfocus)]

/-- If the predicate does not ask for the number of the items, they are taken one by one. -/
theorem selectEach_items (hlast : predicate.info.dependencies.last = false) :
    (base.meaning c).selectEach (predicate.meaning c).toWays f =
      ((base.meaning c).items f).filterM fun k x => (predicate.meaning c).holdsAt (f.withFocus x k none) k := by
  unfold Ways.selectEach Ways.counted
  rw [meaning_note, if_neg (by rw [show predicate.note.info = predicate.info from rfl, hlast]; exact Bool.false_ne_true)]
  rfl

theorem result_filter (positional : Bool) : (binary n (.filter positional) base predicate).result c f w =
    (delivered ((base.meaning c).select (predicate.meaning c).toWays f w).outcomes.1).mapError
      (Failure.orAt n.location) := by
  rw [result, meaning_binary]
  refine (Source.toList_eq _ w).trans ?_
  rw [← delivered_map_error]
  exact congrArg (fun r : List (Except Failure Item) × World => delivered r.1)
    (Pull.outcomes_mapError (Failure.orAt n.location) ((base.meaning c).select (predicate.meaning c).toWays f w))

variable {c n base predicate f w}

/-- A predicate that does not ask for the context is evaluated once, and then the base is, in the world that it leaves. -/
theorem filter_once {positional : Bool} {ys : List Item} (hfocus : predicate.info.dependencies.focus = false) :
    (binary n (.filter positional) base predicate).result c f w = .ok ys ↔
      ∃ v w', ((predicate.meaning c).toList f).perform w = (.ok v, w') ∧
        delivered (Ways.chosenBy v ((base.meaning c).outcomes f w')) = .ok ys := by
  rw [result_filter, select_once _ _ _ _ hfocus]
  cases hv : ((predicate.meaning c).toList f).perform w with
  | mk r w' =>
    cases r with
    | error e =>
      unfold Ways.selectOnce Source.after
      rw [Regime.perform_bind, show ((predicate.meaning c).toWays.toList f).perform w = _ from hv]
      exact iff_of_false nofun fun ⟨_, _, hv, _⟩ => nomatch congrArg Prod.fst hv
    | ok v =>
      rw [Ways.outcomes_selectOnce hv]
      constructor
      · exact fun h => ⟨v, w', rfl, ok_of_mapError h⟩
      · rintro ⟨_, _, hv, h⟩
        cases hv
        rw [h]
        rfl

/-- A predicate that only asks for the position selects what stands at the positions. -/
theorem filter_positions {p : Positions} (hp : predicate.positions? = some p)
    (hrecorded : predicate.info.effects = predicate.effects) {positional : Bool}
    (hfew : ∀ xs, base.result c f w = .ok xs → (xs.length : ℤ) < largestIndex) {ys : List Item}
    (h : (binary n (.filter positional) base predicate).result c f w = .ok ys) :
    delivered (p.pick ((base.meaning c).outcomes f w)) = .ok ys := by
  obtain ⟨t, ht⟩ := positions_asks hp
  have hreads : predicate.info.dependencies = { position := true } :=
    congrArg Effects.reads (hrecorded.trans (effects_positions hp))
  have htest (k : ℕ) (x : Item) : (predicate.meaning c).holdsAt (f.withFocus x k none) k = pure (t k) := by
    unfold Ways.holdsAt
    rw [ht.items]
    rfl
  rw [result_filter, select_each _ _ _ _ (by rw [hreads]; rfl), selectEach_items _ _ _ _ (by rw [hreads])] at h
  have hall := (congrArg delivered (Pull.outcomes_filterM htest ((base.meaning c).items f w) 1)).symm.trans
    (ok_of_mapError h)
  obtain ⟨xs, chosen, hxs, hchosen, rfl⟩ := delivered_judged.1 hall
  have hbase : base.result c f w = .ok xs := (Source.toList_eq _ w).trans (hxs ▸ delivered_items xs)
  rw [show (base.meaning c).outcomes f w = xs.map .ok from hxs, Positions.pick_map, delivered_items,
    ← ht.filtered_eq (hfew xs hbase)]
  exact congrArg Except.ok (congrArg (List.map Prod.fst)
    (List.filter_congr fun q hq => Except.ok.inj (hchosen q hq)))

end Expr
end XPath
