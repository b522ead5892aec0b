import XPath.Proofs.Binders
import XPath.Proofs.Draws

/-!
Where only the presence of items counts, a sort may be left out. A sequence has the same truth sorted and unsorted,
and whoever asks for it asks for fewer items of the unsorted one. What is asked for afterwards is not asked in the
same world, which shows only if the order of the trees is not settled; and a quantifier meets the items in
another order, which shows only if its condition fails for one of them.
-/
namespace XPath

/-- The truth of some results. -/
def truthOf (one : Atomic → Bool) : List (Except Failure Item) → Except Failure Bool
  | [] => .ok false
  | .error e :: _ => .error e
  | .ok (.node _) :: _ => .ok true
  | [.ok (.atomic a)] => .ok (one a)
  | .ok (.atomic _) :: .error e :: _ => .error e
  | .ok (.atomic _) :: .ok _ :: _ => .error { code := .invalidArgument }

theorem Items.truth_eq (src : Items) (one : Atomic → Bool) (w : World) :
    ((src.truth one).perform w).1 = truthOf one (src w).outcomes.1 := by
  rw [Regime.perform_truth]
  cases src w with
  | done w => rfl
  | item r w rest =>
    match r with
    | .error e => rfl
    | .ok (.node i) => rfl
    | .ok (.atomic a) =>
      rw [Pull.outcomes_item]
      dsimp only
      cases rest w with
      | done w => rfl
      | item r w rest => cases r <;> rfl

/-- The items after they have been sorted: the same, or the same nodes. -/
def Sorted (xs ys : List Item) : Prop :=
  ys = xs ∨ ∃ is js : List NodeId, xs = is.map .node ∧ ys = js.map .node ∧ ∀ i, i ∈ js ↔ i ∈ is

namespace Sorted
variable {xs ys : List Item}

theorem mem_iff (h : Sorted xs ys) (x : Item) : x ∈ ys ↔ x ∈ xs := by
  obtain rfl | ⟨is, js, rfl, rfl, hmem⟩ := h
  · rfl
  · simp only [List.mem_map, hmem]

theorem isEmpty_eq (h : Sorted xs ys) : ys.isEmpty = xs.isEmpty := by
  rw [Bool.eq_iff_iff, List.isEmpty_iff, List.isEmpty_iff, List.eq_nil_iff_forall_not_mem,
    List.eq_nil_iff_forall_not_mem]
  exact forall_congr' fun x => not_congr (h.mem_iff x)

/-- Some items and the same items sorted are true or not together. -/
theorem truth_eq (h : Sorted xs ys) (one : Atomic → Bool) :
    truthOf one (xs.map .ok) = truthOf one (ys.map .ok) := by
  have hempty := h.isEmpty_eq
  obtain rfl | ⟨is, js, rfl, rfl, -⟩ := h
  · rfl
  · cases is <;> cases js <;> first | rfl | cases hempty

end Sorted

theorem map_node_of_length {xs : List Item} (h : (xs.filterMap (·.node?)).length = xs.length) :
    xs = (xs.filterMap (·.node?)).map .node := by
  induction xs with
  | nil => rfl
  | cons x xs ih =>
    cases x with
    | node i => exact congrArg (Item.node i :: ·) (ih (Nat.succ.inj h))
    | atomic v =>
      have hle := List.length_filterMap_le (·.node?) xs
      change (xs.filterMap (·.node?)).length = xs.length + 1 at h
      omega

theorem sorted_of_sortItems {xs ys : List Item} {w w' : World} (h : (sortItems xs).perform w = (.ok ys, w')) :
    Sorted xs ys := by
  unfold sortItems at h
  dsimp only at h
  split at h
  · cases h
    exact .inl rfl
  · split at h
    · next hlength =>
      cases h
      exact .inr ⟨_, _, map_node_of_length hlength, rfl, fun i => DocumentOrder.mem_sort_iff⟩
    · cases h

/-! A sort and what it sorts, evaluated in the same world. -/

/-- What a sort gives where these are the results that it sorts. -/
inductive Sorts (rs : List (Except Failure Item)) : List (Except Failure Item) → Prop where
  | failure (e : Failure) : Sorts rs [.error e]
  | items {xs ys : List Item} : rs = xs.map .ok → Sorted xs ys → Sorts rs (ys.map .ok)

theorem Ways.sorts (n : Note) (a : Ways) (f : Frame) (w : World) :
    Sorts (a.outcomes f w) ((UnaryOp.sort.ways n a).outcomes f w) := by
  have hsort : (UnaryOp.sort.ways n a).outcomes f w =
      ((Source.after do return .ofList (← sortItems (← a.toList f))) w).outcomes.1.map
        (·.mapError (Failure.orAt n.location)) :=
    congrArg Prod.fst (Pull.outcomes_mapError (Failure.orAt n.location) _)
  have hitems : ((Source.after do return .ofList (← sortItems (← a.toList f))) w).outcomes.1 =
      match ((a.toList f >>= sortItems).perform w).1 with
      | .ok xs => xs.map .ok
      | .error e => [.error e] := by
    have hafter := Source.outcomes_after (a.toList f >>= sortItems) id w
    rw [bind_assoc] at hafter
    refine hafter.trans ?_
    cases ((a.toList f >>= sortItems).perform w).1 <;> rfl
  have hall : ((a.toList f).perform w).1 = delivered (a.outcomes f w) := Source.toList_eq (a.items f) w
  rw [hsort, hitems, Regime.perform_bind]
  cases ha : (a.toList f).perform w with
  | mk r w₁ =>
    rw [ha] at hall
    cases r with
    | error e => exact .failure _
    | ok xs =>
      dsimp only
      cases hs : (sortItems xs).perform w₁ with
      | mk r w₂ =>
        cases r with
        | error e => exact .failure _
        | ok ys =>
          have hys : (ys.map Except.ok).map (·.mapError (Failure.orAt n.location)) = ys.map .ok := List.map_map ..
          exact hys ▸ .items (delivered_eq_ok.1 hall.symm) (sorted_of_sortItems hs)

namespace Sorts
variable {rs rs' : List (Except Failure Item)}

theorem truth (h : Sorts rs rs') {one : Atomic → Bool} {b : Bool} (hb : truthOf one rs' = .ok b) :
    truthOf one rs = .ok b := by
  cases h with
  | failure e => cases hb
  | items hrs hsorted => rw [hrs, hsorted.truth_eq, hb]

theorem head? (h : Sorts rs rs') {o : Option Item} (ho : rs'.head?.elim (.ok none) (·.map some) = .ok o) :
    ∃ o', rs.head?.elim (.ok none) (·.map some) = .ok o' ∧ o'.isSome = o.isSome := by
  cases h with
  | failure e => cases ho
  | @items xs ys hrs hsorted =>
    subst hrs
    have hempty := hsorted.isEmpty_eq
    match xs, ys with
    | [], [] =>
      cases ho
      exact ⟨none, rfl, rfl⟩
    | x :: xs, y :: ys =>
      cases ho
      exact ⟨some x, rfl, rfl⟩
    | [], _ :: _ => cases hempty
    | _ :: _, [] => cases hempty

end Sorts

namespace Ways
variable {a a' : Ways} {f : Frame} {w : World}

theorem perform_truth (a : Ways) (f : Frame) (w : World) : ((a.truth f).perform w).1 =
    (truthOf Atomic.truth (a.outcomes f w)).mapError (Failure.orAt a.note.location) := by
  rw [truth, Eval.orAt, Regime.perform_mapError]
  exact congrArg (Except.mapError (Failure.orAt a.note.location)) (Items.truth_eq (a.items f) Atomic.truth w)

/-- The truth of a sequence is that of the sorted one, if that has one. -/
theorem truth_of_sorts (h : a' = a ∨ Sorts (a'.outcomes f w) (a.outcomes f w)) {b : Bool}
    (hb : ((a.truth f).perform w).1 = .ok b) : ((a'.truth f).perform w).1 = .ok b := by
  obtain rfl | h := h
  · exact hb
  · rw [perform_truth] at hb ⊢
    rw [h.truth (ok_of_mapError hb)]
    rfl

theorem head_of_sorts (h : a' = a ∨ Sorts (a'.outcomes f w) (a.outcomes f w)) {o : Option Item}
    (ho : (((a.items f).head?).perform w).1 = .ok o) :
    ∃ o', (((a'.items f).head?).perform w).1 = .ok o' ∧ o'.isSome = o.isSome := by
  obtain rfl | h := h
  · exact ⟨o, ho, rfl⟩
  · have hhead (a : Ways) : (((a.items f).head?).perform w).1 =
        (a.outcomes f w).head?.elim (.ok none) (·.map some) := by
      rw [List.head?_eq_getElem?]
      exact Source.get?_eq (a.items f) 0 w
    rw [hhead] at ho
    obtain ⟨o', ho', heq⟩ := h.head? ho
    exact ⟨o', (hhead a').trans ho', heq⟩

end Ways

theorem Regime.perform_gives {α β : Type} (p : Eval α) (g : α → β) (w : World) :
    ((do return g (← p) : Eval β).perform w).1 = (p.perform w).1.map g := by
  rw [perform_bind]
  cases p.perform w with
  | mk r w' => cases r <;> rfl

/-- A function that only asks whether its argument has items does not need it sorted. -/
theorem Call.Site.call_of_sorts {s s' : Call.Site} (hframe : s'.frame = s.frame) {w : World}
    (h : s'.arg 0 = s.arg 0 ∨ Sorts ((s'.arg 0).outcomes s.frame w) ((s.arg 0).outcomes s.frame w)) {g : Builtin}
    (hg : g.ignoresOrder) {c : DynamicContext} {xs : List Item} (hs : ((s.call c g).perform w).1 = .ok xs) :
    ((s'.call c g).perform w).1 = .ok xs := by
  have htruth (of : Bool → List Item)
      (ht : ((do return of (← (s.arg 0).truth s.frame) : Eval (List Item)).perform w).1 = .ok xs) :
      ((do return of (← (s'.arg 0).truth s'.frame) : Eval (List Item)).perform w).1 = .ok xs := by
    rw [Regime.perform_gives] at ht ⊢
    obtain ⟨b, hb, rfl⟩ := ok_of_map ht
    rw [hframe, Ways.truth_of_sorts h hb]
    rfl
  have hhead (of : Bool → List Item)
      (ht : ((do return of (← (s.items 0).head?).isSome : Eval (List Item)).perform w).1 = .ok xs) :
      ((do return of (← (s'.items 0).head?).isSome : Eval (List Item)).perform w).1 = .ok xs := by
    have hgives (s : Call.Site) := Regime.perform_gives (s.items 0).head? (fun o => of o.isSome) w
    rw [hgives] at ht ⊢
    obtain ⟨o, ho, rfl⟩ := ok_of_map ht
    obtain ⟨o', ho', heq⟩ := Ways.head_of_sorts h ho
    unfold Call.Site.items
    rw [hframe, ho', ← heq]
    rfl
  cases g with
  | boolean => exact htruth Call.Site.boolean hs
  | not => exact htruth (fun b => Call.Site.boolean !b) hs
  | empty =>
    have hnone (s : Call.Site) : s.call c .empty = do return Call.Site.boolean !(← (s.items 0).head?).isSome := by
      simp [Call.Site.call]
    rw [hnone] at hs ⊢
    exact hhead (fun b => Call.Site.boolean !b) hs
  | «exists» => exact hhead Call.Site.boolean hs
  | _ => cases hg

namespace Expr

/-- Whether there are items, and what their truth is, may be asked of what is sorted. -/
theorem sorts_unordered (c : DynamicContext) (e : Expr) (f : Frame) (w : World) :
    (e.unordered.meaning c).toWays = (e.meaning c).toWays ∨
      Sorts ((e.unordered.meaning c).outcomes f w) ((e.meaning c).outcomes f w) := by
  unfold unordered
  split
  · next n a =>
    split
    · rw [meaning_unary]
      exact .inr (Ways.sorts n (a.meaning c).toWays f w)
    · exact .inl rfl
  · exact .inl rfl

/-- The first argument of a call, or that argument without the sort. -/
theorem sorts_arg (c : DynamicContext) (args : List Expr) (f : Frame) (w : World) (implicit : Bool) :
    let a := Call.Site.arg ⟨operandWays c args, f, implicit⟩ 0
    let a' := Call.Site.arg ⟨operandWays c (args.map unordered), f, implicit⟩ 0
    a' = a ∨ Sorts (a'.outcomes f w) (a.outcomes f w) := by
  cases args with
  | nil => exact .inl rfl
  | cons e es => exact sorts_unordered c e f w

/-- A function that ignores order does not need its arguments sorted. -/
theorem call_unordered {g : Builtin} (hg : g.ignoresOrder) (c : DynamicContext) (n : Note) (args : List Expr)
    {f : Frame} {w : World} {xs : List Item} (h : (nary n (.call (.builtin g)) args).result c f w = .ok xs) :
    (nary n (.call (.builtin g)) (args.map unordered)).result c f w = .ok xs := by
  have hresult (args : List Expr) : (nary n (.call (.builtin g)) args).result c f w =
      (((Call.Site.call ⟨operandWays c args, f, g.usesContext (operandWays c args).length⟩ c g).perform w).1).mapError
        (Failure.orAt n.location) := by
    rw [result, meaning_nary]
    change (((Ways.ofItems n _).toList f).perform w).1 = _
    rw [Ways.toList_ofItems_list, Eval.orAt, Regime.perform_mapError]
  have hlength : (operandWays c (args.map unordered)).length = (operandWays c args).length := by
    simp [operandWays]
  let site (es : List Expr) : Call.Site := ⟨operandWays c es, f, g.usesContext (operandWays c args).length⟩
  have hcall : (((site (args.map unordered)).call c g).perform w).1 = .ok xs := by
    rw [hresult] at h
    exact Call.Site.call_of_sorts (s := site args) (by rfl) (sorts_arg c args f w _) hg (ok_of_mapError h)
  rw [hresult, hlength]
  exact congrArg (Except.mapError (Failure.orAt n.location)) hcall

end Expr

/-! Where the order of the trees is settled, it does not matter either for what is evaluated afterwards. -/

/-- Whether the quantifier holds, given the truth of the condition for every item. -/
def Quantifier.holds (q : Quantifier) (t : Item → Bool) (xs : List Item) : Bool :=
  match q with
  | .some => xs.any t
  | .every => xs.all t

theorem Sorted.holds_eq {xs ys : List Item} (h : Sorted xs ys) (q : Quantifier) (t : Item → Bool) :
    q.holds t xs = q.holds t ys := by
  rw [Bool.eq_iff_iff]
  cases q with
  | some => simp only [Quantifier.holds, List.any_eq_true, h.mem_iff]
  | every => simp only [Quantifier.holds, List.all_eq_true, h.mem_iff]

theorem Expr.IsSteady.unordered {e : Expr} (h : e.IsSteady) : e.unordered.IsSteady := by
  unfold Expr.unordered
  split
  · split
    · exact h.unary
    · exact h
  · exact h

namespace Settlement
open Likeness
variable {S : Settlement} {f : Frame} {a b : Expr} {w : World}

theorem exists_gets_truth (ha : a.IsSteady) (hc : S.setting.HasContext S.context) (hf : S.setting.HasFrame f) :
    ∃ r, S.Gets ((a.meaning S.context).truth f) r :=
  (exists_gets ((ha.ignores hc).carries f hf).truth).imp fun _ => And.left

/-- What is done with the truth of some items may be done with their truth unsorted. -/
theorem bind_truth_unordered {β : Type} {k k' : Bool → Eval β} (ha : a.IsSteady)
    (hc : S.setting.HasContext S.context) (hf : S.setting.HasFrame f)
    (hk : ∀ t y w, S.Good w → ((k t).perform w).1 = .ok y → S.Gets (k' t) (.ok y)) (hw : S.Good w) {y : β}
    (h : (((a.meaning S.context).truth f >>= k).perform w).1 = .ok y) :
    S.Gets ((a.unordered.meaning S.context).truth f >>= k') (.ok y) := by
  obtain ⟨r, hr⟩ := exists_gets_truth ha hc hf
  obtain ⟨r', hr'⟩ := exists_gets_truth ha.unordered hc hf
  obtain ⟨w₁, hw₁, heq⟩ := hr w hw
  rw [Regime.perform_bind, heq] at h
  cases r with
  | error e => cases h
  | ok t =>
    have hsame := Ways.truth_of_sorts (a.sorts_unordered S.context f w) (hr.answer hw)
    rw [hr'.answer hw] at hsame
    subst hsame
    exact hr'.bind (hk t y w₁ hw₁ h)

theorem gives_forIn {p : Pull World Failure Item} (q : Quantifier) {xs : List Item} (hp : S.Shows (xs.map .ok) p)
    {judge : Item → Eval Bool} {t : Item → Bool} (ht : ∀ x ∈ xs, S.Gets (judge x) (.ok (t x))) :
    ∃ w, S.Good w ∧ p.forIn (q == .every) (fun _ x => do
      if (← judge x) != (q == .every) then return .done !(q == .every) else return .yield (q == .every)) =
        (.ok (q.holds t xs), w) := by
  induction xs generalizing p with
  | nil =>
    cases hp with
    | done hw => exact ⟨_, hw, by cases q <;> rfl⟩
  | cons x xs ih =>
    rw [List.map_cons] at hp
    cases hp with
    | item hw hrest =>
      obtain ⟨hx, hxs⟩ := List.forall_mem_cons.1 ht
      obtain ⟨w₁, hw₁, heq⟩ := hx _ hw
      obtain ⟨w₂, hw₂, hlater⟩ := ih (hrest w₁ hw₁) hxs
      unfold Pull.forIn
      rw [Regime.perform_bind, heq]
      dsimp only
      -- The loop is done with the first item that decides; otherwise the others do.
      cases htx : t x with
      | true =>
        cases q with
        | some => exact ⟨w₁, hw₁, by rw [Quantifier.holds, List.any_cons, htx]; rfl⟩
        | every => exact ⟨w₂, hw₂, by rw [Quantifier.holds, List.all_cons, htx]; exact hlater⟩
      | false =>
        cases q with
        | some => exact ⟨w₂, hw₂, by rw [Quantifier.holds, List.any_cons, htx]; exact hlater⟩
        | every => exact ⟨w₁, hw₁, by rw [Quantifier.holds, List.all_cons, htx]; rfl⟩

/-- A quantifier over items for none of which the condition fails. -/
theorem gets_quantify (q : Quantifier) (slot : Slot) {xs : List Item}
    (ha : S.Draws ((a.meaning S.context).items f) (xs.map .ok)) {t : Item → Bool}
    (ht : ∀ x ∈ xs, S.Gets ((b.meaning S.context).truth (f.bind slot (.items [x]))) (.ok (t x))) :
    S.Gets (BinaryOp.quantify q slot (a.meaning S.context).toWays (b.meaning S.context).toWays f)
      (.ok (q.holds t xs)) :=
  fun w hw => (gives_forIn q (ha w hw) ht).imp fun _ h => h

/-- All items of an operator that gives at most one. -/
theorem result_ofItem (n : Note) (p : Frame → Eval (Option Item)) (f : Frame) (w : World) :
    ((((Ways.ofItem n p).toList f).perform w).1) =
      (((p f).perform w).1.mapError (Failure.orAt n.location)).map Option.toList := by
  rw [Ways.toList_ofItem, Regime.perform_gives, Eval.orAt, Regime.perform_mapError]

/-- An operator that gives at most one item, and another one that gives the same where the first does not fail. -/
theorem result_of_gets {n : Note} {p p' : Frame → Eval (Option Item)} {xs : List Item} (hw : S.Good w)
    (hp : ∀ o, ((p f).perform w).1 = .ok o → S.Gets (p' f) (.ok o))
    (h : (((Ways.ofItem n p).toList f).perform w).1 = .ok xs) :
    (((Ways.ofItem n p').toList f).perform w).1 = .ok xs := by
  rw [result_ofItem] at h ⊢
  obtain ⟨o, ho, rfl⟩ := ok_of_map h
  rw [(hp o (ok_of_mapError ho)).answer hw]
  rfl

theorem and_unordered (n : Note) (ha : a.IsSteady) (hb : b.IsSteady) (hc : S.setting.HasContext S.context)
    (hf : S.setting.HasFrame f) (hw : S.Good w) {xs : List Item}
    (h : (Expr.binary n .and a b).result S.context f w = .ok xs) :
    (Expr.binary n .and a.unordered b.unordered).result S.context f w = .ok xs := by
  rw [Expr.result, Expr.meaning_binary] at h ⊢
  refine result_of_gets hw (fun o ho => bind_truth_unordered ha hc hf (fun t y w hw hy => ?_) hw ho) h
  cases t with
  | true => exact bind_truth_unordered hb hc hf (fun t z w _ hz => Except.ok.inj hz ▸ gets_pure _) hw hy
  | false => exact Except.ok.inj hy ▸ gets_pure _

theorem or_unordered (n : Note) (ha : a.IsSteady) (hb : b.IsSteady) (hc : S.setting.HasContext S.context)
    (hf : S.setting.HasFrame f) (hw : S.Good w) {xs : List Item}
    (h : (Expr.binary n .or a b).result S.context f w = .ok xs) :
    (Expr.binary n .or a.unordered b.unordered).result S.context f w = .ok xs := by
  rw [Expr.result, Expr.meaning_binary] at h ⊢
  refine result_of_gets hw (fun o ho => bind_truth_unordered ha hc hf (fun t y w hw hy => ?_) hw ho) h
  cases t with
  | true => exact Except.ok.inj hy ▸ gets_pure _
  | false => exact bind_truth_unordered hb hc hf (fun t z w _ hz => Except.ok.inj hz ▸ gets_pure _) hw hy

theorem toList_if (n : Note) (exprs : Expr × Expr) (a b d : Ways) (f : Frame) :
    (TernaryOp.if.ways n exprs a b d).toList f =
      (a.truth f >>= fun t => if t then b.toList f else d.toList f).orAt n.location := by
  change ((Source.after do if ← a.truth f then return b.items f else return d.items f).mapError _).toList = _
  rw [Source.toList_mapError, Source.toList_after, bind_assoc]
  refine congrArg (Eval.orAt n.location) (bind_congr fun t => ?_)
  cases t <;> exact pure_bind ..

theorem if_unordered {d : Expr} (n : Note) (ha : a.IsSteady) (hb : b.IsSteady) (hd : d.IsSteady)
    (hc : S.setting.HasContext S.context) (hf : S.setting.HasFrame f) (hw : S.Good w) {xs : List Item}
    (h : (Expr.ternary n .if a b d).result S.context f w = .ok xs) :
    (Expr.ternary n .if a.unordered b d).result S.context f w = .ok xs := by
  have hbranch {e : Expr} (he : e.IsSteady) {ys : List Item} {w : World} (hw : S.Good w)
      (hys : (((e.meaning S.context).toList f).perform w).1 = .ok ys) :
      S.Gets ((e.meaning S.context).toList f) (.ok ys) := by
    obtain ⟨rs, hrs, -⟩ := exists_draws_items he hc hf
    exact (hrs.toList.answer hw).symm.trans hys ▸ hrs.toList
  let branch (t : Bool) := if t then (b.meaning S.context).toList f else (d.meaning S.context).toList f
  have hresult (a : Expr) : (Expr.ternary n .if a b d).result S.context f w =
      (((a.meaning S.context).truth f >>= branch).perform w).1.mapError (Failure.orAt n.location) := by
    rw [Expr.result, Expr.meaning_ternary]
    exact (congrArg (fun p : Eval (List Item) => (p.perform w).1) (toList_if n (a, b) _ _ _ f)).trans
      (congrArg Prod.fst (Regime.perform_mapError _ _ w))
  rw [hresult] at h ⊢
  have hgets : S.Gets ((a.unordered.meaning S.context).truth f >>= branch) (.ok xs) := by
    refine bind_truth_unordered ha hc hf (fun t y w hw hy => ?_) hw (ok_of_mapError h)
    cases t with
    | true => exact hbranch hb hw hy
    | false => exact hbranch hd hw hy
  rw [hgets.answer hw]
  rfl

/-- The condition of a quantifier fails for no item. -/
def Judges (S : Settlement) (f : Frame) (slot : Slot) (a b : Expr) : Prop :=
  ∀ xs, S.Gets ((a.meaning S.context).toList f) (.ok xs) → ∀ x ∈ xs, ∃ t,
    S.Gets ((b.meaning S.context).truth (f.bind slot (.items [x]))) (.ok t)

theorem quantified_unordered (n : Note) (q : Quantifier) (slot : Slot) (ha : a.IsSteady)
    (hc : S.setting.HasContext S.context) (hf : S.setting.HasFrame f) (hjudges : S.Judges f slot a b)
    (hw : S.Good w) {xs : List Item} (h : (Expr.binary n (.quantified q slot) a b).result S.context f w = .ok xs) :
    (Expr.binary n (.quantified q slot) a.unordered b).result S.context f w = .ok xs := by
  rw [Expr.result, Expr.meaning_binary] at h ⊢
  obtain ⟨rs, hrs, -⟩ := exists_draws_items ha hc hf
  obtain ⟨rs', hrs', -⟩ := exists_draws_items ha.unordered hc hf
  obtain hsame | hsorts := a.sorts_unordered S.context f w
  · have hways : BinaryOp.ways n (a.unordered.meaning S.context) (b.meaning S.context) (.quantified q slot) =
        BinaryOp.ways n (a.meaning S.context) (b.meaning S.context) (.quantified q slot) := by
      unfold BinaryOp.ways
      rw [hsame]
    exact hways ▸ h
  · rw [Ways.outcomes, Ways.outcomes, (hrs' w hw).outcomes, (hrs w hw).outcomes] at hsorts
    refine result_of_gets hw (fun o ho => ?_) h
    cases hsorts with
    | failure e =>
      have hfails := hrs w hw
      have hquantify := (Regime.perform_gives _ _ w).symm.trans ho
      unfold BinaryOp.quantify Source.forIn at hquantify
      change ((((a.meaning S.context).items f w).forIn _ _).1.map _) = _ at hquantify
      generalize (a.meaning S.context).items f w = p at hfails hquantify
      cases hfails with
      | item _ _ => cases hquantify
    | @items xs ys heq hsorted =>
      subst heq
      have hall (x : Item) : ∃ t, x ∈ ys →
          S.Gets ((b.meaning S.context).truth (f.bind slot (.items [x]))) (.ok t) := by
        by_cases hx : x ∈ ys
        · obtain ⟨t, ht⟩ := hjudges ys (delivered_items ys ▸ hrs.toList) x hx
          exact ⟨t, fun _ => ht⟩
        · exact ⟨false, fun hx' => absurd hx' hx⟩
      choose t ht using hall
      have hsort := (gets_quantify q slot hrs ht).gives (g := UnaryOp.truth)
      have hunsorted := (gets_quantify q slot hrs' fun x hx => ht x ((hsorted.mem_iff x).2 hx)).gives
        (g := UnaryOp.truth)
      rw [hsorted.holds_eq] at hunsorted
      exact (hsort.answer hw).symm.trans ho ▸ hunsorted

end Settlement

namespace Expr

/-- Whether the expression only asks for the presence of the items of some operands. -/
def asksForPresence : Expr → Bool
  | binary _ .and .. | binary _ .or .. | binary _ (.quantified ..) .. | ternary _ .if .. => true
  | nary _ (.call (.builtin g)) _ => g.ignoresOrder
  | _ => false

/-- An expression that only asks for the presence of some items, from which a sort of nodes is dropped, gives the same
items if it does not fail. A call does so in every frame and every world. For what is evaluated afterwards to be the
same, the expression has to be steady and the order of the trees settled; and the condition of a quantifier may fail
for no item. -/
theorem presence_unordered {index : Bool} {e e' : Expr} (hasks : e.asksForPresence)
    (hrewrite : e.rewrite? index = some e') :
    (∀ n g args, e = nary n g args → ∀ c f w xs, e.result c f w = .ok xs → e'.result c f w = .ok xs) ∧
    ∀ (S : Settlement) f w xs, e.IsSteady → S.setting.HasContext S.context → S.setting.HasFrame f → S.Good w →
      (∀ n q slot a b, e = binary n (.quantified q slot) a b → S.Judges f slot a b) →
      e.result S.context f w = .ok xs → e'.result S.context f w = .ok xs := by
  cases rewrites_of_rewrite hrewrite with
  | sort => cases hasks
  | filter => cases hasks
  | loop => cases hasks
  | and =>
    refine ⟨fun _ _ _ h => (by cases h), fun S f w xs he hc hf hw _ => ?_⟩
    exact Settlement.and_unordered _ he.binary.1 he.binary.2 hc hf hw
  | or =>
    refine ⟨fun _ _ _ h => (by cases h), fun S f w xs he hc hf hw _ => ?_⟩
    exact Settlement.or_unordered _ he.binary.1 he.binary.2 hc hf hw
  | quantified =>
    refine ⟨fun _ _ _ h => (by cases h), fun S f w xs he hc hf hw hjudges => ?_⟩
    exact Settlement.quantified_unordered _ _ _ he.binary.1 hc hf (hjudges _ _ _ _ _ rfl) hw
  | «if» =>
    refine ⟨fun _ _ _ h => (by cases h), fun S f w xs he hc hf hw _ => ?_⟩
    exact Settlement.if_unordered _ he.ternary.1 he.ternary.2.1 he.ternary.2.2 hc hf hw
  | call =>
    exact ⟨fun n g args _ c f w xs => call_unordered hasks c _ _,
      fun S f w xs _ _ _ _ _ => call_unordered hasks S.context _ _⟩

end Expr

namespace Typing
open XPath.Expr

/-- `($b, $a)/self::node()` -/
def bothNodes : Expr :=
  .mkUnary .sort (.mkBinary .path
    (.mkNary .block [.mkLeaf (.variable (.range 2)) 0, .mkLeaf (.variable (.range 1)) 0] 0)
    (.mkLeaf (.step .self (.kind .anyNode)) 0) 0) 0

/-- `if (($b, $a)/self::node()) then $a | $b else ()` -/
def unionIfPresent : Expr :=
  .mkTernary .if bothNodes
    (.mkBinary (.set .union) (.mkLeaf (.variable (.range 1)) 0) (.mkLeaf (.variable (.range 2)) 0) 0) (.emptyAt 0) 0

/-- Whether there is a node is asked of the unsorted nodes in a world where no tree has been asked about. Where only one
has not, the union comes in the order that is settled. -/
theorem presence_unordered_elements :
    (∃ e e' unit', (check (.callAt .exists [bothNodes] 0)).run {} threeVariables = (.ok e, unit') ∧
      e.rewrite? false = some e' ∧
      e'.result {} secondAndFirst { forest := DocumentOrder.twoElements } = .ok [.atomic (.boolean true)]) ∧
    ∃ e e' unit', (check unionIfPresent).run {} threeVariables = (.ok e, unit') ∧ e.rewrite? false = some e' ∧
      e'.result {} secondAndFirst (oneAsked 3) = .ok [.node 3, .node 0] := by
  constructor
  · obtain ⟨e, e', unit', hcheck, hrewrite, hasks, ⟨n, g, args, hcall⟩, hresult⟩ : ∃ e e' unit',
        (check (.callAt .exists [bothNodes] 0)).run {} threeVariables = (.ok e, unit') ∧ e.rewrite? false = some e' ∧
        e.asksForPresence ∧ (∃ n g args, e = .nary n g args) ∧
        e.result {} secondAndFirst { forest := DocumentOrder.twoElements } = .ok [.atomic (.boolean true)] :=
      ⟨_, _, _, rfl, rfl, rfl, ⟨_, _, _, rfl⟩, by cbv⟩
    exact ⟨e, e', unit', hcheck, hrewrite, (presence_unordered hasks hrewrite).1 n g args hcall _ _ _ _ hresult⟩
  · obtain ⟨e, e', unit', hcheck, hrewrite, hasks, ⟨n, a, b, d, hif⟩, hcreates, hkeys, hmodes, hresult⟩ : ∃ e e' unit',
        (check unionIfPresent).run {} threeVariables = (.ok e, unit') ∧ e.rewrite? false = some e' ∧
        e.asksForPresence ∧ (∃ n a b d, e = .ternary n .if a b d) ∧ e.effects.creates = false ∧ e.All HasClosedKeys ∧
        e.All (fun x => x.mode.defers = false) ∧
        e.result {} secondAndFirst (oneAsked 3) = .ok [.node 3, .node 0] :=
      ⟨_, _, _, rfl, rfl, rfl, ⟨_, _, _, _, rfl⟩, rfl, by simp [annotate, withInfo, withNote, HasClosedKeys],
        by simp [annotate, withInfo, withNote, Expr.mode, note, Mode.defers], by cbv⟩
    have hformed : unionIfPresent.All IsFormed := by
      simp [unionIfPresent, bothNodes, mkUnary, mkBinary, mkTernary, mkNary, mkLeaf, emptyAt, IsFormed]
    obtain ⟨S, hcontext, hnames, hframe, hgood⟩ := Settlement.exists_twoElements
    have hunion := (presence_unordered hasks hrewrite).2 S secondAndFirst (oneAsked 3) [.node 3, .node 0]
      ⟨check_recorded _ hcheck, (check_resembles _ hcheck).formed hformed, hkeys, hcreates, hmodes⟩ hnames hframe hgood
      fun m q slot x y heq => by cases hif.symm.trans heq
    rw [hcontext] at hunion
    exact ⟨e, e', unit', hcheck, hrewrite, hunion hresult⟩

/-- `some $i in ($b, $a)/self::node() satisfies ($i is $a or error())` -/
def someOrError : Expr :=
  .mkBinary (.quantified .some 0) bothNodes
    (.mkBinary .or
      (.mkBinary (.nodeComparison .is) (.mkLeaf (.variable (.range 0)) 0) (.mkLeaf (.variable (.range 1)) 0) 0)
      (.callAt .error [] 1) 0) 0

/-- The union comes in the order in which the trees have been asked about, and the sort asks about the first one
first. The quantifier meets the first element first if it is not sorted, and for that its condition fails. -/
theorem presence_observed :
    resultsAround unionIfPresent { forest := DocumentOrder.twoElements } =
      some (.ok [.node 0, .node 3], .ok [.node 3, .node 0]) ∧
    resultsAround someOrError (oneAsked 3) = some (.ok [.atomic (.boolean true)], .error ⟨.raised, some 1⟩) :=
  ⟨by cbv, by cbv⟩

end Typing
end XPath
