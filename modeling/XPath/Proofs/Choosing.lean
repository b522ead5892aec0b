import XPath.Proofs.Predicates
import XPath.Proofs.Presence
import XPath.Proofs.Rejection

/-!
What filters give where the order of the trees is settled. There a predicate that is asked again gives the same
answer, so a filter keeps the items for which its predicate holds, and filtering by one side of a conjunction and
then by the other comes to filtering by both.
-/
namespace XPath
namespace Settlement
open Likeness
variable {S : Settlement} {α : Type} {rs : List (Except Failure α)} {Q : α → Prop}

/-- What an evaluation gives at first. -/
def answer (S : Settlement) (p : Eval α) : Except Failure α := (p.perform S.start).1

theorem gets_answer {p : Eval α} (h : S.likeness.Runs p Q) : S.Gets p (S.answer p) := by
  obtain ⟨r, hr, -⟩ := exists_gets h
  rwa [answer, hr.answer S.good_start]

/-- A predicate that is asked for each of some results. -/
theorem Shows.filterM {p : Pull World Failure α} {test : ℕ → α → Eval Bool} {verdict : ℕ → α → Except Failure Bool}
    (h : S.Shows rs p) (htest : ∀ k x, .ok x ∈ rs → S.Gets (test k x) (verdict k x)) (k : ℕ) :
    S.Shows (judged verdict k rs) (p.filterM test k) := by
  induction h generalizing k with
  | done hw => exact .done hw
  | @item r rs w rest hw _ ih =>
    have hrest (w : World) (hw : S.Good w) :=
      ih w hw (fun k x hx => htest k x (List.mem_cons_of_mem r hx)) (k + 1)
    cases r with
    | error e => exact .item hw hrest
    | ok x =>
      obtain ⟨w', hw', heq⟩ := htest k x List.mem_cons_self w hw
      rw [Pull.filterM, heq, judged]
      cases verdict k x with
      | error e => exact .item hw' hrest
      | ok t =>
        cases t with
        | true => exact .item hw' hrest
        | false => exact hrest w' hw'

theorem Draws.filterM {src : Source World Failure α} {test : ℕ → α → Eval Bool}
    {verdict : ℕ → α → Except Failure Bool} (h : S.Draws src rs)
    (htest : ∀ k x, .ok x ∈ rs → S.Gets (test k x) (verdict k x)) : S.Draws (src.filterM test) (judged verdict 1 rs) :=
  fun w hw => (h w hw).filterM htest 1

/-- The truth of what a source gives. -/
theorem Draws.truth {src : Items} {rs : List (Except Failure Item)} (h : S.Draws src rs) (one : Atomic → Bool) :
    S.Gets (src.truth one) (truthOf one rs) := by
  intro w hw
  have hfst := src.truth_eq one w
  rw [(h w hw).outcomes] at hfst
  suffices hgood : S.Good ((src.truth one).perform w).2 from ⟨_, hgood, Prod.ext hfst rfl⟩
  have hsrc := h w hw
  rw [Regime.perform_truth]
  generalize src w = p at hsrc
  cases hsrc with
  | done hw => exact hw
  | @item r rs w rest hw hrest =>
    match r with
    | .error e => exact hw
    | .ok (.node i) => exact hw
    | .ok (.atomic a) =>
      have hnext := hrest w hw
      dsimp only
      generalize rest w = p at hnext
      cases hnext with
      | done hw => exact hw
      | @item r rs w rest hw _ => cases r <;> exact hw

end Settlement

namespace Expr

/-- The number of the items of a base as far as a predicate asks for it. -/
def countFor (predicate : Expr) (xs : List Item) : Option ℕ :=
  if predicate.info.dependencies.last then some xs.length else none

end Expr

namespace Settlement
open Likeness
variable {S : Settlement} {f : Frame} {w : World} {n : Note} {positional : Bool} {base predicate : Expr}
  {ys : List Item}

theorem exists_draws_of_carries (ha : S.setting.Carries (base.meaning S.context).toWays f) :
    ∃ rs, S.Draws ((base.meaning S.context).items f) rs ∧ ∀ x, .ok x ∈ rs → S.exchange.Has x :=
  exists_draws ha.items

/-- Whether the predicate holds for an item. -/
def verdict (S : Settlement) (predicate : Expr) (f : Frame) (size : Option ℕ) (k : ℕ) (x : Item) :
    Except Failure Bool :=
  S.answer ((predicate.meaning S.context).holdsAt (f.withFocus x k size) k)

theorem gets_verdict (hb : S.setting.CarriesUnderFocus (predicate.meaning S.context).toWays f) {x : Item}
    (hx : S.exchange.Has x) (size : Option ℕ) (k : ℕ) :
    S.Gets ((predicate.meaning S.context).holdsAt (f.withFocus x k size) k) (S.verdict predicate f size k x) :=
  gets_answer ((hb x k size hx).holdsAt k)

/-- A filter that asks its predicate for every item, where the base does not fail. -/
theorem draws_selectEach (hb : S.setting.CarriesUnderFocus (predicate.meaning S.context).toWays f) {xs : List Item}
    (hxs : S.Draws ((base.meaning S.context).items f) (xs.map .ok)) (hinside : ∀ x ∈ xs, S.exchange.Has x) :
    S.Draws ((base.meaning S.context).selectEach (predicate.meaning S.context).toWays f)
      (judged (S.verdict predicate f (predicate.countFor xs)) 1 (xs.map .ok)) := by
  have htest (size : Option ℕ) (k : ℕ) (x : Item) (hx : Except.ok (ε := Failure) x ∈ xs.map .ok) :
      S.Gets ((predicate.meaning S.context).holdsAt (f.withFocus x k size) k) (S.verdict predicate f size k x) := by
    obtain ⟨y, hy, heq⟩ := List.mem_map.1 hx
    cases heq
    exact gets_verdict hb (hinside x hy) size k
  cases hlast : predicate.info.dependencies.last with
  | false =>
    rw [Expr.selectEach_items _ _ _ _ hlast, Expr.countFor, hlast]
    exact hxs.filterM (htest none)
  | true =>
    have hcount : S.Gets ((base.meaning S.context).counted (predicate.meaning S.context).toWays f)
        (.ok (.ofList xs, some xs.length)) := by
      unfold Ways.counted
      rw [Expr.meaning_note, if_pos (show predicate.note.info.dependencies.last = true from hlast)]
      exact (delivered_items (ε := Failure) xs ▸ hxs.toList).gives
    rw [Expr.countFor, hlast]
    exact Draws.after (hcount.bind (gets_pure _)) ((draws_ofList xs).filterM (htest (some xs.length)))

/-- Nothing is given by such a filter if the base fails. -/
theorem exists_items_of_each (ha : S.setting.Carries (base.meaning S.context).toWays f)
    (hb : S.setting.CarriesUnderFocus (predicate.meaning S.context).toWays f) (hw : S.Good w)
    (h : delivered ((base.meaning S.context).selectEach (predicate.meaning S.context).toWays f w).outcomes.1 =
      .ok ys) : ∃ xs : List Item, S.Draws ((base.meaning S.context).items f) (xs.map .ok) ∧
        ∀ x ∈ xs, S.exchange.Has x := by
  obtain ⟨rs, hrs, hinside⟩ := exists_draws_of_carries ha
  suffices hall : ∃ xs : List Item, rs = xs.map .ok by
    obtain ⟨xs, rfl⟩ := hall
    exact ⟨xs, hrs, fun x hx => hinside x (List.mem_map_of_mem hx)⟩
  cases hlast : predicate.info.dependencies.last with
  | false =>
    rw [Expr.selectEach_items _ _ _ _ hlast, (hrs.filterM (fun k x hx => gets_verdict hb (hinside x hx) none k)
      w hw).outcomes] at h
    obtain ⟨xs, -, hxs, -⟩ := delivered_judged.1 h
    exact ⟨xs, hxs⟩
  | true =>
    cases hall : delivered rs with
    | ok xs => exact ⟨xs, delivered_eq_ok.1 hall⟩
    | error e =>
      obtain ⟨w', -, heq⟩ := hrs.toList w hw
      rw [hall] at heq
      unfold Ways.selectEach Ways.counted Source.after at h
      rw [Expr.meaning_note, if_pos (show predicate.note.info.dependencies.last = true from hlast),
        Regime.perform_bind, Regime.perform_bind, show ((base.meaning S.context).toList f).perform w = _ from heq] at h
      cases h

/-- A filter that asks its predicate for every item gives something if neither the base nor the predicate fails for
an item, and then it keeps those for which the predicate holds. -/
theorem filter_each (ha : S.setting.Carries (base.meaning S.context).toWays f)
    (hb : S.setting.CarriesUnderFocus (predicate.meaning S.context).toWays f)
    (hfocus : predicate.info.dependencies.focus) (hw : S.Good w) :
    (Expr.binary n (.filter positional) base predicate).result S.context f w = .ok ys ↔
      ∃ (xs : List Item) (chosen : Item × ℕ → Bool), S.Draws ((base.meaning S.context).items f) (xs.map .ok) ∧
        (∀ q ∈ xs.zipIdx 1, S.Gets ((predicate.meaning S.context).holdsAt
          (f.withFocus q.1 q.2 (predicate.countFor xs)) q.2) (.ok (chosen q))) ∧ ys = filtered chosen xs := by
  rw [Expr.result_filter, Expr.select_each _ _ _ _ hfocus]
  constructor
  · intro h
    have h := ok_of_mapError h
    obtain ⟨xs, hxs, hinside⟩ := exists_items_of_each ha hb hw h
    rw [(draws_selectEach hb hxs hinside w hw).outcomes] at h
    obtain ⟨zs, chosen, hzs, hchosen, rfl⟩ := delivered_judged.1 h
    cases List.map_injective_iff.2 (fun _ _ => Except.ok.inj) hzs
    refine ⟨xs, chosen, hxs, fun q hq => ?_, rfl⟩
    have hgets := gets_verdict hb (hinside q.1 (List.fst_mem_of_mem_zipIdx hq)) (predicate.countFor xs) q.2
    rwa [hchosen q hq] at hgets
  · rintro ⟨xs, chosen, hxs, hchosen, rfl⟩
    obtain ⟨rs, hrs, hinside⟩ := exists_draws_of_carries ha
    cases hrs.unique hxs
    have hinside (x : Item) (hx : x ∈ xs) := hinside x (List.mem_map_of_mem hx)
    rw [(draws_selectEach hb hxs hinside w hw).outcomes,
      delivered_judged.2 ⟨xs, chosen, rfl, fun q hq => (hchosen q hq).answer S.good_start, rfl⟩]
    rfl

/-- A filter by a predicate that is the same for all items. -/
theorem filter_once (ha : S.setting.Carries (base.meaning S.context).toWays f)
    (hb : S.setting.Carries (predicate.meaning S.context).toWays f)
    (hfocus : predicate.info.dependencies.focus = false) (hw : S.Good w) :
    (Expr.binary n (.filter positional) base predicate).result S.context f w = .ok ys ↔
      ∃ v rs, S.Gets ((predicate.meaning S.context).toList f) (.ok v) ∧
        S.Draws ((base.meaning S.context).items f) rs ∧ delivered (Ways.chosenBy v rs) = .ok ys := by
  rw [Expr.filter_once hfocus]
  constructor
  · rintro ⟨v, w', hv, h⟩
    obtain ⟨rs, hrs, -⟩ := exists_draws_of_carries ha
    obtain ⟨r, hr, -⟩ := exists_gets hb.toList
    obtain ⟨w₁, hw₁, heq⟩ := hr w hw
    cases heq.symm.trans hv
    rw [Ways.outcomes, (hrs w' hw₁).outcomes] at h
    exact ⟨v, rs, hr, hrs, h⟩
  · rintro ⟨v, rs, hv, hrs, h⟩
    obtain ⟨w', hw', heq⟩ := hv w hw
    refine ⟨v, w', heq, ?_⟩
    rw [Ways.outcomes, (hrs w' hw').outcomes]
    exact h

end Settlement

/-- An expression that does not ask for the context is evaluated without it as with it. -/
theorem Expr.matches_withoutFocus {e : Expr} {c : DynamicContext} {f : Frame} (hr : e.Recorded) (hf : e.All IsFormed)
    (hfocus : e.info.dependencies.focus = false) (x : Item) (k : ℕ) (size : Option ℕ) :
    (e.meaning c).toWays.Matches (f.withFocus x k size) (e.meaning c).toWays f := by
  have hread : e.effects.reads = e.info.dependencies := congrArg Effects.reads hr.self.symm
  unfold Dependencies.focus at hfocus
  simp only [Bool.or_eq_false_iff] at hfocus
  have hagree : Frame.Agree (fun s => e.needs s) e.effects.reads (f.withFocus x k size) f := by
    rw [hread]
    exact ⟨fun _ _ => rfl, fun hi => absurd hi (by simp [hfocus]), fun hp => absurd hp (by simp [hfocus]),
      fun hl => absurd hl (by simp [hfocus])⟩
  exact (Expr.determined c e hr hf _ _ hagree).1.matches

/-! The truth of a predicate. -/

namespace Settlement
open Likeness
variable {S : Settlement} {f : Frame} {n : Note} {a b e : Expr} {t : Bool} {k : ℕ} {rs : List (Except Failure Item)}

theorem Gets.bind_error {α β : Type} {p : Eval α} {g : α → Eval β} {e : Failure} (h : S.Gets p (.error e)) :
    S.Gets (p >>= g) (.error e) := by
  intro w hw
  obtain ⟨w', hw', heq⟩ := h w hw
  exact ⟨w', hw', by rw [Regime.perform_bind, heq]⟩

theorem Draws.after_error {α : Type} {p : Eval (Source World Failure α)} {e : Failure} (h : S.Gets p (.error e)) :
    S.Draws (.after p) [.error e] := by
  intro w hw
  obtain ⟨w', hw', heq⟩ := h w hw
  unfold Source.after
  rw [heq]
  exact .item hw' fun w hw => .done hw

/-- The truth of the expression is this. -/
def Holds (S : Settlement) (e : Expr) (f : Frame) (t : Bool) : Prop := S.Gets ((e.meaning S.context).truth f) (.ok t)

theorem Holds.unique {u : Bool} (h : S.Holds e f t) (h' : S.Holds e f u) : t = u :=
  Except.ok.inj (Gets.unique h h')

theorem Draws.gets_truth (h : S.Draws ((e.meaning S.context).items f) rs) : S.Gets ((e.meaning S.context).truth f)
    ((truthOf Atomic.truth rs).mapError (Failure.orAt (e.meaning S.context).note.location)) :=
  (h.truth Atomic.truth).orAt _

theorem Draws.gets_holdsAt (h : S.Draws ((e.meaning S.context).items f) rs) (k : ℕ) :
    S.Gets ((e.meaning S.context).holdsAt f k)
      (truthOf (fun v => if v.isNumeric then v.position? == some k else v.truth) rs) :=
  h.truth _

/-- Where the value is no number, the predicate does not ask for a position. -/
theorem holds_iff_holdsAt (ha : S.setting.Carries (e.meaning S.context).toWays f)
    (hnumber : ∀ v, S.Gets ((e.meaning S.context).toList f) (.ok [.atomic v]) → v.isNumeric = false) (k : ℕ) :
    S.Holds e f t ↔ S.Gets ((e.meaning S.context).holdsAt f k) (.ok t) := by
  obtain ⟨rs, hrs, -⟩ := exists_draws ha.items
  have hsame : truthOf (fun v => if v.isNumeric then v.position? == some k else v.truth) rs =
      truthOf Atomic.truth rs := by
    match rs with
    | [] | .error _ :: _ | .ok (.node _) :: _ | .ok (.atomic _) :: .error _ :: _
    | .ok (.atomic _) :: .ok _ :: _ => rfl
    | [.ok (.atomic v)] => rw [truthOf, hnumber v hrs.toList]; rfl
  have htruth := hrs.gets_truth
  have hat := hsame ▸ hrs.gets_holdsAt k
  refine ⟨fun h => ?_, fun h => ?_⟩
  · rwa [ok_of_mapError (htruth.unique h)] at hat
  · rwa [hat.unique h] at htruth

theorem draws_ofItem {p : Frame → Eval (Option Item)} {r : Except Failure (Option Item)} (h : S.Gets (p f) r) :
    S.Draws ((Ways.ofItem n p).items f) (match r with
      | .ok o => o.toList.map .ok
      | .error e => [.error (e.orAt n.location)]) := by
  cases r with
  | ok o => exact Draws.after (h.orAt n.location).gives (draws_ofList _)
  | error e => exact Draws.after_error (h.orAt n.location).bind_error

/-- An operator that gives a truth value. -/
theorem Holds.ofItem {p : Frame → Eval (Option Item)} (hways : (e.meaning S.context).items f = (Ways.ofItem n p).items f)
    {r : Except Failure Bool} (hr : S.Gets (p f) (r.map UnaryOp.truth)) (h : S.Holds e f t) : r = .ok t := by
  have hitems := draws_ofItem (n := n) hr
  rw [← hways] at hitems
  have htruth := ok_of_mapError (hitems.gets_truth.unique h)
  cases r with
  | error e => cases htruth
  | ok u => exact htruth

/-- A conjunction that holds, or does not. -/
theorem holds_and (ha : S.setting.Carries (a.meaning S.context).toWays f)
    (hb : S.setting.Carries (b.meaning S.context).toWays f) (h : S.Holds (.binary n .and a b) f t) :
    (t = true → S.Holds a f true ∧ S.Holds b f true) ∧ (t = false → S.Holds a f false ∨ S.Holds b f false) := by
  have hvalue {r : Except Failure Bool} (hr : S.Gets (do
      if ← (a.meaning S.context).truth f then return UnaryOp.truth (← (b.meaning S.context).truth f)
      else return UnaryOp.truth false) (r.map UnaryOp.truth)) : r = .ok t := by
    refine Holds.ofItem (n := n) (p := fun f => do
      if ← (a.meaning S.context).truth f then return UnaryOp.truth (← (b.meaning S.context).truth f)
      else return UnaryOp.truth false) ?_ hr h
    rw [Expr.meaning_binary]
    rfl
  obtain ⟨ra, hra, -⟩ := exists_gets ha.truth
  obtain ⟨rb, hrb, -⟩ := exists_gets hb.truth
  cases ra with
  | error e => cases hvalue (r := .error e) hra.bind_error
  | ok u =>
    cases u with
    | false =>
      cases hvalue (r := .ok false) (hra.bind (gets_pure _))
      exact ⟨fun ht => absurd ht Bool.false_ne_true, fun _ => .inl hra⟩
    | true =>
      cases rb with
      | error e => cases hvalue (r := .error e) (hra.bind hrb.bind_error)
      | ok u =>
        cases hvalue (r := .ok u) (hra.bind hrb.gives)
        refine ⟨fun ht => ?_, fun ht => ?_⟩
        · subst ht
          exact ⟨hra, hrb⟩
        · subst ht
          exact .inr hrb

/-! The same predicate under another focus. -/

/-- The truth for an item at the first place, if there is one. -/
def truthFor (S : Settlement) (e : Expr) (f : Frame) (x : Item) : Bool :=
  (S.answer ((e.meaning S.context).truth (f.withFocus x 1 none))).toOption.getD false

section Focus
variable {c : DynamicContext} (hr : e.Recorded) (hf : e.All Expr.IsFormed)
include hr hf

/-- A predicate has the same truth at another place if it does not ask for the place. -/
theorem truth_withFocus (x : Item) {m : ℕ} {size size' : Option ℕ} (hposition : e.info.dependencies.position → k = m)
    (hlast : e.info.dependencies.last → size = size') :
    (e.meaning c).truth (f.withFocus x k size) = (e.meaning c).truth (f.withFocus x m size') := by
  have hread : e.effects.reads = e.info.dependencies := congrArg Effects.reads hr.self.symm
  have hagree : Frame.Agree (fun s => e.needs s) e.effects.reads (f.withFocus x k size) (f.withFocus x m size') :=
    ⟨fun _ _ => rfl, fun _ => rfl, fun hp => congrArg some (hposition (hread ▸ hp)), fun hl => hlast (hread ▸ hl)⟩
  exact (Expr.determined c e hr hf _ _ hagree).1.matches.truth

/-- Whether a predicate that does not ask for the place holds for an item. -/
theorem Holds.truthFor (hplace : e.readsPosition = false) {x : Item} {size : Option ℕ}
    (h : S.Holds e (f.withFocus x k size) t) : S.truthFor e f x = t := by
  obtain ⟨hposition, hlast⟩ := Bool.or_eq_false_iff.1 hplace
  have hsame : (e.meaning S.context).truth (f.withFocus x 1 none) =
      (e.meaning S.context).truth (f.withFocus x k size) :=
    truth_withFocus hr hf x (by simp [hposition]) (by simp [hlast])
  have hanswer : S.answer ((e.meaning S.context).truth (f.withFocus x 1 none)) = .ok t :=
    hsame ▸ Gets.answer h S.good_start
  unfold Settlement.truthFor
  rw [hanswer]
  rfl

/-- A predicate that does not ask for the context has the same truth without it. -/
theorem truth_withoutFocus (hfocus : e.info.dependencies.focus = false) (x : Item) (size : Option ℕ) :
    (e.meaning c).truth (f.withFocus x k size) = (e.meaning c).truth f :=
  (Expr.matches_withoutFocus hr hf hfocus x k size).truth

end Focus

end Settlement

/-- A call that gives the truth of an expression. -/
inductive IsTruthOf (e : Expr) : Expr → Prop where
  | call {n : Note} : n.info.dependencies = e.info.dependencies → IsTruthOf e (.nary n (.call (.builtin .boolean)) [e])

namespace IsTruthOf
open Settlement Likeness
variable {S : Settlement} {f : Frame} {e B : Expr} {t : Bool} {k : ℕ}

theorem dependencies_eq (h : IsTruthOf e B) : B.info.dependencies = e.info.dependencies := by
  cases h with
  | call hn => exact hn

theorem carries (h : IsTruthOf e B) (hf : S.setting.HasFrame f) (hc : S.setting.HasContext S.context)
    (he : S.setting.Carries (e.meaning S.context).toWays f) : S.setting.Carries (B.meaning S.context).toWays f := by
  cases h with
  | call =>
    rw [Expr.meaning_nary]
    exact Setting.carries_nary _ (.call (.builtin .boolean)) hf hc (List.forall_mem_singleton.2 he)

theorem draws (h : IsTruthOf e B) {r : Except Failure Bool} (hr : S.Gets ((e.meaning S.context).truth f) r) :
    ∃ l, S.Draws ((B.meaning S.context).items f)
      [(r.map fun t => Item.atomic (.boolean t)).mapError (Failure.orAt l)] := by
  cases h with
  | @call n =>
    refine ⟨n.location, ?_⟩
    have hcall : S.Draws (Source.after do
        return .ofList (← (do return Call.Site.boolean (← (e.meaning S.context).truth f))))
          [r.map fun t => Item.atomic (.boolean t)] := by
      cases r with
      | ok t => exact Draws.after hr.gives.gives (draws_ofList _)
      | error e => exact Draws.after_error hr.bind_error.bind_error
    rw [Expr.meaning_nary]
    exact hcall.mapError _

theorem holdsAt (h : IsTruthOf e B) (ht : S.Holds e f t) (k : ℕ) :
    S.Gets ((B.meaning S.context).holdsAt f k) (.ok t) := by
  obtain ⟨l, hB⟩ := h.draws ht
  exact hB.gets_holdsAt k

theorem holds_of_holdsAt (h : IsTruthOf e B) (he : S.setting.Carries (e.meaning S.context).toWays f)
    (ht : S.Gets ((B.meaning S.context).holdsAt f k) (.ok t)) : S.Holds e f t := by
  obtain ⟨r, hr, -⟩ := exists_gets he.truth
  obtain ⟨l, hB⟩ := h.draws hr
  have hgets := (hB.gets_holdsAt k).unique ht
  cases r with
  | error e => cases hgets
  | ok u =>
    cases hgets
    exact hr

theorem holds_of_toList (h : IsTruthOf e B) (he : S.setting.Carries (e.meaning S.context).toWays f) {v : List Item}
    (hv : S.Gets ((B.meaning S.context).toList f) (.ok v)) : ∃ t, S.Holds e f t ∧ v = [.atomic (.boolean t)] := by
  obtain ⟨r, hr, -⟩ := exists_gets he.truth
  obtain ⟨l, hB⟩ := h.draws hr
  have hgets := hB.toList.unique hv
  cases r with
  | error e => cases hgets
  | ok u =>
    cases hgets
    exact ⟨u, hr, rfl⟩

end IsTruthOf

/-! Filtering by one side of a conjunction, and then by the other. -/

section Filtered
variable {α : Type} {xs : List α} {chosen judge : α × ℕ → Bool} {u : α → Bool}

theorem filtered_eq_filter (h : ∀ q ∈ xs.zipIdx 1, judge q = u q.1) : filtered judge xs = xs.filter u := by
  unfold filtered
  rw [List.filter_congr h]
  exact (List.filter_map ..).symm.trans (congrArg (List.filter u) (List.zipIdx_map_fst 1 xs))

/-- Of what is kept, only some is kept. -/
theorem filtered_filtered (h : ∀ q ∈ (filtered chosen xs).zipIdx 1, judge q = u q.1) :
    filtered judge (filtered chosen xs) = filtered (fun q => chosen q && u q.1) xs := by
  rw [filtered_eq_filter h]
  unfold filtered
  rw [List.filter_map, List.filter_filter]
  exact congrArg (List.map Prod.fst) (List.filter_congr fun q _ => Bool.and_comm ..)

end Filtered

namespace Settlement
open Likeness
variable {S : Settlement} {f : Frame} {xs : List Item} {n : Note} {positional : Bool} {P g x y B : Expr}

/-- An expression keeps some of the items, and it is the predicate that says which, wherever it does not fail. -/
structure Keeps (S : Settlement) (f : Frame) (xs : List Item) (P g : Expr) : Prop where
  carries : S.setting.Carries (g.meaning S.context).toWays f
  chooses {w : World} {ys : List Item} : S.Good w → g.result S.context f w = .ok ys →
    ∃ chosen : Item × ℕ → Bool, ys = filtered chosen xs ∧ ∀ q ∈ xs.zipIdx 1, ∀ size t,
      (P.info.dependencies.last → size = some xs.length) → S.Holds P (f.withFocus q.1 q.2 size) t → chosen q = t

theorem carries_filter (hg : S.setting.Carries (g.meaning S.context).toWays f)
    (hB : ∀ f, S.setting.HasFrame f → S.setting.Carries (B.meaning S.context).toWays f) (hf : S.setting.HasFrame f) :
    S.setting.Carries ((Expr.binary n (.filter positional) g B).meaning S.context).toWays f := by
  rw [Expr.meaning_binary]
  exact .ofItems n (Setting.yields_select hg (fun x m size hx => hB _ (hf.withFocus hx m size)) (hB f hf))

/-- A filter by a predicate that does not ask for a position, after an expression that keeps what the predicate for
the positions says. -/
theorem Keeps.split (hx : S.Keeps f xs x g) (hc : S.setting.HasContext S.context) (hf : S.setting.HasFrame f)
    (hy : y.IsSteady) (hplace : y.readsPosition = false) (hB : IsTruthOf y B)
    (hlast : x.info.dependencies.last → P.info.dependencies.last)
    (hand : ∀ q ∈ xs.zipIdx 1, ∀ size t, S.Holds P (f.withFocus q.1 q.2 size) t →
      (t = true → S.Holds x (f.withFocus q.1 q.2 size) true ∧ S.Holds y (f.withFocus q.1 q.2 size) true) ∧
      (t = false → S.Holds x (f.withFocus q.1 q.2 size) false ∨ S.Holds y (f.withFocus q.1 q.2 size) false)) :
    S.Keeps f xs P (.binary n (.filter positional) g B) := by
  have hycarries (f : Frame) (hf : S.setting.HasFrame f) := (hy.ignores hc).carries f hf
  have hcarries (f : Frame) (hf : S.setting.HasFrame f) := hB.carries hf hc (hycarries f hf)
  refine ⟨carries_filter hx.carries hcarries hf, fun {w zs} hw hzs => ?_⟩
  cases hfocus : B.info.dependencies.focus with
  | true =>
    obtain ⟨ys, judge, hys, hjudge, rfl⟩ :=
      (filter_each hx.carries (fun x m size hx => hcarries _ (hf.withFocus hx m size)) hfocus hw).1 hzs
    obtain ⟨rs, hrs, hinside⟩ := exists_draws_of_carries hx.carries
    cases hrs.unique hys
    obtain ⟨chosen, rfl, hchosen⟩ := hx.chooses hw ((hys.result hw).trans (delivered_items _))
    -- It does not matter at which place the other side is asked.
    let u := S.truthFor y f
    have hu {z : Item} {k : ℕ} {size : Option ℕ} {t : Bool} (h : S.Holds y (f.withFocus z k size) t) : u z = t :=
      h.truthFor hy.recorded hy.formed hplace
    have hjudged (q : Item × ℕ) (hq : q ∈ (filtered chosen xs).zipIdx 1) : judge q = u q.1 := by
      have hq' := hinside q.1 (List.mem_map_of_mem (List.fst_mem_of_mem_zipIdx hq))
      exact (hu (hB.holds_of_holdsAt (hycarries _ (hf.withFocus hq' _ _)) (hjudge q hq))).symm
    refine ⟨fun q => chosen q && u q.1, filtered_filtered hjudged, fun q hq size t hcount hP => ?_⟩
    have hx' {t : Bool} := hchosen q hq size t fun h => hcount (hlast h)
    dsimp only
    cases t with
    | true =>
      obtain ⟨h, h'⟩ := (hand q hq size true hP).1 rfl
      rw [hx' h, hu h']
      rfl
    | false =>
      obtain h | h := (hand q hq size false hP).2 rfl
      · rw [hx' h]
        rfl
      · rw [hu h, Bool.and_false]
  | false =>
    obtain ⟨v, rs, hv, hrs, hzs⟩ := (filter_once hx.carries (hcarries f hf) hfocus hw).1 hzs
    obtain ⟨s, hs, rfl⟩ := hB.holds_of_toList (hycarries f hf) hv
    have hs' {q : Item × ℕ} {size : Option ℕ} {t : Bool} (h : S.Holds y (f.withFocus q.1 q.2 size) t) : s = t := by
      rw [Holds, truth_withoutFocus hy.recorded hy.formed (hB.dependencies_eq ▸ hfocus)] at h
      exact hs.unique h
    cases s with
    | true =>
      obtain ⟨chosen, hchosen, hall⟩ := hx.chooses hw ((hrs.result hw).trans hzs)
      refine ⟨chosen, hchosen, fun q hq size t hcount hP => ?_⟩
      have hx' {t : Bool} := hall q hq size t fun h => hcount (hlast h)
      cases t with
      | true => exact hx' ((hand q hq size true hP).1 rfl).1
      | false =>
        obtain h | h := (hand q hq size false hP).2 rfl
        · exact hx' h
        · cases hs' h
    | false =>
      cases hzs
      refine ⟨fun _ => false, ?_, fun q hq size t _ hP => ?_⟩
      · unfold filtered
        rw [List.filter_false]
        rfl
      · cases t with
        | true => cases hs' ((hand q hq size true hP).1 rfl).2
        | false => rfl

/-- A filter by a predicate that holds where another one does. -/
theorem Keeps.filter (hP : P.IsSteady) (hf : S.setting.HasFrame f)
    (hbase : S.setting.Carries (g.meaning S.context).toWays f) (hxs : S.Draws ((g.meaning S.context).items f) (xs.map .ok))
    (hB : ∀ f, S.setting.HasFrame f → S.setting.Carries (B.meaning S.context).toWays f)
    (hdependencies : B.info.dependencies = P.info.dependencies) (hfocus : P.info.dependencies.focus)
    (hholds : ∀ q ∈ xs.zipIdx 1, ∀ size t, S.Holds P (f.withFocus q.1 q.2 size) t →
      S.Gets ((B.meaning S.context).holdsAt (f.withFocus q.1 q.2 size) q.2) (.ok t)) :
    S.Keeps f xs P (.binary n (.filter positional) g B) := by
  refine ⟨carries_filter hbase hB hf, fun {w ys} hw hys => ?_⟩
  obtain ⟨zs, judge, hzs, hjudge, rfl⟩ := (filter_each hbase (fun x m size hx => hB _ (hf.withFocus hx m size))
    (hdependencies ▸ hfocus) hw).1 hys
  obtain rfl : xs = zs := List.map_injective_iff.2 (fun _ _ => Except.ok.inj) (hxs.unique hzs)
  refine ⟨judge, rfl, fun q hq size t hcount hP' => ?_⟩
  have hsame : (P.meaning S.context).truth (f.withFocus q.1 q.2 size) =
      (P.meaning S.context).truth (f.withFocus q.1 q.2 (B.countFor xs)) := by
    refine truth_withFocus hP.recorded hP.formed q.1 (fun _ => rfl) fun hlast => ?_
    rw [hcount hlast, Expr.countFor, hdependencies, if_pos hlast]
  rw [Holds, hsame] at hP'
  exact Except.ok.inj ((hjudge q hq).unique (hholds q hq _ t hP'))

end Settlement

/-- What stands at some positions among the items of a base. -/
structure Selected (base : Expr) (p : Positions) (g : Expr) : Prop where
  result (c : DynamicContext) (f : Frame) (w : World) :
    g.result c f w = delivered (p.pick ((base.meaning c).outcomes f w))
  carries (S : Setting) (c : DynamicContext) (f : Frame) : S.HasContext c → S.HasFrame f →
    S.Carries (base.meaning c).toWays f → S.Carries (g.meaning c).toWays f

theorem Settlement.Keeps.of_positions {S : Settlement} {f : Frame} {xs : List Item} {base P g : Expr} {p : Positions}
    {t : ℕ → Bool} (hP : AsksPosition P p t) (hg : Selected base p g) (hc : S.setting.HasContext S.context)
    (hf : S.setting.HasFrame f) (hbase : S.setting.Carries (base.meaning S.context).toWays f)
    (hxs : S.Draws ((base.meaning S.context).items f) (xs.map .ok)) (hfew : (xs.length : ℤ) < Expr.largestIndex) :
    S.Keeps f xs P g := by
  refine ⟨hg.carries S.setting S.context f hc hf hbase, fun {w ys} hw hys => ⟨fun q => t q.2, ?_, ?_⟩⟩
  · rw [hg.result, Ways.outcomes, (hxs w hw).outcomes, Positions.pick_map, delivered_items] at hys
    rw [hP.filtered_eq hfew]
    exact (Except.ok.inj hys).symm
  · intro q _ size s _ hs
    have hholds : S.Holds P (f.withFocus q.1 q.2 size) (t q.2) := by
      unfold Settlement.Holds
      rw [Expr.truth_of_items (hP.items S.context f q.1 q.2 size)]
      exact Settlement.gets_pure _
    exact hholds.unique hs

/-- The sides of a conjunction, their sides, and the predicate as a whole. -/
def Expr.conjuncts : Expr → List Expr
  | .binary n .and a b => .binary n .and a b :: (a.conjuncts ++ b.conjuncts)
  | e => [e]

/-- The items of a base for which a predicate holds that asks for positions. Where exactly one side of a conjunction
does, that side comes first. -/
inductive Narrows (base : Expr) : Expr → Expr → Prop where
  | positions {P p t g} : AsksPosition P p t → Selected base p g → Narrows base P g
  | plain {n positional P} : P.itemType.mayBeNumeric = false → P.info.dependencies.focus →
    Narrows base P (.binary n (.filter positional) base P)
  | truth {n positional P B} : IsTruthOf P B → P.info.dependencies.focus →
    Narrows base P (.binary n (.filter positional) base B)
  | left {n m positional a b g B} : Narrows base a g → b.readsPosition = false → IsTruthOf b B →
    Narrows base (.binary m .and a b) (.binary n (.filter positional) g B)
  | right {n m positional a b g B} : Narrows base b g → a.readsPosition = false → IsTruthOf a B →
    Narrows base (.binary m .and a b) (.binary n (.filter positional) g B)

/-! Predicates that are no numbers. -/

namespace AtomicType

/-- The types of which it is known that a value is no number. -/
theorem not_numeric_all : ∀ a ∈ all, ∀ b ∈ a.ancestors, b.isAtomic → (ItemType.atomic b).mayBeNumeric = false →
    a.isNumeric = false := by
  decide +kernel

end AtomicType

theorem Atomic.IsProper.isNumeric_type {v : Atomic} (hv : v.IsProper) (h : v.isNumeric) : v.type.isNumeric := by
  cases v with
  | integer t i =>
    exact AtomicType.isNumeric_of_derivesFrom t t.mem_all .integer (AtomicType.mem_all _) hv rfl
  | decimal d => rfl
  | float x => rfl
  | double x => rfl
  | _ => cases h

theorem ItemType.isNumeric_of_mayBeNumeric {t : ItemType} {f : Forest} {v : Atomic} (ht : t.IsNameable)
    (hmay : t.mayBeNumeric = false) (hv : v.IsProper) (h : t.holds f (.atomic v)) : v.isNumeric = false := by
  refine Bool.eq_false_iff.2 fun hnumber => ?_
  have hitem : t ≠ .item := by
    rintro rfl
    cases hmay
  have hnode : t.isNode = false := by
    cases t with
    | node k => cases h
    | _ => rfl
  obtain ⟨_, a, heq, rfl, hderives⟩ := atomic_of_holds hitem hnode h
  cases heq
  have hnot := AtomicType.not_numeric_all _ (AtomicType.mem_all _) a (List.contains_iff_mem.1 hderives) (ht a rfl) hmay
  rw [hv.isNumeric_type hnumber] at hnot
  cases hnot

namespace Expr

/-- The value is of the type that has been inferred for the expression. -/
def IsOfType (c : DynamicContext) (e : Expr) (f : Frame) (w : World) : Prop :=
  ∀ xs w', ((e.meaning c).toList f).perform w = (.ok xs, w') →
    e.type.holds w'.forest xs ∧ ∀ v, .atomic v ∈ xs → v.IsProper

theorem IsOfType.not_numeric {c : DynamicContext} {e : Expr} {f : Frame} {w : World} (h : e.IsOfType c f w)
    (hname : e.itemType.IsNameable) (hmay : e.itemType.mayBeNumeric = false) {v : Atomic} {w' : World}
    (hv : ((e.meaning c).toList f).perform w = (.ok [.atomic v], w')) : v.isNumeric = false := by
  obtain ⟨htype, hproper⟩ := h _ _ hv
  have hitem := List.all_eq_true.1 (Bool.and_eq_true_iff.1 htype).2 (.atomic v) (by simp)
  exact ItemType.isNumeric_of_mayBeNumeric hname hmay (hproper v (by simp)) hitem

theorem mem_conjuncts_self (e : Expr) : e ∈ e.conjuncts := by
  unfold conjuncts
  split <;> exact List.mem_cons_self

theorem dependencies_and {m : Note} {a b : Expr} (h : (binary m .and a b).Recorded) :
    (binary m .and a b).info.dependencies = a.info.dependencies ∪ b.info.dependencies := by
  obtain ⟨hself, ha, hb⟩ := all_binary.1 h
  rw [effects_binary] at hself
  have hreads : (binary m .and a b).info.dependencies = a.effects.reads ∪ b.effects.reads := congrArg Effects.reads hself
  rw [hreads, ← ha.self, ← hb.self]
  rfl

end Expr

namespace Settlement
variable {S : Settlement} {f : Frame} {xs : List Item} {base P g : Expr}

/-- The values of the sides of a predicate are of their types wherever it is asked for one of the items. -/
def AreOfType (S : Settlement) (f : Frame) (xs : List Item) (P : Expr) : Prop :=
  ∀ x ∈ P.conjuncts, x.itemType.IsNameable ∧ ∀ q ∈ xs.zipIdx 1, ∀ size w, S.Good w →
    x.IsOfType S.context (f.withFocus q.1 q.2 size) w

/-- What is narrowed by a predicate are items for which it holds. -/
theorem keeps_of_narrows (h : Narrows base P g) (hP : P.IsSteady) (hc : S.setting.HasContext S.context)
    (hf : S.setting.HasFrame f) (hbase : S.setting.Carries (base.meaning S.context).toWays f)
    (hxs : S.Draws ((base.meaning S.context).items f) (xs.map .ok)) (hfew : (xs.length : ℤ) < Expr.largestIndex)
    (htyped : S.AreOfType f xs P) : S.Keeps f xs P g := by
  obtain ⟨rs, hrs, hinside⟩ := exists_draws_of_carries hbase
  cases hrs.unique hxs
  have hframe (q : Item × ℕ) (hq : q ∈ xs.zipIdx 1) (size : Option ℕ) :
      S.setting.HasFrame (f.withFocus q.1 q.2 size) :=
    hf.withFocus (hinside q.1 (List.mem_map_of_mem (List.fst_mem_of_mem_zipIdx hq))) _ _
  have hcarries {e : Expr} (he : e.IsSteady) (f : Frame) (hf : S.setting.HasFrame f) := (he.ignores hc).carries f hf
  induction h with
  | positions hasks hg => exact .of_positions hasks hg hc hf hbase hxs hfew
  | @plain n positional P hmay hfocus =>
    refine Keeps.filter hP hf hbase hxs (hcarries hP) rfl hfocus fun q hq size t ht => ?_
    obtain ⟨hname, htyped⟩ := htyped P P.mem_conjuncts_self
    refine (holds_iff_holdsAt (hcarries hP _ (hframe q hq size)) (fun v hv => ?_) q.2).1 ht
    obtain ⟨w', -, heq⟩ := hv S.start S.good_start
    exact (htyped q hq size S.start S.good_start).not_numeric hname hmay heq
  | truth hB hfocus =>
    exact Keeps.filter hP hf hbase hxs (fun f hf => hB.carries hf hc (hcarries hP f hf)) hB.dependencies_eq hfocus
      fun q hq size t ht => hB.holdsAt ht q.2
  | @left n m positional a b g B _ hplace hB ih =>
    have hd := Expr.dependencies_and hP.recorded
    have htyped' : S.AreOfType f xs a := fun x hx => htyped x (by simp [Expr.conjuncts, hx])
    refine (ih hP.binary.1 htyped').split hc hf hP.binary.2 hplace hB (fun hlast => ?_) fun q hq size t ht => ?_
    · rw [hd]
      exact Bool.or_eq_true_iff.2 (.inl hlast)
    · exact holds_and (hcarries hP.binary.1 _ (hframe q hq size)) (hcarries hP.binary.2 _ (hframe q hq size)) ht
  | @right n m positional a b g B _ hplace hB ih =>
    have hd := Expr.dependencies_and hP.recorded
    have htyped' : S.AreOfType f xs b := fun x hx => htyped x (by simp [Expr.conjuncts, hx])
    refine (ih hP.binary.2 htyped').split hc hf hP.binary.1 hplace hB (fun hlast => ?_) fun q hq size t ht => ?_
    · rw [hd]
      exact Bool.or_eq_true_iff.2 (.inr hlast)
    · obtain ⟨h, h'⟩ :=
        holds_and (hcarries hP.binary.1 _ (hframe q hq size)) (hcarries hP.binary.2 _ (hframe q hq size)) ht
      exact ⟨fun ht => (h ht).symm, fun ht => (h' ht).symm⟩

/-- A filter and what is narrowed by its predicate give the same items, if both give some. -/
theorem eq_of_narrows {w : World} {n : Note} {positional : Bool} {ys zs : List Item} (h : Narrows base P g)
    (hbase : base.IsSteady) (hP : P.IsSteady) (hfocus : P.info.dependencies.focus)
    (hmay : P.itemType.mayBeNumeric = false) (hc : S.setting.HasContext S.context) (hf : S.setting.HasFrame f)
    (hw : S.Good w) (hfew : ∀ xs, base.result S.context f w = .ok xs → (xs.length : ℤ) < Expr.largestIndex)
    (htyped : ∀ xs, base.result S.context f w = .ok xs → S.AreOfType f xs P)
    (hys : (Expr.binary n (.filter positional) base P).result S.context f w = .ok ys)
    (hzs : g.result S.context f w = .ok zs) : zs = ys := by
  have hcarries {e : Expr} (he : e.IsSteady) (f : Frame) (hf : S.setting.HasFrame f) := (he.ignores hc).carries f hf
  obtain ⟨xs, judge, hxs, hjudge, rfl⟩ := (filter_each (hcarries hbase f hf)
    (fun x m size hx => hcarries hP _ (hf.withFocus hx m size)) hfocus hw).1 hys
  have hresult : base.result S.context f w = .ok xs := (hxs.result hw).trans (delivered_items xs)
  have htyped := htyped xs hresult
  obtain ⟨chosen, rfl, hchosen⟩ :=
    (keeps_of_narrows h hP hc hf (hcarries hbase f hf) hxs (hfew xs hresult) htyped).chooses hw hzs
  obtain ⟨rs, hrs, hinside⟩ := exists_draws_of_carries (hcarries hbase f hf)
  cases hrs.unique hxs
  refine congrArg (List.map Prod.fst) (List.filter_congr fun q hq => ?_)
  refine hchosen q hq (P.countFor xs) (judge q) (fun hlast => if_pos hlast) ?_
  obtain ⟨hname, htyped⟩ := htyped P P.mem_conjuncts_self
  have hitem := hinside q.1 (List.mem_map_of_mem (List.fst_mem_of_mem_zipIdx hq))
  refine (holds_iff_holdsAt (hcarries hP _ (hf.withFocus hitem _ _)) (fun v hv => ?_) q.2).2 (hjudge q hq)
  obtain ⟨w', -, heq⟩ := hv S.start S.good_start
  exact (htyped q hq (P.countFor xs) S.start S.good_start).not_numeric hname hmay heq

end Settlement

/-! A filter by nodes does not need them sorted. -/

theorem Sorted.chosenBy_eq {xs ys : List Item} (h : Sorted xs ys) (rs : List (Except Failure Item)) :
    Ways.chosenBy ys rs = Ways.chosenBy xs rs := by
  have hempty := h.isEmpty_eq
  obtain rfl | ⟨is, js, rfl, rfl, -⟩ := h
  · rfl
  · cases is <;> cases js <;> first | rfl | cases hempty

namespace Settlement
variable {S : Settlement} {f : Frame} {w : World} {base a : Expr} {m n n' : Note} {positional positional' : Bool}
  {ys : List Item}

/-- What a steady expression gives, and what a sort of it does. -/
theorem draws_sort (ha : a.IsSteady) (hs : (Expr.unary m .sort a).IsSteady) (hc : S.setting.HasContext S.context)
    (hf : S.setting.HasFrame f) : ∃ rs rs', S.Draws ((a.meaning S.context).items f) rs ∧
      S.Draws (((Expr.unary m .sort a).meaning S.context).items f) rs' ∧ Sorts rs rs' := by
  obtain ⟨rs, hrs, -⟩ := exists_draws_items ha hc hf
  obtain ⟨rs', hrs', -⟩ := exists_draws_items hs hc hf
  have hsorts := Ways.sorts m (a.meaning S.context).toWays f S.start
  have hsort := (hrs' S.start S.good_start).outcomes
  rw [Expr.meaning_unary] at hsort
  rw [Ways.outcomes, Ways.outcomes, (hrs S.start S.good_start).outcomes] at hsorts
  exact ⟨rs, rs', hrs, hrs', hsort ▸ hsorts⟩

theorem filter_unsorted (hbase : base.IsSteady) (ha : a.IsSteady) (hs : (Expr.unary m .sort a).IsSteady)
    (hc : S.setting.HasContext S.context) (hf : S.setting.HasFrame f) (hw : S.Good w)
    (h : (Expr.binary n (.filter positional) base (.unary m .sort a)).result S.context f w = .ok ys) :
    (Expr.binary n' (.filter positional') base a).result S.context f w = .ok ys := by
  have hcarries {e : Expr} (he : e.IsSteady) (f : Frame) (hf : S.setting.HasFrame f) := (he.ignores hc).carries f hf
  have hsame : (Expr.unary m .sort a).info.dependencies = a.info.dependencies :=
    congrArg Effects.reads (hs.recorded.self.trans ha.recorded.self.symm)
  cases hfocus : a.info.dependencies.focus with
  | true =>
    obtain ⟨xs, chosen, hxs, hchosen, rfl⟩ := (filter_each (hcarries hbase f hf)
      (fun x m size hx => hcarries hs _ (hf.withFocus hx m size)) (hsame ▸ hfocus) hw).1 h
    refine (filter_each (hcarries hbase f hf) (fun x m size hx => hcarries ha _ (hf.withFocus hx m size)) hfocus hw).2
      ⟨xs, chosen, hxs, fun q hq => ?_, rfl⟩
    obtain ⟨rs, hrs, hinside⟩ := exists_draws_of_carries (hcarries hbase f hf)
    cases hrs.unique hxs
    have hitem := hinside q.1 (List.mem_map_of_mem (List.fst_mem_of_mem_zipIdx hq))
    have hcount : (Expr.unary m .sort a).countFor xs = a.countFor xs := by
      rw [Expr.countFor, hsame, Expr.countFor]
    obtain ⟨rs, rs', hrs, hrs', hsorts⟩ := draws_sort ha hs hc (hf.withFocus hitem q.2 (a.countFor xs))
    have hat := hrs.gets_holdsAt q.2
    rwa [hsorts.truth ((hrs'.gets_holdsAt q.2).unique (hcount ▸ hchosen q hq))] at hat
  | false =>
    obtain ⟨v, rs, hv, hrs, hys⟩ := (filter_once (hcarries hbase f hf) (hcarries hs f hf) (hsame ▸ hfocus) hw).1 h
    obtain ⟨as, bs, has, hbs, hsorts⟩ := draws_sort ha hs hc hf
    have hall := delivered_eq_ok.1 (hbs.toList.unique hv)
    cases hsorts with
    | failure e => cases v <;> cases hall
    | @items xs zs heq hsorted =>
      subst heq
      obtain rfl : zs = v := List.map_injective_iff.2 (fun _ _ => Except.ok.inj) hall
      refine (filter_once (hcarries hbase f hf) (hcarries ha f hf) hfocus hw).2
        ⟨xs, rs, delivered_items xs ▸ has.toList, hrs, ?_⟩
      rw [← hsorted.chosenBy_eq, hys]

end Settlement
end XPath
