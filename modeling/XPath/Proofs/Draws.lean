import XPath.Proofs.Settled

/-!
What a source gives where the order of the trees is settled: the same results, whenever it is asked for the next one.
-/
namespace XPath

namespace Settlement
open Likeness
variable {S : Settlement} {α β : Type} {p p' : Pull World Failure α} {src : Source World Failure α}
  {rs rs' : List (Except Failure α)} {Q : α → Prop}

/-- These are the results one after the other, in whatever good world the next one is asked for. -/
inductive Shows (S : Settlement) {α : Type} : List (Except Failure α) → Pull World Failure α → Prop where
  | done {w : World} : S.Good w → Shows S [] (.done w)
  | item {r rs} {w : World} {rest} : S.Good w → (∀ w, S.Good w → Shows S rs (rest w)) →
    Shows S (r :: rs) (.item r w rest)

/-- A source gives these results. -/
def Draws (S : Settlement) (src : Source World Failure α) (rs : List (Except Failure α)) : Prop :=
  ∀ w, S.Good w → S.Shows rs (src w)

namespace Shows

theorem unique (h : S.Shows rs p) (h' : S.Shows rs' p) : rs = rs' := by
  induction h generalizing rs' with
  | done _ => cases h' with | done _ => rfl
  | item _ _ ih =>
    cases h' with
    | item _ hrest => rw [ih S.start S.good_start (hrest S.start S.good_start)]

theorem outcomes (h : S.Shows rs p) : p.outcomes.1 = rs := by
  induction h with
  | done _ => rfl
  | item hw _ ih => rw [Pull.outcomes_item, ih _ hw]

/-- Collecting gives all items or the first failure, and leaves a good world. -/
theorem collect (h : S.Shows rs p) (met : List α) :
    ∃ w, S.Good w ∧ p.collect met = ((delivered rs).map (met.reverse ++ ·), w) := by
  have hfst := p.collect_eq met
  rw [h.outcomes] at hfst
  suffices hgood : S.Good (p.collect met).2 from ⟨_, hgood, Prod.ext hfst rfl⟩
  clear hfst
  induction h generalizing met with
  | done hw => exact hw
  | @item r rs w rest hw _ ih =>
    cases r with
    | error e => exact hw
    | ok x => exact ih w hw (x :: met)

end Shows

theorem Draws.unique (h : S.Draws src rs) (h' : S.Draws src rs') : rs = rs' :=
  (h S.start S.good_start).unique (h' S.start S.good_start)

theorem Draws.toList (h : S.Draws src rs) : S.Gets src.toList (delivered rs) := by
  intro w hw
  obtain ⟨w', hw', heq⟩ := (h w hw).collect []
  refine ⟨w', hw', heq.trans ?_⟩
  cases delivered rs <;> rfl

/-- What is given alike in good worlds is given in each of them. -/
theorem shows_of_gives (h : S.likeness.Gives Q p p') :
    ∃ rs, S.Shows rs p ∧ S.Shows rs p' ∧ ∀ x, .ok x ∈ rs → Q x := by
  have hstart := S.good_start
  -- The results that follow are compared with those in the first world.
  have hrest {rest rest' : World → Pull World Failure α}
      (ih : ∀ w w', S.likeness.alike w w' →
        ∃ rs, S.Shows rs (rest w) ∧ S.Shows rs (rest' w') ∧ ∀ x, .ok x ∈ rs → Q x) :
      ∃ rs, (∀ w, S.Good w → S.Shows rs (rest w)) ∧ (∀ w, S.Good w → S.Shows rs (rest' w)) ∧
        ∀ x, .ok x ∈ rs → Q x := by
    obtain ⟨rs, h, h', hQ⟩ := ih S.start S.start ⟨hstart, hstart⟩
    refine ⟨rs, fun w hw => ?_, fun w hw => ?_, hQ⟩
    · obtain ⟨rs₁, h₁, h₁', -⟩ := ih w S.start ⟨hw, hstart⟩
      rwa [h'.unique h₁']
    · obtain ⟨rs₁, h₁, h₁', -⟩ := ih S.start w ⟨hstart, hw⟩
      rwa [h.unique h₁]
  induction h with
  | done hw => exact ⟨[], .done hw.1, .done hw.2, nofun⟩
  | @ok x w w' rest rest' hx hw _ ih =>
    obtain ⟨rs, h, h', hQ⟩ := hrest ih
    refine ⟨.ok x :: rs, .item hw.1 h, .item hw.2 h', fun y hy => ?_⟩
    obtain hy | hy := List.mem_cons.1 hy
    · cases hy
      exact hx
    · exact hQ y hy
  | @error e w w' rest rest' hw _ ih =>
    obtain ⟨rs, h, h', hQ⟩ := hrest ih
    refine ⟨.error e :: rs, .item hw.1 h, .item hw.2 h', fun y hy => hQ y ?_⟩
    exact (List.mem_cons.1 hy).resolve_left nofun

theorem exists_draws (h : S.likeness.Yields src Q) : ∃ rs, S.Draws src rs ∧ ∀ x, .ok x ∈ rs → Q x := by
  obtain ⟨rs, hrs, -, hQ⟩ := shows_of_gives (h S.start S.start ⟨S.good_start, S.good_start⟩)
  refine ⟨rs, fun w hw => ?_, hQ⟩
  obtain ⟨rs', h', hrs', -⟩ := shows_of_gives (h w S.start ⟨hw, S.good_start⟩)
  rwa [hrs.unique hrs']

theorem Gets.unique {a : Eval α} {r r' : Except Failure α} (h : S.Gets a r) (h' : S.Gets a r') : r = r' := by
  obtain ⟨w, -, heq⟩ := h S.start S.good_start
  obtain ⟨w', -, heq'⟩ := h' S.start S.good_start
  rw [heq] at heq'
  exact congrArg Prod.fst heq'

/-- What a steady expression gives. -/
theorem exists_draws_items {e : Expr} (he : e.IsSteady) (hc : S.setting.HasContext S.context) {f : Frame}
    (hf : S.setting.HasFrame f) :
    ∃ rs, S.Draws ((e.meaning S.context).items f) rs ∧ ∀ x, .ok x ∈ rs → S.exchange.Has x :=
  exists_draws ((he.ignores hc).carries f hf).items

theorem Draws.result {e : Expr} {f : Frame} {rs : List (Except Failure Item)} {w : World}
    (h : S.Draws ((e.meaning S.context).items f) rs) (hw : S.Good w) : e.result S.context f w = delivered rs := by
  obtain ⟨w', -, heq⟩ := h.toList w hw
  exact congrArg Prod.fst heq

/-! What is made of sources and evaluations of which the results are known. -/

/-- Results for every item; a failure is handed on. -/
def perItem {α β : Type} (g : α → List (Except Failure β)) : Except Failure α → List (Except Failure β)
  | .ok x => g x
  | .error e => [.error e]

section Combinators
variable {β : Type} {a : Eval α} {b : α → Eval β} {x : α} {r : Except Failure β}

theorem gets_pure (x : α) : S.Gets (pure x) (.ok x) := fun w hw => ⟨w, hw, rfl⟩

theorem Gets.answer {r : Except Failure α} (ha : S.Gets a r) {w : World} (hw : S.Good w) : (a.perform w).1 = r := by
  obtain ⟨w', -, heq⟩ := ha w hw
  rw [heq]

theorem Gets.bind (ha : S.Gets a (.ok x)) (hb : S.Gets (b x) r) : S.Gets (a >>= b) r := by
  intro w hw
  obtain ⟨w', hw', heq⟩ := ha w hw
  rw [Regime.perform_bind, heq]
  exact hb w' hw'

/-- What is made of the answer. -/
theorem Gets.gives {g : α → β} (ha : S.Gets a (.ok x)) : S.Gets (do return g (← a)) (.ok (g x)) :=
  ha.bind (gets_pure (g x))

theorem Gets.orAt {r : Except Failure α} (ha : S.Gets a r) (l : LocationId) :
    S.Gets (a.orAt l) (r.mapError (Failure.orAt l)) := by
  intro w hw
  obtain ⟨w', hw', heq⟩ := ha w hw
  exact ⟨w', hw', by rw [Eval.orAt, Regime.perform_mapError, heq]⟩

theorem draws_ofList (xs : List α) : S.Draws (.ofList xs) (xs.map .ok) := by
  induction xs with
  | nil => exact fun _ hw => .done hw
  | cons x xs ih => exact fun _ hw => .item hw ih

theorem Draws.after {a : Eval (Source World Failure α)} (ha : S.Gets a (.ok src)) (h : S.Draws src rs) :
    S.Draws (.after a) rs := by
  intro w hw
  obtain ⟨w', hw', heq⟩ := ha w hw
  unfold Source.after
  rw [heq]
  exact h w' hw'

theorem Shows.mapError (h : S.Shows rs p) (g : Failure → Failure) :
    S.Shows (rs.map (·.mapError g)) (p.mapError g) := by
  induction h with
  | done hw => exact .done hw
  | item hw _ ih => exact .item hw ih

theorem Draws.mapError (h : S.Draws src rs) (g : Failure → Failure) :
    S.Draws (src.mapError g) (rs.map (·.mapError g)) :=
  fun w hw => (h w hw).mapError g

theorem Shows.append (h : S.Shows rs p) {second : Source World Failure α} (hs : S.Draws second rs') :
    S.Shows (rs ++ rs') (p.append second) := by
  induction h with
  | done hw => exact hs _ hw
  | item hw _ ih => exact .item hw ih

/-- What is given for every item of a source, one after the other. -/
theorem Shows.bind {f : ℕ → α → Source World Failure β} {g : α → List (Except Failure β)} (h : S.Shows rs p)
    (hf : ∀ n x, .ok x ∈ rs → S.Draws (f n x) (g x)) (n : ℕ) : S.Shows (rs.flatMap (perItem g)) (p.bind f n) := by
  induction h generalizing n with
  | done hw => exact .done hw
  | @item r rs w rest hw _ ih =>
    have hrest (w : World) (hw : S.Good w) := ih w hw (fun n x hx => hf n x (List.mem_cons_of_mem r hx)) (n + 1)
    cases r with
    | error e => exact .item hw hrest
    | ok x =>
      rw [Regime.bind_item, List.flatMap_cons]
      exact (hf n x List.mem_cons_self w hw).append hrest

theorem Draws.bind {src : Source World Failure α} {f : ℕ → α → Source World Failure β}
    {g : α → List (Except Failure β)} (h : S.Draws src rs) (hf : ∀ n x, .ok x ∈ rs → S.Draws (f n x) (g x)) :
    S.Draws (src.bind f) (rs.flatMap (perItem g)) :=
  fun w hw => (h w hw).bind hf 1

end Combinators

end Settlement
end XPath
