import XPath.Proofs.ExchangedCalls
import XPath.Proofs.Purity

/-!
An expression that makes no nodes does the same in worlds that are alike: whatever way it is evaluated, and
whatever way a variable is bound to it.
-/
namespace XPath

/-- Whether a value is put off. -/
def Mode.defers : Mode → Bool
  | oneShotClosure _ | memoClosure _ => true
  | _ => false

namespace Setting
open Likeness
variable {S : Setting} {c : DynamicContext} {f : Frame}

/-- Evaluations may be put off. -/
def Defers (S : Setting) : Prop :=
  ∀ (keeps : Bool) (src : Items), S.Yields src S.Has →
    S.Runs (Deferred.create keeps src) fun d => S.Knows d ∧ S.Yields d.items S.Has

/-- Where the base and the key path are evaluated alike, so is the search for an index that is kept for them. -/
def Finds (S : Setting) (c : DynamicContext) (a b : Expr) : Prop :=
  (∀ g, S.HasFrame g → S.Carries (a.meaning c).toWays g) →
  (∀ g, S.HasFrame g → S.Carries (b.meaning c).toWays g) → ∀ f, S.HasFrame f →
    (a.meaning c).IsIndexed f →
      S.Runs ((a.meaning c).findIndex ⟨a, b, (a.meaning c).indexNode f⟩ (b.meaning c).toWays f) S.HasIndex

/-! The value that a variable is bound to. -/

theorem runs_bound (e : Expr) {own : Ways} {parts : List Ways} (hf : S.HasFrame f) (hc : S.HasContext c)
    (hmode : e.mode.defers → S.Defers) (hown : ∀ g, S.HasFrame g → S.Carries own g)
    (hparts : ∀ a ∈ parts, S.Carries a f) :
    S.Runs (e.bound c own parts f) S.HasValue := by
  have hlist {p : Eval (List Item)} (hp : S.Runs p (∀ x ∈ ·, S.Has x)) :
      S.Runs (do return Value.items (← p)) S.HasValue := hp.gives fun _ => id
  have hall := hlist (hown f hf).toList
  have hdefer (h : S.Defers) (keeps : Bool) (slots : List Slot) :
      S.Runs (do return Value.deferred (← Deferred.create keeps (own.items (f.capture slots))) 0) S.HasValue :=
    (h keeps _ (hown _ (hf.capture slots)).items).gives fun _ => id
  unfold Expr.bound
  -- An evaluation that is put off is one in a frame of captured slots, so the ways are needed in any frame.
  cases hm : e.mode with
  | returnEmpty => exact runs_pure (List.forall_mem_nil _)
  | alreadyValue => exact hall
  | iterateAndMaterialize => exact hall
  | singleItem => exact (hown f hf).item.gives fun o ho x hx => ho x (Option.mem_toList.1 hx)
  | pushProduction => exact hlist (hown f hf).push
  | oneShotClosure slots => exact hdefer (hmode (hm ▸ rfl)) false slots
  | memoClosure slots => exact hdefer (hmode (hm ▸ rfl)) true slots
  | evaluateVariable =>
    dsimp only
    split
    · exact hf.valueOf hc _
    · exact hall
  | materializeVariable =>
    dsimp only
    split
    · exact (hf.valueOf hc _).bind fun _ hv => hlist hv.toList
    · exact hall
  | lazyTail =>
    dsimp only
    split
    · exact (hf.valueOf hc _).bind fun _ hv => hv.tail _
    · exact hall
  | sharedAppend =>
    dsimp only
    split
    · refine (hf.valueOf hc _).bind fun _ hv => hv.toList.bind fun xs hxs => ?_
      refine (hparts _ (by simp)).toList.gives fun ys hys x hx => ?_
      exact (List.mem_append.1 hx).elim (hxs x) (hys x)
    · exact hall

end Setting

namespace Expr
variable {S : Setting} {c : DynamicContext}

/-- In frames that stay inside, the exchange does not change what the expression does. -/
def Ignores (e : Expr) (S : Setting) (c : DynamicContext) : Prop :=
  ∀ f, S.HasFrame f → S.Carries (e.meaning c).toWays f ∧ S.Runs ((e.meaning c).bound f) S.HasValue

/-- The expression makes no nodes, and puts off evaluations and looks up indexes only where the setting allows
for that. -/
structure Suits (S : Setting) (c : DynamicContext) (e : Expr) : Prop where
  creates : e.effects.creates = false
  mode : e.mode.defers → S.Defers
  finds : ∀ n a b d, e = ternary n .indexedFilter a b d → S.Finds c a b

/-- It suffices to look at the ways of the operator. -/
theorem ignores_of_own {e : Expr} {own : Ways} {parts : List Ways} (hm : e.meaning c = meaningOf c e parts own)
    (hc : S.HasContext c) (hmode : e.mode.defers → S.Defers) (hown : ∀ f, S.HasFrame f → S.Carries own f)
    (hparts : ∀ f, S.HasFrame f → ∀ a ∈ parts, S.Carries a f) : e.Ignores S c := by
  intro f hf
  rw [hm]
  exact ⟨hown f hf, Setting.runs_bound e hf hc hmode hown (hparts f hf)⟩

theorem Ignores.carries {e : Expr} (h : e.Ignores S c) (f : Frame) (hf : S.HasFrame f) :
    S.Carries (e.meaning c).toWays f :=
  (h f hf).1

/-- An expression that makes no nodes ignores which of the worlds it is evaluated in. -/
theorem ignores (hc : S.HasContext c) (e : Expr) (he : e.All (Suits S c)) :
    e.Ignores S c := by
  match e with
  | leaf n op =>
    exact ignores_of_own (meaning_leaf c n op) hc he.self.mode (fun f hf => Setting.carries_leaf n op hf hc)
      fun _ _ => List.forall_mem_nil _
  | unary n op a =>
    obtain ⟨hno, hea⟩ := all_unary.1 he
    have ia := ignores hc a hea
    refine ignores_of_own (meaning_unary c n op a) hc he.self.mode (fun f hf => ?_) fun f hf => ?_
    · exact Setting.carries_unary n op (ia.carries f hf) (creates_unary hno.creates).1
    · exact List.forall_mem_singleton.2 (ia.carries f hf)
  | binary n op a b =>
    obtain ⟨-, hea, heb⟩ := all_binary.1 he
    have ia := ignores hc a hea
    have ib := ignores hc b heb
    refine ignores_of_own (meaning_binary c n op a b) hc he.self.mode (fun f hf => ?_) fun f hf => ?_
    · exact Setting.carries_binary n op hf (ia.carries f hf) (ia f hf).2 ib.carries
    · simpa using ⟨ia.carries f hf, ib.carries f hf⟩
  | ternary n op a b d =>
    obtain ⟨hno, hea, heb, hed⟩ := all_ternary.1 he
    have ia := ignores hc a hea
    have ib := ignores hc b heb
    have id := ignores hc d hed
    refine ignores_of_own (meaning_ternary c n op a b d) hc hno.mode (fun f hf => ?_) fun f hf => ?_
    · refine Setting.carries_ternary n op (a, b) hf (ia.carries f hf) ib.carries (id.carries f hf) ?_
      rintro rfl
      exact hno.finds n a b d rfl ia.carries ib.carries f hf
    · simpa using ⟨ia.carries f hf, ib.carries f hf, id.carries f hf⟩
  | nary n op args =>
    obtain ⟨-, heargs⟩ := all_nary.1 he
    have ih : ∀ a ∈ args, a.Ignores S c := fun a ha => ignores hc a (heargs a ha)
    have hparts (f : Frame) (hf : S.HasFrame f) : ∀ w ∈ operandWays c args, S.Carries w f := by
      intro w hw
      obtain ⟨a, ha, rfl⟩ := List.mem_map.1 hw
      exact (ih a ha).carries f hf
    exact ignores_of_own (meaning_nary c n op args) hc he.self.mode
      (fun f hf => Setting.carries_nary n op hf hc (hparts f hf)) hparts

end Expr
end XPath
