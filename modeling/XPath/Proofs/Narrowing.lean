import XPath.Proofs.Choosing
import XPath.Proofs.Rechecking

/-!
The forms that the specialization of a filter takes, checked again. A selection by position gives what stands at the
positions of the base, and a filter by a predicate that asks for positions narrows the base by one side of the
predicate after the other.
-/
namespace XPath
namespace Typing
open XPath.Expr
variable {context : StaticContext} {v : CompileUnit}

/-- Checking gives this expression and finds out nothing else. -/
def Rechecks (context : StaticContext) (v : CompileUnit) (e g : Expr) : Prop := (check e).run context v = (.ok g, v)

theorem Rechecks.of_all {e : Expr} (h : e.All (IsChecked context v)) : Rechecks context v e e := run_check_of_all e h

theorem rechecks_literal (cs : List Constant) (at' : LocationId) :
    ∃ n, Rechecks context v (mkLeaf (.literal cs) at') (leaf n (.literal cs)) := ⟨_, rfl⟩

theorem rechecks_unary (op : UnaryOp) {a g : Expr} (ha : Rechecks context v a g) (n : Note)
    (hinfer : ∃ m, (infer (unary n op g)).run context v = (.ok (unary m op g), v)) :
    ∃ m, Rechecks context v (unary n op a) (unary m op g) :=
  hinfer.imp fun _ h => (Pass.run_bind_eq ha).trans h

theorem rechecks_binary (op : BinaryOp) {op' : BinaryOp} {a b g h : Expr} (ha : Rechecks context v a g)
    (hb : Rechecks context v b h) (n : Note) (hslot : op.slot? = none)
    (hinfer : ∃ m, (infer (binary n op g h)).run context v = (.ok (binary m op' g h), v)) :
    ∃ m, Rechecks context v (binary n op a b) (binary m op' g h) := by
  have hbind : (bindFor op g).run context v = (.ok g, v) := by
    cases op with
    | «for» | «let» | quantified => cases hslot
    | _ => rfl
  refine hinfer.imp fun m hm => ?_
  unfold Rechecks
  rw [run_check_binary, Pass.run_bind_eq ha, Pass.run_bind_eq hbind, Pass.run_bind_eq hb]
  exact hm

theorem rechecks_filter {a b g h : Expr} (ha : Rechecks context v a g) (hb : Rechecks context v b h) (n : Note)
    (positional : Bool) :
    ∃ m positional', Rechecks context v (binary n (.filter positional) a b) (binary m (.filter positional') g h) :=
  (rechecks_binary _ ha hb n rfl ⟨_, rfl⟩).imp fun _ hm => ⟨_, hm⟩

/-- The truth of any expression may be asked for. -/
theorem rechecks_toBoolean {e g : Expr} (h : Rechecks context v e g) :
    ∃ B, Rechecks context v e.toBoolean B ∧ IsTruthOf g B := by
  have hsuits : g.type.maySuit .any := by
    have hc : g.type.cardinality.overlaps .zeroOrMore := by cases g.type.cardinality <;> rfl
    have hi : g.type.item.overlaps .item := by cases g.type.item <;> rfl
    simp [SequenceType.maySuit, SequenceType.any, hc, hi]
  have hargs : (checkList [e]).run context v = (.ok [g], v) := Pass.run_bind_eq h
  have hrequire : (requireArguments .boolean [g] [.any]).run context v = (.ok (), v) :=
    Pass.run_bind_eq (run_requireArgument hsuits .boolean)
  refine ⟨_, (Pass.run_bind_eq hargs).trans (Pass.run_bind_eq hrequire), .call ?_⟩
  change (({} : Dependencies) ∪ g.info.dependencies) ∪ {} = g.info.dependencies
  exact congrArg Effects.reads ((Effects.union_empty _).trans (Effects.empty_union ⟨g.info.dependencies, false⟩))

/-! Selections by position. -/

/-- The cheapest form of a selection by position. -/
theorem rechecks_select {base : Expr} (hbase : base.All (IsChecked context v)) {p : Positions} (hp : p.IsProper)
    (at' : LocationId) : ∃ g, Rechecks context v (base.select p at') g ∧ Selected base p g := by
  have hbase := Rechecks.of_all hbase
  obtain ⟨min, max⟩ := p
  unfold select
  split
  · next hempty =>
    obtain ⟨n, hn⟩ : ∃ n, Rechecks context v _ (leaf n (.literal [])) := rechecks_literal [] at'
    refine ⟨_, hn, fun c f w => ?_, fun S c f hc hf _ => ?_⟩
    · rw [Positions.pick_of_isEmpty hempty]
      rfl
    · rw [meaning_leaf]
      exact Setting.carries_leaf n (.literal []) hf hc
  · split
    · next hmin hmax =>
      cases hmin
      cases hmax
      exact ⟨base, hbase, fun c f w => Source.toList_eq _ w, fun S c f _ _ h => h⟩
    · next hmin hmax =>
      cases hmin
      cases hmax
      obtain ⟨m, hm⟩ := rechecks_unary .first hbase { location := at' } ⟨_, rfl⟩
      refine ⟨_, hm, fun c f w => result_first c m base f w, fun S c f hc hf ha => ?_⟩
      rw [meaning_unary]
      exact Setting.carries_unary m .first ha rfl
    · dsimp only
      split
      · next hmax =>
        subst hmax
        obtain ⟨k, hk⟩ : ∃ k, Rechecks context v _ (leaf k (.literal [.integer min])) := rechecks_literal _ at'
        obtain ⟨m, hm⟩ := rechecks_binary .itemAt hbase hk { location := at' } rfl ⟨_, rfl⟩
        refine ⟨_, hm, fun c f w => ?_, fun S c f hc hf ha => ?_⟩
        · have hvalue : (((leaf k (.literal [.integer min])).meaning c).value? f).perform w =
              (.ok (some (.ofInt min)), w) := rfl
          rw [result_itemAt c m base f w hvalue, Atomic.position?_ofInt hp.pos hp.small]
          rfl
        · rw [meaning_binary, meaning_leaf]
          exact .ofItem m (Setting.runs_itemAt ha (Setting.carries_leaf k (.literal [.integer min]) hf hc))
      · obtain ⟨m, hm⟩ := rechecks_unary (.slice min max) hbase { location := at' } ⟨_, rfl⟩
        refine ⟨_, hm, fun c f w => result_slice c m base f w min max, fun S c f hc hf ha => ?_⟩
        rw [meaning_unary]
        exact Setting.carries_unary m (.slice min max) ha rfl

end Typing

namespace Expr

/-- A conjunction that is split: exactly one side asks for the position. -/
def splits : Expr → Bool
  | binary _ .and a b => a.readsPosition != b.readsPosition
  | _ => false

/-- A predicate that asks for the position is answered as a whole if its positions are known. -/
theorem selectWhole_of_readsPosition {base P e : Expr} {at' : LocationId} (hr : P.Recorded) (hplace : P.readsPosition)
    (h : base.selectWhole? P at' = some e) : ∃ p, P.positions? = some p ∧ e = base.select p at' := by
  unfold selectWhole? at h
  split at h
  · next hconstant =>
    obtain ⟨k, hk, -⟩ := Option.bind_eq_some_iff.1 hconstant
    unfold constant? at hk
    split at hk
    · next n _ =>
      have hinfo : (leaf n (.literal [_])).info.effects = {} := hr.self
      have hnone : (leaf n (.literal [_])).info.dependencies = {} := congrArg Effects.reads hinfo
      unfold readsPosition at hplace
      rw [hnone] at hplace
      cases hplace
    · cases hk
  · split at h
    · next p hp =>
      cases h
      exact ⟨p, hp, rfl⟩
    · split at h
      · next hinvariant =>
        unfold isInvariantNumber Dependencies.focus at hinvariant
        unfold readsPosition at hplace
        simp only [Bool.and_eq_true, Bool.not_eq_true', Bool.or_eq_false_iff, Bool.or_eq_true] at hinvariant hplace
        obtain ⟨⟨⟨-, -⟩, ⟨-, hposition⟩, hlast⟩, -⟩ := hinvariant
        rw [hposition, hlast] at hplace
        exact absurd hplace (by simp)
      · cases h

end Expr

namespace Typing
open XPath.Expr
variable {context : StaticContext} {v : CompileUnit} {base : Expr}

theorem focus_of_readsPosition {e : Expr} (h : e.readsPosition) : e.info.dependencies.focus := by
  unfold readsPosition at h
  unfold Dependencies.focus
  simp only [Bool.or_eq_true] at h ⊢
  exact h.imp_left .inr

/-- The side of a conjunction that selects first: a number is taken for its truth. -/
theorem rechecks_side (hbase : base.All (IsChecked context v)) {x : Expr} (hx : x.All (IsChecked context v))
    (hplace : x.readsPosition) (at' : LocationId)
    (hspecial : x.itemType.mayBeNumeric = false →
      ∃ g, Rechecks context v (specialize { location := at' } true false base x).1 g ∧ Narrows base x g) :
    ∃ g, Rechecks context v (if x.itemType.mayBeNumeric then specialize.positionalFilter at' base x.toBoolean
      else specialize { location := at' } true false base x).1 g ∧ Narrows base x g := by
  split
  · obtain ⟨B, hB, htruth⟩ := rechecks_toBoolean (.of_all hx)
    obtain ⟨m, positional, hm⟩ := rechecks_filter (.of_all hbase) hB { location := at' } true
    exact ⟨_, hm, .truth htruth (focus_of_readsPosition hplace)⟩
  · next hmay => exact hspecial (Bool.not_eq_true _ ▸ hmay)

/-- A predicate that is answered as a whole, or not specialized. -/
theorem rechecks_whole (hbase : base.All (IsChecked context v)) {P : Expr} (hP : P.All (IsChecked context v))
    (hr : P.Recorded) (hplace : P.readsPosition) (hmay : P.itemType.mayBeNumeric = false) (n : Note) :
    ∃ g, Rechecks context v (match base.selectWhole? P n.location with
      | some e => (e, true)
      | none => filterPlainly n true false base P).1 g ∧ Narrows base P g := by
  split
  · next he =>
    obtain ⟨p, hp, rfl⟩ := selectWhole_of_readsPosition hr hplace he
    obtain ⟨t, ht⟩ := positions_asks hp
    obtain ⟨g, hg, hselected⟩ := rechecks_select hbase ht.proper n.location
    exact ⟨g, hg, .positions ht hselected⟩
  · obtain ⟨m, positional, hm⟩ := rechecks_filter (.of_all hbase) (.of_all hP) n true
    exact ⟨_, hm, .plain hmay (focus_of_readsPosition hplace)⟩

/-- A filter by a predicate that asks for positions and is no number narrows its base. -/
theorem rechecks_specialize (hbase : base.All (IsChecked context v)) (P : Expr) (hP : P.All (IsChecked context v))
    (hr : P.Recorded) (hplace : P.readsPosition) (hmay : P.itemType.mayBeNumeric = false) (n : Note) :
    ∃ g, Rechecks context v (specialize n true false base P).1 g ∧ Narrows base P g := by
  match P with
  | binary m op a b =>
    cases op with
    | and =>
      have hwhole := rechecks_whole hbase hP hr hplace hmay n
      obtain ⟨-, ha, hb⟩ := all_binary.1 hP
      obtain ⟨-, hra, hrb⟩ := all_binary.1 hr
      unfold specialize
      dsimp only
      split
      · next he => rwa [he] at hwhole
      · next hnone =>
        rw [hnone] at hwhole
        split
        · next hsides =>
          obtain ⟨hsa, hsb⟩ := Bool.and_eq_true_iff.1 hsides
          obtain ⟨g, hg, hnarrows⟩ := rechecks_side hbase ha hsa n.location
            fun hmay => rechecks_specialize hbase a ha hra hsa hmay _
          obtain ⟨B, hB, htruth⟩ := rechecks_toBoolean (.of_all hb)
          obtain ⟨k, positional, hk⟩ := rechecks_filter hg hB { location := n.location } false
          exact ⟨_, hk, .left hnarrows (Bool.not_eq_true' _ ▸ hsb) htruth⟩
        · split
          · next hsides =>
            obtain ⟨hsb, hsa⟩ := Bool.and_eq_true_iff.1 hsides
            obtain ⟨g, hg, hnarrows⟩ := rechecks_side hbase hb hsb n.location
              fun hmay => rechecks_specialize hbase b hb hrb hsb hmay _
            obtain ⟨B, hB, htruth⟩ := rechecks_toBoolean (.of_all ha)
            obtain ⟨k, positional, hk⟩ := rechecks_filter hg hB { location := n.location } false
            exact ⟨_, hk, .right hnarrows (Bool.not_eq_true' _ ▸ hsa) htruth⟩
          · exact hwhole
    | _ => exact rechecks_whole hbase hP hr hplace hmay n
  | leaf m op => exact rechecks_whole hbase hP hr hplace hmay n
  | unary m op a => exact rechecks_whole hbase hP hr hplace hmay n
  | ternary m op a b d => exact rechecks_whole hbase hP hr hplace hmay n
  | nary m op args => exact rechecks_whole hbase hP hr hplace hmay n

end Typing
end XPath
