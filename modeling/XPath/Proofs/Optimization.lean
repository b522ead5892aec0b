import XPath.Compile
import XPath.Proofs.Promotion
import XPath.Proofs.Storing

/-! The optimizer accepts every expression that is firm, whatever it is configured to do. -/
namespace XPath

namespace Expr
variable {P : Variables} {context : StaticContext} {noted : Bool}

mutual

/-- What is required does not depend on how much is optimized. -/
theorem Firm.configure (config : OptimizerConfig) (e : Expr) {V : Outlook}
    (h : e.Firm P context noted V) : e.Firm P { context with optimizer := config } noted V := by
  match e with
  | leaf n op => exact ⟨h.1, by cases op <;> exact h.2⟩
  | unary n op a =>
    obtain ⟨hn, A, ha, hmeets, hacc⟩ := h
    exact ⟨hn, A, Firm.configure config a ha, fun t ht => by cases op <;> exact hmeets t ht, hacc⟩
  | binary n op a b =>
    obtain ⟨hn, A, B, ha, hb, hleft, hright, hrest⟩ := h
    exact ⟨hn, A, B, Firm.configure config a ha, Firm.configure config b hb,
      fun t ht => by cases op <;> exact hleft t ht, fun t ht => by cases op <;> exact hright t ht, hrest⟩
  | ternary n op a b d =>
    obtain ⟨hn, A, B, D, ha, hb, hd, hacc⟩ := h
    exact ⟨hn, A, B, D, Firm.configure config a ha, Firm.configure config b hb,
      Firm.configure config d hd, hacc⟩
  | nary n op args =>
    obtain ⟨hn, As, hargs, hrest⟩ := h
    exact ⟨hn, As, FirmList.configure config args hargs, hrest⟩

theorem FirmList.configure (config : OptimizerConfig) (es : List Expr) {As : List Outlook}
    (h : FirmList P context noted es As) : FirmList P { context with optimizer := config } noted es As := by
  match es, As with
  | [], [] => trivial
  | e :: es, A :: As => exact ⟨Firm.configure config e h.1, FirmList.configure config es h.2⟩

end

theorem Shrinks.wellBound {e e' : Expr} (h : e.Shrinks e') (he : WellBound [e]) : WellBound [e'] := by
  rw [wellBound_iff] at he ⊢
  refine ⟨fun s hs => Nat.le_zero.1 ?_, fun s => (h.binders s).trans (he.2 s)⟩
  rw [← he.1 s (h.needs s hs)]
  exact h.binders s

/-- Every static requirement in the expression is met by whatever the rewrites may make of its operand. -/
def IsFirm (context : StaticContext) (unit : CompileUnit) (e : Expr) : Prop :=
  ∃ P V, P.Knows unit {s | e.needs s} ∧ e.Firm P context false V

end Expr

namespace Optimize
open XPath.Expr

variable {P : Variables} {context : StaticContext} {known : Set Slot} {unit : CompileUnit} {e : Expr}
  {V : Outlook}

theorem rounds_accepts (n : ℕ) (h : e.Settled P context known unit V) (hbound : WellBound [e]) :
    ∃ y unit', (rounds n e).run context unit = (.ok y, unit') := by
  induction n generalizing e P known unit with
  | zero => exact ⟨e, unit, rfl⟩
  | succ n ih =>
    have hbelow (s) (hs : e.Mentions s) := h.below s (h.mentioned s hs)
    have hmoves := Hoist.promote_moves context hbound hbelow
    obtain ⟨hbound₁, hbelow₁⟩ := hmoves.wellBound hbound hbelow
    have hfirm : FirmList P context true [e] [V] := ⟨h.firm, trivial⟩
    obtain ⟨P₁, hg, hfirm₁, _⟩ := hmoves.firm
      (fun s hs => (h.knows.declared s).symm.trans (CompileUnit.declared_of_size_le hs)) hfirm
    have hknows₁ := hmoves.grows.knows hg h.knows h.below
    generalize hpromote : Hoist.promote e unit = promoted at *
    obtain ⟨e₁, unit₁, moved⟩ := promoted
    dsimp only at hmoves hbound₁ hbelow₁ hfirm₁ hknows₁
    obtain _ | ⟨hneeds, _⟩ := hmoves.needs
    obtain ⟨e₂, unit₂, hrun₂, hfirm₂, hknows₂⟩ := Typing.check_firm e₁ hfirm₁.1 hknows₁
      (fun s hs => h.mentioned s (.inl ((hneeds s hs).resolve_right nofun))) fun s hs => hbelow₁ s (.inr hs)
    have hsize₂ := (Typing.check_refines e₁ hrun₂).size
    have hshrinks := Shrinks.of_resembles (Typing.check_resembles e₁ hrun₂)
    have hsettled : e₂.Settled P₁ context {s | s ∈ known ∨ s ∈ e₁.boundSlots} unit₂ V := by
      refine ⟨hfirm₂, hknows₂, fun s hs => ?_, fun s hs => ?_⟩
      · exact (hshrinks.mentions hs).imp_left fun hs =>
          h.mentioned s (.inl ((hneeds s hs).resolve_right nofun))
      · rw [hsize₂]
        exact hs.elim (fun hs => (h.below s hs).trans_le hmoves.grows.size) fun hs => hbelow₁ s (.inr hs)
    obtain ⟨e₃, unit₃, hrun₃, hsettled₃, hshrinks₃, _⟩ := Rewrite.tree_settles e₂ hsettled
    obtain ⟨y, unit₄, hrun₄⟩ := ih hsettled₃ ((hshrinks.trans hshrinks₃).wellBound hbound₁)
    have hset : (set unit₁ : Pass PUnit).run context unit = (.ok ⟨⟩, unit₁) := rfl
    unfold rounds
    rw [Pass.run_bind_eq (Pass.run_get context unit)]
    simp only [hpromote]
    rw [Pass.run_bind_eq hset, Pass.run_bind_eq hrun₂]
    split
    · exact ⟨e₂, unit₂, rfl⟩
    · rw [Pass.run_bind_eq hrun₃]
      exact ⟨y, unit₄, hrun₄⟩

/-- Optimizing a settled expression accepts it. -/
theorem optimize_settled (h : e.Settled P context known unit V) (hbound : WellBound [e]) :
    ∃ y unit', (optimize e).run context unit = (.ok y, unit') := by
  obtain ⟨e₁, unit₁, hrun₁, hsettled₁, hshrinks₁, _⟩ := Rewrite.tree_settles e h
  unfold optimize
  rw [Pass.run_bind_eq (Pass.run_read context unit)]
  dsimp only
  split
  · exact ⟨e, unit, rfl⟩
  · rw [Pass.run_bind_eq hrun₁]
    split
    · exact rounds_accepts 8 hsettled₁ (hshrinks₁.wellBound hbound)
    · exact ⟨e₁, unit₁, rfl⟩

/-- An expression that is accepted is still accepted when it is optimized, however the optimizer is
configured, if the static requirements in it are met by whatever the rewrites may make of their operands. -/
theorem optimize_accepts {e x : Expr} {unit' : CompileUnit}
    (hcheck : (Typing.check e.simplify).run context unit = (.ok x, unit'))
    (hbound : WellBound [e.simplify]) (hslots : ∀ s, e.simplify.Mentions s → s < unit.bindings.size)
    (hfirm : e.simplify.IsFirm context unit) (config : OptimizerConfig) :
    ∃ y unit'', (optimize x).run { context with optimizer := config } unit' = (.ok y, unit'') := by
  obtain ⟨P, V, hknows, hfirm⟩ := hfirm
  obtain ⟨x', unit₁, hrun, hx, hknows₁⟩ := Typing.check_firm e.simplify hfirm hknows (fun s hs => hs)
    fun s hs => hslots s (.inr hs)
  rw [hcheck] at hrun
  cases hrun
  have hshrinks := Shrinks.of_resembles (Typing.check_resembles e.simplify hcheck)
  have hsettled : x.Settled P { context with optimizer := config } {s | e.simplify.Mentions s} unit' V := by
    refine ⟨Firm.configure config x hx, hknows₁.mono fun s hs => hs, fun s hs => hshrinks.mentions hs,
      fun s hs => ?_⟩
    rw [(Typing.check_refines e.simplify hcheck).size]
    exact hslots s hs
  exact optimize_settled hsettled (hshrinks.wellBound hbound)

/-- `let $x := (1, 2)[2] return $x + 1` -/
def secondPlusOne : Expr :=
  .mkBinary (.let 0)
    (.mkBinary (.filter false) (.mkLeaf (.literal [.integer 1, .integer 2]) 0) (.constantAt (.integer 2) 0) 0)
    (.mkBinary (.arithmetic .add) (.mkLeaf (.variable (.range 0)) 0) (.constantAt (.integer 1) 0) 0) 0

/-- One variable, of no declared type. -/
def unitOfOne : CompileUnit := (({} : CompileUnit).allocate (.unprefixed "x") .range none).2

/-- The second of two numbers is still a number when it is picked without a filter. -/
theorem optimize_second_plus_one : ∃ x unit',
    (Typing.check secondPlusOne.simplify).run {} unitOfOne = (.ok x, unit') ∧
      ∃ y unit'', (optimize x).run { optimizer := {} } unit' = (.ok y, unit'') := by
  let integer : Set SequenceType := {t | t.item = .atomic .integer}
  let P : Variables := ⟨fun s => (unitOfOne.binding s).declared, fun _ => integer⟩
  let integers : Outlook := ⟨integer, False, False, ∅⟩
  have hsimplify : secondPlusOne.simplify = secondPlusOne := by rfl
  have hneeds (s) : secondPlusOne.needs s = false := by cases s <;> rfl
  have hslots : secondPlusOne.boundSlots = [0] := by rfl
  have hmentions (s) (hs : secondPlusOne.Mentions s) : s < unitOfOne.bindings.size := by
    obtain hs | hs := hs
    · rw [hneeds] at hs
      cases hs
    · rw [hslots, List.mem_singleton] at hs
      subst hs
      decide
  have hconstant (cs : List Constant) (htype : ((LeafOp.literal cs).typeWith (fun _ => .any)
      ({} : StaticContext).globalType).item = .atomic .integer) (hcs : ∀ c, cs = [c] → ¬ c.rejects) :
      (mkLeaf (.literal cs) 0).Firm P {} false integers :=
    ⟨marked_of_unnoted, htype, fun c hc hr => hcs c hc hr⟩
  have hone (i) (hi : ¬ (Constant.integer i).rejects) : (constantAt (.integer i) 0).Firm P {} false integers :=
    hconstant _ rfl fun c hc => by rwa [← List.singleton_inj.1 hc]
  have hnumbers (t) (ht : t ∈ integer) : t.mayBeNumbers {} := by
    rw [SequenceType.mayBeNumbers, show t.item = .atomic .integer from ht]
    decide
  have hsecond : Firm P {} false (.mkBinary (.filter false)
      (.mkLeaf (.literal [.integer 1, .integer 2]) 0) (.constantAt (.integer 2) 0) 0) integers := by
    refine ⟨marked_of_unnoted, integers, integers, hconstant _ rfl (by rintro _ ⟨⟩), hone 2 (by decide),
      ?_, ?_, ?_, ?_, nofun⟩
    · exact fun t _ => trivial
    · exact fun t _ => trivial
    · trivial
    · exact ⟨.refl _, fun t ht c _ => ht⟩
  have hsum : Firm P {} false (.mkBinary (.arithmetic .add) (.mkLeaf (.variable (.range 0)) 0)
      (.constantAt (.integer 1) 0) 0) integers := by
    have hvariable : (mkLeaf (.variable (.range 0)) 0).Firm P {} false integers :=
      ⟨marked_of_unnoted, subset_rfl, by rintro ⟨⟩⟩
    refine ⟨marked_of_unnoted, integers, integers, hvariable, hone 1 (by decide), hnumbers, hnumbers, trivial, ?_, trivial⟩
    intro t ht u hu
    have hsum : ItemType.arithmeticType .add t.item u.item = .atomic .integer := by
      rw [show t.item = .atomic .integer from ht, show u.item = .atomic .integer from hu]
      rfl
    exact hsum
  have hfirm : secondPlusOne.Firm P {} false integers :=
    ⟨marked_of_unnoted, integers, integers, hsecond, hsum, fun t _ => trivial, fun t _ => trivial, subset_rfl, .refl _⟩
  obtain ⟨x, unit', hcheck⟩ : ∃ x unit', (Typing.check secondPlusOne.simplify).run {} unitOfOne =
      (.ok x, unit') := ⟨_, _, rfl⟩
  have hbound : WellBound [secondPlusOne.simplify] := by
    rw [hsimplify]
    exact Typing.wellBound_of_closed hneeds (hslots ▸ by decide)
  have hisFirm : secondPlusOne.simplify.IsFirm {} unitOfOne := by
    rw [hsimplify]
    refine ⟨P, integers, ⟨fun s => rfl, fun s hs => ?_⟩, hfirm⟩
    rw [Set.mem_ofPred_eq, hneeds] at hs
    cases hs
  exact ⟨x, unit', hcheck, optimize_accepts hcheck hbound (by rwa [hsimplify]) hisFirm {}⟩

/-- `if (1 = 2) then (("a", "b")[false()] cast as xs:string) else 7` -/
def castOfNone : Expr :=
  .mkTernary .if
    (.mkBinary (.generalComparison .eq) (.constantAt (.integer 1) 0) (.constantAt (.integer 2) 0) 0)
    (.mkUnary (.cast .string false)
      (.mkBinary (.filter false) (.mkLeaf (.literal [.string "a", .string "b"]) 0) (.callAt .false [] 0) 0) 0)
    (.constantAt (.integer 7) 0) 0

/-- A cast that is never asked for is accepted until its operand is found to be empty. -/
theorem optimize_rejects : ∃ x unit', (Typing.check castOfNone.simplify).run {} {} = (.ok x, unit') ∧
    ∃ failure unit'', (optimize x).run {} unit' = (.error failure, unit'') ∧
      failure.cause = .castOfEmpty .string :=
  ⟨_, _, rfl, _, _, rfl, rfl⟩

end Optimize
end XPath
