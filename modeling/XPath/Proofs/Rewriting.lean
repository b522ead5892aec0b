import XPath.Proofs.Acceptance
import XPath.Proofs.Binders

/-! What the rewrites make of a firm expression is firm, with the same outlook. -/
namespace XPath

namespace Outlook
variable {A B V : Outlook}

/-- Anything may become of it. -/
def top : Outlook := ⟨Set.univ, True, True, Set.univ⟩

/-- The least outlook of a selection, which may select nothing if `nothing` holds. -/
def selected (A : Outlook) (nothing : Prop) : Outlook :=
  A.withTypes {s | (∃ t ∈ A.types, ∃ c ∈ t.cardinality.selections, s = ⟨t.item, c⟩) ∨ nothing ∧ s = .empty}

theorem selects_selected (A : Outlook) (nothing : Prop) : A.Selects (A.selected nothing) where
  toPasses := A.passes_withTypes _
  selected t ht c hc := .inl ⟨t, ht, c, hc, rfl⟩

/-- A selection from a selection is a selection. -/
theorem selected_selects {nothing : Prop} (h : A.Selects V) (hnone : nothing → .empty ∈ V.types) :
    (A.selected nothing).Selects V where
  toPasses := (A.withTypes_passes _).trans h.toPasses
  selected := by
    rintro s (⟨t, ht, c, hc, rfl⟩ | ⟨hn, rfl⟩) d hd
    · exact h.selected t ht d (Cardinality.selections_trans hc hd)
    · obtain rfl := Cardinality.selections_empty hd
      exact hnone hn

end Outlook

namespace Expr
variable {P : Variables} {context : StaticContext} {noted : Bool} {A B V : Outlook} {a b base : Expr}

theorem unordered_firm (h : a.Firm P context noted A) : a.unordered.Firm P context noted A := by
  unfold unordered
  split
  · obtain ⟨_, A', ha, _, hacc⟩ := h
    split
    · exact ha.mono hacc
    · exact ⟨‹_›, A', ha, ‹_›, hacc⟩
  · exact h

theorem emptyAt_firm (h : .empty ∈ V.types) (at' : LocationId) : (emptyAt at').Firm P context false V :=
  ⟨marked_of_unnoted, h, by simp⟩

theorem constantAt_firm (c : Constant) (at' : LocationId) : (constantAt c at').Firm P context false .top :=
  ⟨marked_of_unnoted, trivial, fun _ _ _ => trivial⟩

theorem filter_firm {n : Note} {p : Bool} (ha : a.Firm P context false A) (hb : b.Firm P context false B)
    (h : A.Selects V) (hnone : B.rejects → .empty ∈ V.types) :
    (binary n (.filter p) a b).Firm P context false V :=
  ⟨marked_of_unnoted, A, B, ha, hb, fun _ _ => trivial, fun _ _ => trivial, trivial, h, hnone⟩

theorem itemAt_firm (ha : a.Firm P context false A) (hb : b.Firm P context false B) (h : A.Selects V)
    (at' : LocationId) : (mkBinary .itemAt a b at').Firm P context false V := by
  refine ⟨marked_of_unnoted, A, B, ha, hb, fun _ _ => trivial, fun _ _ => trivial, trivial, fun t ht _ _ => ?_, trivial⟩
  apply h.selected t ht
  exact Cardinality.selections_trans t.cardinality.pickOne_mem_selections
    t.cardinality.pickOne.orEmpty_mem_selections

theorem first_firm (ha : a.Firm P context false A) (h : A.Selects V) (at' : LocationId) :
    (mkUnary .first a at').Firm P context false V :=
  ⟨marked_of_unnoted, A, ha, fun _ _ => trivial, fun t ht => h.selected t ht _ t.cardinality.pickOne_mem_selections⟩

theorem slice_firm (ha : a.Firm P context false A) (h : A.Selects V) (min : ℕ) (max : Option ℕ)
    (at' : LocationId) : (mkUnary (.slice min max) a at').Firm P context false V :=
  ⟨marked_of_unnoted, A, ha, fun _ _ => trivial, fun t ht => h.selected t ht _ t.cardinality.orEmpty_mem_selections⟩

/-- The items at given positions are a selection; of no positions, the empty sequence. -/
theorem select_firm (ha : base.Firm P context false A) (h : A.Selects V) {p : Positions}
    (hnone : p.isEmpty → .empty ∈ V.types) (at' : LocationId) :
    (base.select p at').Firm P context false V := by
  unfold select
  split
  · next hp => exact emptyAt_firm (hnone hp) at'
  · split
    · exact ha.mono h.within
    · exact first_firm ha h at'
    · split
      · exact itemAt_firm ha (constantAt_firm _ at') h at'
      · exact slice_firm ha h _ _ at'

theorem rejects_of_constant {c : Constant} (hb : b.Firm P context noted B) (hc : b.constant? = some c)
    (hr : c.rejects) : B.rejects := by
  unfold constant? at hc
  split at hc
  · cases hc
    exact hb.2.2 _ rfl hr
  · cases hc

theorem position_of_call (hb : b.Firm P context noted B) (h : b.isPositionCall) : B.position := by
  unfold isPositionCall at h
  split at h
  · obtain ⟨_, As, _, _, _, hp⟩ := hb
    exact hp rfl
  · cases h

/-- Only a comparison with `position()`, or a conjunction of such, asks for positions. -/
theorem rejects_of_positions (b : Expr) {B : Outlook} {p : Positions} (hb : b.Firm P context noted B)
    (hp : b.positions? = some p) : B.rejects := by
  have hcompared {op : ComparisonOp} {general : Bool} {x y : Expr} {X Y : Outlook}
      (hx : x.Firm P context noted X) (hy : y.Firm P context noted Y)
      (h : comparedPositions op general x y = some p) : X.position ∨ Y.position := by
    unfold comparedPositions at h
    split at h
    · next hcall => exact .inl (position_of_call hx hcall)
    · split at h
      · next hcall => exact .inr (position_of_call hy hcall)
      · cases h
  match b with
  | binary n op x y =>
    obtain ⟨_, X, Y, hx, hy, _, _, _, hacc⟩ := hb
    unfold positions? at hp
    cases op with
    | and =>
      cases hpx : x.positions? with
      | none => simp [hpx] at hp
      | some q => exact hacc.2 (.inl (rejects_of_positions x hx hpx))
    | generalComparison op => exact hacc.2 (hcompared hx hy hp)
    | valueComparison op => exact hacc.2 (hcompared hx hy hp)
    | _ => cases hp
  | leaf n op => cases hp
  | unary n op a => cases hp
  | ternary n op a b d => cases hp
  | nary n op args => cases hp

theorem selectConstant_firm (ha : base.Firm P context false A) (h : A.Selects V) {c : Constant}
    (hnone : c.rejects → .empty ∈ V.types) {at' : LocationId} {e : Expr}
    (he : base.selectConstant? at' c = some e) : e.Firm P context false V := by
  cases c with
  | integer i =>
    cases he
    apply select_firm ha h
    intro hp
    apply hnone
    simp only [Constant.rejects]
    cases hi : (Atomic.ofInt i).toIndex? with
    | some n =>
      rw [hi] at hp
      exact hp
    | none => rfl
  | boolean t =>
    cases he
    cases t with
    | false => exact emptyAt_firm (hnone rfl) at'
    | true => exact ha.mono h.within
  | string s =>
    cases he
    split
    · next hs => exact emptyAt_firm (hnone hs) at'
    · exact ha.mono h.within
  | decimal d => cases he
  | double x => cases he

theorem selectWhole_firm (ha : base.Firm P context false A) (hb : b.Firm P context false B)
    (h : A.Selects V) (hnone : B.rejects → .empty ∈ V.types) {at' : LocationId} {e : Expr}
    (he : base.selectWhole? b at' = some e) : e.Firm P context false V := by
  unfold selectWhole? at he
  split at he
  · next hc =>
    cases he
    obtain ⟨c, hbc, hc⟩ := Option.bind_eq_some_iff.1 hc
    exact selectConstant_firm ha h (fun hr => hnone (rejects_of_constant hb hbc hr)) hc
  · split at he
    · next hp =>
      cases he
      exact select_firm ha h (fun _ => hnone (rejects_of_positions b hb hp)) at'
    · split at he
      · cases he
        exact itemAt_firm ha hb h at'
      · cases he

theorem indexKey_firm (hb : b.Firm P context false B) {key value : Expr}
    (h : base.indexKey? b = some (key, value)) :
    (∃ K, key.Firm P context false K) ∧ ∃ W, value.Firm P context false W := by
  unfold indexKey? at h
  split at h
  · obtain ⟨_, X, Y, hx, hy, _⟩ := hb
    split at h
    · cases h
    · split at h
      · cases h
        exact ⟨⟨X, hx⟩, Y, hy⟩
      · split at h
        · cases h
          exact ⟨⟨Y, hy⟩, X, hx⟩
        · cases h
  · cases h

theorem filterPlainly_firm (ha : base.Firm P context false A) (hb : b.Firm P context false B)
    (h : A.Selects V) (hnone : B.rejects → .empty ∈ V.types) (n : Note) (positional index : Bool) :
    (filterPlainly n positional index base b).1.Firm P context false V := by
  unfold filterPlainly
  split
  · exact filter_firm ha hb h hnone
  · have hu := unordered_firm hb
    dsimp only
    split
    · next key value hkey =>
      have hkey : base.indexKey? b.unordered = some (key, value) := by
        split at hkey
        · exact hkey
        · cases hkey
      obtain ⟨⟨K, hk⟩, W, hw⟩ := indexKey_firm hu hkey
      refine ⟨marked_of_unnoted, A, K, W, ha, hk, hw, fun t ht _ _ _ _ => ?_⟩
      exact h.selected t ht _ t.cardinality.orEmpty_mem_selections
    · exact filter_firm ha hu h hnone

theorem selectOrFilter_firm (ha : base.Firm P context false A) (hb : b.Firm P context false B)
    (h : A.Selects V) (hnone : B.rejects → .empty ∈ V.types) (n : Note) (positional index : Bool) :
    (match base.selectWhole? b n.location with
      | some e => (e, true)
      | none => filterPlainly n positional index base b).1.Firm P context false V := by
  split
  · next he => exact selectWhole_firm ha hb h hnone he
  · exact filterPlainly_firm ha hb h hnone n positional index

/-- The truth of an expression is no constant. -/
theorem toBoolean_firm (ha : a.Firm P context false A) :
    a.toBoolean.Firm P context false { Outlook.top with rejects := False } := by
  have hsuits (t : SequenceType) : t.maySuit .any := by
    have hc : t.cardinality.overlaps .zeroOrMore := by cases t.cardinality <;> rfl
    have hi : t.item.overlaps .item := by cases t.item <;> rfl
    simp [SequenceType.maySuit, SequenceType.any, hc, hi]
  exact ⟨marked_of_unnoted, [A], ⟨ha, trivial⟩, ⟨fun t _ => hsuits t, trivial⟩, fun _ _ => trivial, by simp⟩

/-- The cheapest form of a filter is a selection from the base. -/
theorem specialize_firm (ha : base.Firm P context false A) (b : Expr) {B V : Outlook}
    (hb : b.Firm P context false B) (h : A.Selects V) (hnone : B.rejects → .empty ∈ V.types) (n : Note)
    (positional index : Bool) : (specialize n positional index base b).1.Firm P context false V := by
  match b with
  | binary m op x y =>
    cases op with
    | and =>
      have hwhole := hb
      obtain ⟨_, X, Y, hx, hy, _, _, _, _, hacc⟩ := hb
      -- One side selects first; of that selection the other side leaves a selection.
      have hinner {s : Expr × Bool} {other : Expr} {O : Outlook} (ho : other.Firm P context false O)
          (hs : s.1.Firm P context false (A.selected B.rejects)) :
          (mkBinary (.filter false) s.1 other.toBoolean n.location).Firm P context false V :=
        filter_firm hs (toBoolean_firm ho) (Outlook.selected_selects h hnone) nofun
      have hselects := A.selects_selected B.rejects
      have hempty {X : Outlook} (hX : X.rejects → B.rejects) :
          X.rejects → .empty ∈ (A.selected B.rejects).types := fun hr => .inr ⟨hX hr, rfl⟩
      have htruth {z : Expr} {Z : Outlook} (hz : z.Firm P context false Z) :=
        selectOrFilter_firm ha (toBoolean_firm hz) hselects nofun { location := n.location } true false
      unfold specialize
      dsimp only
      split
      · next he => exact selectWhole_firm ha hwhole h hnone he
      · split
        · refine hinner hy ?_
          split
          · exact htruth hx
          · exact specialize_firm ha x hx hselects (hempty fun hr => hacc (.inl hr)) _ _ _
        · split
          · refine hinner hx ?_
            split
            · exact htruth hy
            · exact specialize_firm ha y hy hselects (hempty fun hr => hacc (.inr hr)) _ _ _
          · exact filterPlainly_firm ha hwhole h hnone n positional index
    | _ => exact selectOrFilter_firm ha hb h hnone n positional index
  | leaf m op => exact selectOrFilter_firm ha hb h hnone n positional index
  | unary m op x => exact selectOrFilter_firm ha hb h hnone n positional index
  | ternary m op x y z => exact selectOrFilter_firm ha hb h hnone n positional index
  | nary m op args => exact selectOrFilter_firm ha hb h hnone n positional index

/-- A path from a variable without it: what is left may have the types that it has after one item. -/
theorem stripHead_firm {slot : Slot} {v : ItemType} (hv : .one v ∈ P.types slot) (b : Expr) {B : Outlook}
    (hb : b.Firm P context false B) (hstep : b.isStepOf slot) :
    (∀ t ∈ P.types slot, t.mayBeNodes) ∧ ((P.declared slot).isSome → slot ∈ B.heads) ∧
      ∃ S, b.stripHead.Firm P context false S ∧
      ∀ u ∈ S.types, ∀ c ∈ P.types slot, ⟨u.item, c.cardinality.product u.cardinality⟩ ∈ B.types := by
  match b with
  | binary n op head step =>
    cases op with
    | path =>
      obtain ⟨_, H, T, hh, ht, hnodes, _, _, hacc⟩ := hb
      unfold isStepOf at hstep
      simp only [Bool.and_eq_true] at hstep
      obtain ⟨⟨hhead, _⟩, _⟩ := hstep
      unfold stripHead
      split at hhead
      · obtain rfl := eq_of_beq hhead
        obtain ⟨_, htypes, hslot⟩ := hh
        exact ⟨fun t ht => hnodes t (htypes ht), fun hd => hacc.2 (hslot hd), T, ht,
          fun u hu c hc => hacc.1 c (htypes hc) u hu⟩
      · obtain ⟨hvariable, hslot, S, hs, htypes⟩ := stripHead_firm hv head hh hhead
        have hone (u) (hu : u ∈ S.types) : u ∈ H.types := by
          simpa [SequenceType.one, Cardinality.one_product] using htypes u hu _ hv
        refine ⟨hvariable, fun hd => hacc.2 (hslot hd), { Outlook.top with
          types := {t | ∃ h ∈ S.types, ∃ u ∈ T.types, t = ⟨u.item, h.cardinality.product u.cardinality⟩} },
          ?_, ?_⟩
        · split
          · cases hhead
          · exact ⟨marked_of_unnoted, S, T, hs, ht, fun u hu => hnodes u (hone u hu), fun _ _ => trivial, trivial,
              fun h hh u hu => ⟨h, hh, u, hu, rfl⟩, fun _ _ => trivial⟩
        · rintro t ⟨h, hh, u, hu, rfl⟩ c hc
          have := hacc.1 _ (htypes h hh c hc) u hu
          rwa [← Cardinality.product_assoc]
    | _ => cases hstep
  | leaf n op => cases hstep
  | unary n op a => cases hstep
  | ternary n op a b d => cases hstep
  | nary n op args => cases hstep

theorem rewriteFor_firm {slot : Slot} (ha : a.Firm P context true A) (hb : b.Firm P context false B)
    (hbinds : (BinaryOp.for slot).Binds P A B) (hacc : (BinaryOp.for slot).Accounts P A B V)
    {at' : LocationId} {e : Expr} (he : rewriteFor at' slot a b = some e) : e.Firm P context false V := by
  have htype := ha.type_mem
  obtain ⟨heach, hall, hnodes⟩ := hbinds
  obtain ⟨hpasses, hheads, htypes⟩ := hacc
  have hsource := P.subset_sources slot A.types
  unfold rewriteFor at he
  split at he
  · next hone =>
    cases he
    refine ⟨marked_of_unnoted, A, B, Firm.unmark a ha, hb, fun _ _ => trivial, fun _ _ => trivial,
      hall ⟨_, htype, hone⟩, hpasses, fun u hu => ?_⟩
    have := htypes _ (hsource htype) u hu
    rwa [show a.type.cardinality = .one from hone, Cardinality.one_product] at this
  · split at he
    · next hstep =>
      cases he
      have hv : ∃ v, .one v ∈ P.types slot := by
        cases hd : P.declared slot with
        | none => exact ⟨_, heach.inferred hd htype⟩
        | some d => exact ⟨_, (heach.declared hd).2.1⟩
      obtain ⟨v, hv⟩ := hv
      obtain ⟨hvariable, hslot, S, hs, hS⟩ := stripHead_firm hv b hb hstep
      have hsteps (t) (ht : t ∈ A.types) : t.mayBeNodes := by
        cases hd : P.declared slot with
        | none =>
          have := hvariable _ (heach.inferred hd ht)
          simp only [SequenceType.mayBeNodes, SequenceType.one, Bool.or_eq_true] at this ⊢
          exact .inr (this.resolve_left (by simp))
        | some d => exact hnodes (hslot (by rw [hd]; rfl)) t (hsource ht)
      refine ⟨marked_of_unnoted, A, S, Firm.unmark a ha, hs, hsteps, fun _ _ => trivial, trivial,
        fun t ht u hu => ?_, hheads⟩
      have := hS u hu _ hv
      rw [show (SequenceType.one v).cardinality = .one from rfl, Cardinality.one_product] at this
      exact htypes t (hsource ht) u this
    · cases he

theorem unorderedList_firm {args : List Expr} {As : List Outlook} (h : FirmList P context noted args As) :
    FirmList P context noted (args.map unordered) As := by
  induction args generalizing As with
  | nil => exact h
  | cons a args ih =>
    cases As with
    | nil => exact h.elim
    | cons A As => exact ⟨unordered_firm h.1, ih h.2⟩

/-- A rewrite of a firm node is firm. -/
theorem Rewrites.firm {index : Bool} {e e' : Expr} (h : Rewrites index e e') (he : e.Firm P context true V) :
    e'.Firm P context false V := by
  cases h with
  | sort =>
    obtain ⟨_, A, ha, _, hacc⟩ := he
    exact Firm.unmark _ (ha.mono hacc)
  | filter =>
    obtain ⟨_, A, B, ha, hb, _, _, _, hacc⟩ := he
    exact specialize_firm (Firm.unmark _ ha) _ (Firm.unmark _ hb) hacc.1 hacc.2 _ _ _
  | loop hloop =>
    obtain ⟨_, A, B, ha, hb, _, _, hbinds, hacc⟩ := he
    exact rewriteFor_firm ha (Firm.unmark _ hb) hbinds hacc hloop
  | and =>
    obtain ⟨_, A, B, ha, hb, h⟩ := Firm.unmark _ he
    exact ⟨marked_of_unnoted, A, B, unordered_firm ha, unordered_firm hb, h⟩
  | or =>
    obtain ⟨_, A, B, ha, hb, h⟩ := Firm.unmark _ he
    exact ⟨marked_of_unnoted, A, B, unordered_firm ha, unordered_firm hb, h⟩
  | quantified =>
    obtain ⟨_, A, B, ha, hb, h⟩ := Firm.unmark _ he
    exact ⟨marked_of_unnoted, A, B, unordered_firm ha, hb, h⟩
  | «if» =>
    obtain ⟨_, A, B, D, ha, hb, hd, h⟩ := Firm.unmark _ he
    exact ⟨marked_of_unnoted, A, B, D, unordered_firm ha, hb, hd, h⟩
  | call =>
    obtain ⟨_, As, hargs, h⟩ := Firm.unmark _ he
    exact ⟨marked_of_unnoted, As, unorderedList_firm hargs, h⟩

theorem Shrinks.mentions {e e' : Expr} (h : e.Shrinks e') {s : Slot} (hs : e'.Mentions s) : e.Mentions s := by
  refine hs.imp (h.needs s) fun hs => ?_
  rw [mem_boundSlots] at hs ⊢
  exact hs.trans_le (h.binders s)

/-- A checked expression that is firm, in a unit that knows all its variables. -/
structure Settled (P : Variables) (context : StaticContext) (known : Set Slot) (unit : CompileUnit) (e : Expr)
    (V : Outlook) : Prop where
  firm : e.Firm P context true V
  knows : P.Knows unit known
  mentioned : ∀ s, e.Mentions s → s ∈ known
  below : ∀ s ∈ known, s < unit.bindings.size

end Expr

namespace Rewrite
open XPath.Expr

variable {P : Variables} {context : StaticContext} {known : Set Slot} {unit : CompileUnit} {e : Expr}
  {V : Outlook}

/-- A pass that accepts an expression and settles it again. -/
def Settles (P : Variables) (context : StaticContext) (known : Set Slot) (unit : CompileUnit) (e : Expr)
    (V : Outlook) (p : Pass Expr) : Prop :=
  ∃ x unit', p.run context unit = (.ok x, unit') ∧ x.Settled P context known unit' V ∧ e.Shrinks x ∧
    unit'.bindings.size = unit.bindings.size

/-- Rewriting a settled node settles it. -/
theorem node_settles (fuel : ℕ) (h : e.Settled P context known unit V) :
    Settles P context known unit e V (node fuel e) := by
  induction fuel generalizing e unit with
  | zero => exact ⟨e, unit, rfl, h, .refl e, rfl⟩
  | succ fuel ih =>
    unfold Settles node
    simp only [Pass.run_bind_eq (Pass.run_read context unit)]
    cases hr : e.rewrite? context.optimizer.index with
    | none => exact ⟨e, unit, rfl, h, .refl e, rfl⟩
    | some e₁ =>
      have hrewrites := rewrites_of_rewrite hr
      have hmentioned (s) (hs : e₁.Mentions s) := h.mentioned s (hrewrites.shrinks.mentions hs)
      obtain ⟨x, unit₁, hrun, hfirm, hknows⟩ := Typing.check_firm e₁ (hrewrites.firm h.firm) h.knows
        (fun s hs => hmentioned s (.inl hs)) fun s hs => h.below s (hmentioned s (.inr hs))
      have hsize := (Typing.check_refines e₁ hrun).size
      have hshrinks := hrewrites.shrinks.trans (.of_resembles (Typing.check_resembles e₁ hrun))
      obtain ⟨y, unit₂, hrun₂, hsettled, hshrinks₂, hsize₂⟩ := ih ⟨hfirm, hknows.mono fun s hs => .inl hs,
        fun s hs => h.mentioned s (hshrinks.mentions hs), fun s hs => hsize ▸ h.below s hs⟩
      refine ⟨y, unit₂, ?_, hsettled, hshrinks.trans hshrinks₂, hsize₂.trans hsize⟩
      simp only [Pass.run_bind_eq hrun]
      exact hrun₂

/-- A part of a settled expression can be settled on its own. -/
theorem settled_part {a : Expr} {A : Outlook} (h : e.Settled P context known unit V)
    (ha : a.Firm P context true A) (hmentions : ∀ s, a.Mentions s → e.Mentions s) :
    a.Settled P context known unit A :=
  ⟨ha, h.knows, fun s hs => h.mentioned s (hmentions s hs), h.below⟩

mutual

/-- Rewriting accepts a settled expression. -/
theorem tree_settles (e : Expr) {V : Outlook} {unit : CompileUnit}
    (h : e.Settled P context known unit V) : Settles P context known unit e V (tree e) := by
  match e with
  | .leaf n op => exact node_settles _ h
  | .unary n op a =>
    obtain ⟨hn, A, ha, hrest⟩ := h.firm
    obtain ⟨a', unit₁, hrun, ha', hsa, hsize⟩ := tree_settles a (settled_part h ha fun s hs => hs)
    have hshrinks : (Expr.unary n op a).Shrinks (.unary n op a') := .unary hsa
    obtain ⟨x, unit₂, hrun₂, hx, hsx, hsize₂⟩ := node_settles (e := .unary n op a') _
      ⟨⟨hn, A, ha'.firm, hrest⟩, ha'.knows, fun s hs => h.mentioned s (hshrinks.mentions hs), ha'.below⟩
    exact ⟨x, unit₂, (Pass.run_bind_eq hrun).trans hrun₂, hx, hshrinks.trans hsx, hsize₂.trans hsize⟩
  | .binary n op a b =>
    obtain ⟨hn, A, B, ha, hb, hrest⟩ := h.firm
    obtain ⟨a', unit₁, hrun₁, ha', hsa, hsize₁⟩ := tree_settles a
      (settled_part h ha fun s hs => mentions_binary (.inl hs))
    obtain ⟨b', unit₂, hrun₂, hb', hsb, hsize₂⟩ := tree_settles b ⟨hb, ha'.knows,
      fun s hs => h.mentioned s (mentions_binary (.inr (.inl hs))), ha'.below⟩
    have hshrinks : (Expr.binary n op a b).Shrinks (.binary n op a' b') := .binary rfl hsa hsb
    obtain ⟨x, unit₃, hrun₃, hx, hsx, hsize₃⟩ := node_settles (e := .binary n op a' b') _
      ⟨⟨hn, A, B, ha'.firm, hb'.firm, hrest⟩, hb'.knows, fun s hs => h.mentioned s (hshrinks.mentions hs),
        hb'.below⟩
    exact ⟨x, unit₃, (Pass.run_bind_eq hrun₁).trans ((Pass.run_bind_eq hrun₂).trans hrun₃), hx,
      hshrinks.trans hsx, hsize₃.trans (hsize₂.trans hsize₁)⟩
  | .ternary n op a b d =>
    obtain ⟨hn, A, B, D, ha, hb, hd, hrest⟩ := h.firm
    obtain ⟨a', unit₁, hrun₁, ha', hsa, hsize₁⟩ := tree_settles a
      (settled_part h ha fun s hs => mentions_ternary (.inl hs))
    obtain ⟨b', unit₂, hrun₂, hb', hsb, hsize₂⟩ := tree_settles b ⟨hb, ha'.knows,
      fun s hs => h.mentioned s (mentions_ternary (.inr (.inl hs))), ha'.below⟩
    obtain ⟨d', unit₃, hrun₃, hd', hsd, hsize₃⟩ := tree_settles d ⟨hd, hb'.knows,
      fun s hs => h.mentioned s (mentions_ternary (.inr (.inr hs))), hb'.below⟩
    have hshrinks : (Expr.ternary n op a b d).Shrinks (.ternary n op a' b' d') := .ternary hsa hsb hsd
    obtain ⟨x, unit₄, hrun₄, hx, hsx, hsize₄⟩ := node_settles (e := .ternary n op a' b' d') _
      ⟨⟨hn, A, B, D, ha'.firm, hb'.firm, hd'.firm, hrest⟩, hd'.knows,
        fun s hs => h.mentioned s (hshrinks.mentions hs), hd'.below⟩
    exact ⟨x, unit₄, (Pass.run_bind_eq hrun₁).trans ((Pass.run_bind_eq hrun₂).trans
      ((Pass.run_bind_eq hrun₃).trans hrun₄)), hx, hshrinks.trans hsx,
      hsize₄.trans (hsize₃.trans (hsize₂.trans hsize₁))⟩
  | .nary n op args =>
    obtain ⟨hn, As, hargs, hrest⟩ := h.firm
    obtain ⟨args', unit₁, hrun, hargs', hknows, hsargs, hsize⟩ := treeList_settles args hargs h.knows
      (fun a ha s hs => h.mentioned s (mentions_nary ha hs)) h.below
    have hshrinks : (Expr.nary n op args).Shrinks (.nary n op args') := .nary hsargs
    obtain ⟨x, unit₂, hrun₂, hx, hsx, hsize₂⟩ := node_settles (e := .nary n op args') _
      ⟨⟨hn, As, hargs', hrest⟩, hknows, fun s hs => h.mentioned s (hshrinks.mentions hs),
        fun s hs => hsize ▸ h.below s hs⟩
    exact ⟨x, unit₂, (Pass.run_bind_eq hrun).trans hrun₂, hx, hshrinks.trans hsx, hsize₂.trans hsize⟩

theorem treeList_settles (es : List Expr) {As : List Outlook} {unit : CompileUnit}
    (h : FirmList P context true es As) (hknows : P.Knows unit known)
    (hmentioned : ∀ e ∈ es, ∀ s, e.Mentions s → s ∈ known) (hbelow : ∀ s ∈ known, s < unit.bindings.size) :
    ∃ xs unit', (treeList es).run context unit = (.ok xs, unit') ∧ FirmList P context true xs As ∧
      P.Knows unit' known ∧ List.Forall₂ Shrinks es xs ∧ unit'.bindings.size = unit.bindings.size := by
  match es, As with
  | [], [] => exact ⟨[], unit, rfl, trivial, hknows, .nil, rfl⟩
  | e :: es, A :: As =>
    obtain ⟨x, unit₁, hrun₁, hx, hsx, hsize₁⟩ := tree_settles e
      ⟨h.1, hknows, hmentioned e List.mem_cons_self, hbelow⟩
    obtain ⟨xs, unit₂, hrun₂, hxs, hknows₂, hsxs, hsize₂⟩ := treeList_settles es h.2 hx.knows
      (fun a ha => hmentioned a (List.mem_cons_of_mem e ha)) hx.below
    exact ⟨x :: xs, unit₂, (Pass.run_bind_eq hrun₁).trans (Pass.run_bind_eq hrun₂), ⟨hx.firm, hxs⟩,
      hknows₂, .cons hsx hsxs, hsize₂.trans hsize₁⟩

end

end Rewrite
end XPath
