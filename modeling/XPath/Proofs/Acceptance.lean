import XPath.Proofs.Outlook

/-! A firm expression is accepted, with types in its outlook, and the checked tree is firm as well. -/
namespace XPath

namespace Pass
variable {α β : Type} {context : StaticContext} {unit unit' : CompileUnit}

theorem run_bind_eq {p : Pass α} {k : α → Pass β} {a : α} (h : p.run context unit = (.ok a, unit')) :
    (p >>= k).run context unit = (k a).run context unit' := by
  rw [run_bind, h]

theorem run_unless {c : Bool} (h : c) (at' : LocationId) (cause : StaticCause) (code : ErrorCode) :
    (do unless c do Pass.fail at' cause code : Pass Unit).run context unit = (.ok (), unit) := by
  subst h
  rfl

end Pass

namespace Variables

/-- The unit has the declared types, and the variables that are known have types that they may have. -/
structure Knows (P : Variables) (unit : CompileUnit) (known : Set Slot) : Prop where
  declared : ∀ s, (unit.binding s).declared = P.declared s
  types : ∀ s ∈ known, unit.typeOf s ∈ P.types s

variable {P : Variables} {unit : CompileUnit} {known : Set Slot}

theorem Knows.mono {known' : Set Slot} (h : P.Knows unit known) (hk : known' ⊆ known) : P.Knows unit known' :=
  ⟨h.declared, fun s hs => h.types s (hk hs)⟩

/-- A variable becomes known when it is bound. -/
theorem Knows.setInferred (h : P.Knows unit known) {slot : Slot} (hslot : slot < unit.bindings.size)
    {t : SequenceType} (ht : t ∈ P.types slot) : P.Knows (unit.setInferred slot t) (insert slot known) where
  declared s := by
    rw [CompileUnit.binding_setInferred]
    split
    · next heq =>
      rw [heq.1]
      exact h.declared slot
    · exact h.declared s
  types s hs := by
    by_cases heq : s = slot
    · subst heq
      rwa [CompileUnit.typeOf_setInferred hslot]
    · rw [(CompileUnit.refines_setInferred unit slot t).typeOf s (by simpa using heq)]
      exact h.types s (hs.resolve_left heq)

end Variables

namespace Typing
open XPath.Expr

variable {context : StaticContext} {unit unit' : CompileUnit} {P : Variables} {known : Set Slot}
  {A B D V : Outlook} {As : List Outlook} {a b d e : Expr}

/-! Requirements that are met. -/

theorem run_requireNumeric (h : a.type.mayBeNumbers context) :
    (requireNumeric a).run context unit = (.ok (), unit) :=
  (Pass.run_bind_eq (Pass.run_read context unit)).trans (Pass.run_unless h _ _ _)

theorem run_requireAtomizable {t : AtomicType} (h : a.itemType.mayAtomizeTo t) :
    (requireAtomizable a t).run context unit = (.ok (), unit) :=
  Pass.run_unless h _ _ _

theorem run_requireCastable {t : AtomicType} (h : a.itemType.mayCastTo t) :
    (requireCastable a t).run context unit = (.ok (), unit) :=
  Pass.run_unless h _ _ _

theorem run_requireNode (h : a.type.mayBeNodes) (code : ErrorCode) :
    (requireNode a code).run context unit = (.ok (), unit) :=
  Pass.run_unless h _ _ _

theorem run_requireArgument {t : SequenceType} (h : a.type.maySuit t) (f : Builtin) :
    (requireArgument f a t).run context unit = (.ok (), unit) :=
  Pass.run_unless h _ _ _

theorem run_requireArguments {args : List Expr} {ts : List SequenceType}
    (h : Builtin.MeetArguments As ts) (hargs : FirmList P context true args As) (f : Builtin) :
    (requireArguments f args ts).run context unit = (.ok (), unit) := by
  induction args generalizing As ts with
  | nil => cases ts <;> rfl
  | cons a args ih =>
    cases As with
    | nil => exact hargs.elim
    | cons A As =>
      cases ts with
      | nil => rfl
      | cons t ts =>
        exact (Pass.run_bind_eq (run_requireArgument (h.1 _ hargs.1.type_mem) f)).trans (ih h.2 hargs.2)

/-! What is inferred at a node with firm operands. -/

theorem inferLeaf_firm {n : Note} {op : LeafOp} (h : op.Accounts P context V) (hunit : P.Knows unit known)
    (hneeds : ∀ s, (leaf n op).needs s → s ∈ known) :
    ∃ x, (inferLeaf (.leaf n op) op).run context unit = (.ok x, unit) ∧ x.Firm P context true V := by
  have hfirm (htype : op.typeIn context unit ∈ V.types) :
      ((leaf n op).withInfo (op.info context unit)).Firm P context true V := ⟨fun _ => htype, h⟩
  cases op with
  | «variable» r =>
    cases r with
    | range slot => exact ⟨_, rfl, hfirm (h.1 (hunit.types slot (hneeds slot (beq_self_eq_true slot))))⟩
    | global m => exact ⟨_, rfl, hfirm h⟩
  | literal cs => exact ⟨_, rfl, hfirm h.1⟩
  | contextItem => exact ⟨_, rfl, hfirm h⟩
  | root => exact ⟨_, rfl, hfirm h⟩
  | step axis test => exact ⟨_, rfl, hfirm h⟩

/-- A treat that cannot fail is dropped. -/
theorem run_treat {t : SequenceType} (h : a.type.overlaps t) :
    (inferUnary e (.treat t) a).run context unit =
      (.ok (if a.type.isSubtype t then a else e.withInfo ((UnaryOp.treat t).info a.info)), unit) := by
  unfold inferUnary
  dsimp only
  rw [h]
  by_cases hsub : a.type.isSubtype t
  · simp [hsub]
  · simp [hsub]
    rfl

/-- An operator other than a treat gives what its row says. -/
theorem run_inferUnary {op : UnaryOp} (h : op.Meets context a.type) (hop : ∀ t, op ≠ .treat t) :
    (inferUnary e op a).run context unit = (.ok (e.withInfo (op.info a.info)), unit) := by
  have haccepts : ∃ x, (inferUnary e op a).run context unit = (.ok x, unit) := by
    cases op with
    | negate => exact ⟨_, Pass.run_bind_eq (run_requireNumeric h)⟩
    | plus => exact ⟨_, Pass.run_bind_eq (run_requireNumeric h)⟩
    | cast target allowsEmpty =>
      have hempty : (a.cardinality = .empty && !allowsEmpty) = false := by
        rw [Bool.and_eq_false_imp, decide_eq_true_iff]
        exact fun hc => by rw [h.2 hc, Bool.not_true]
      unfold inferUnary
      dsimp only
      rw [Pass.run_bind_eq (run_requireCastable h.1), hempty]
      exact ⟨_, rfl⟩
    | treat t => exact absurd rfl (hop t)
    | _ => exact ⟨_, rfl⟩
  obtain ⟨x, hx⟩ := haccepts
  obtain ⟨_, rfl | ⟨t, rfl, _⟩⟩ := (inferUnary_returns e op a).of_run hx
  · exact hx
  · exact absurd rfl (hop t)

theorem inferUnary_firm (unit : CompileUnit) (n : Note) {op : UnaryOp} (ha : a.Firm P context true A)
    (hmeets : ∀ t ∈ A.types, op.Meets context t) (h : op.Accounts A V) :
    ∃ x, (inferUnary (.unary n op a) op a).run context unit = (.ok x, unit) ∧ x.Firm P context true V := by
  have hfirm (htype : op.typeOf a.info ∈ V.types) :
      ((unary n op a).withInfo (op.info a.info)).Firm P context true V :=
    ⟨fun _ => htype, A, ha, hmeets, h⟩
  by_cases hop : ∃ t, op = .treat t
  · obtain ⟨t, rfl⟩ := hop
    refine ⟨_, run_treat (hmeets _ ha.type_mem), ?_⟩
    have hacc := h _ ha.type_mem
    split
    · next hsub => exact ha.mono (by rwa [if_pos hsub] at hacc)
    · next hsub => exact hfirm (by rwa [if_neg hsub] at hacc)
  · rw [not_exists] at hop
    refine ⟨_, run_inferUnary (hmeets _ ha.type_mem) hop, hfirm ?_⟩
    rw [← op.typeOf_ofType a.info]
    cases op with
    | sort => exact h.types ha.type_mem
    | treat t => exact absurd rfl (hop t)
    | _ => exact h _ ha.type_mem

theorem run_inferBinary {n : Note} {op : BinaryOp} (ha : op.MeetsLeft context a.type)
    (hb : op.MeetsRight context b.type) :
    (inferBinary (.binary n op a b) op a b).run context unit =
      (.ok ((Expr.binary n (op.settled b.info) a b).withInfo (op.info a.info b.info)), unit) := by
  have haccepts : ∃ x, (inferBinary (.binary n op a b) op a b).run context unit = (.ok x, unit) := by
    cases op with
    | arithmetic op =>
      exact ⟨_, (Pass.run_bind_eq (run_requireNumeric ha)).trans (Pass.run_bind_eq (run_requireNumeric hb))⟩
    | nodeComparison op =>
      exact ⟨_, (Pass.run_bind_eq (run_requireNode ha _)).trans (Pass.run_bind_eq (run_requireNode hb _))⟩
    | set op =>
      exact ⟨_, (Pass.run_bind_eq (run_requireNode ha _)).trans (Pass.run_bind_eq (run_requireNode hb _))⟩
    | range =>
      exact ⟨_, (Pass.run_bind_eq (run_requireAtomizable ha)).trans
        (Pass.run_bind_eq (run_requireAtomizable hb))⟩
    | path => exact ⟨_, Pass.run_bind_eq (run_requireNode ha _)⟩
    | _ => exact ⟨_, rfl⟩
  obtain ⟨x, hx⟩ := haccepts
  obtain ⟨_, rfl⟩ := (inferBinary_returns n op a b).of_run hx
  exact hx

theorem typeOf_mem {op : BinaryOp} (ha : a.Firm P context true A) (hb : b.Firm P context true B)
    (h : op.Accounts P A B V) : op.typeOf a.info b.info ∈ V.types := by
  have hta := ha.type_mem
  have htb := hb.type_mem
  cases op with
  | filter p =>
    obtain ⟨c, hc, heq⟩ := BinaryOp.typeOf_filter p a.info b.info
    exact heq ▸ h.1.selected _ hta c hc
  | «for» slot => exact h.2.2 _ (P.subset_sources slot A.types hta) _ htb
  | «let» slot => exact h.types htb
  | _ => exact h.1 _ hta _ htb

theorem inferBinary_firm (unit : CompileUnit) (n : Note) {op : BinaryOp} (ha : a.Firm P context true A)
    (hb : b.Firm P context true B) (hleft : ∀ t ∈ A.types, op.MeetsLeft context t)
    (hright : ∀ t ∈ B.types, op.MeetsRight context t) (hbinds : op.Binds P A B)
    (h : op.Accounts P A B V) :
    ∃ x, (inferBinary (.binary n op a b) op a b).run context unit = (.ok x, unit) ∧
      x.Firm P context true V := by
  refine ⟨_, run_inferBinary (hleft _ ha.type_mem) (hright _ hb.type_mem),
    fun _ => typeOf_mem ha hb h, A, B, ha, hb, ?_⟩
  cases op <;> exact ⟨hleft, hright, hbinds, h⟩

theorem inferTernary_firm (unit : CompileUnit) (n : Note) {op : TernaryOp} (ha : a.Firm P context true A)
    (hb : b.Firm P context true B) (hd : d.Firm P context true D) (h : op.Accounts A B D V) :
    ∃ x, (inferTernary (.ternary n op a b d) op a b d).run context unit = (.ok x, unit) ∧
      x.Firm P context true V := by
  have haccepts : ∃ x, (inferTernary (.ternary n op a b d) op a b d).run context unit = (.ok x, unit) := by
    cases op <;> exact ⟨_, rfl⟩
  obtain ⟨x, hx⟩ := haccepts
  obtain ⟨_, rfl⟩ := (inferTernary_returns (.ternary n op a b d) op a b d).of_run hx
  refine ⟨_, hx, fun _ => ?_, A, B, D, ha, hb, hd, h⟩
  have hrow := h _ ha.type_mem _ hb.type_mem _ hd.type_mem
  rwa [op.typeOf_ofType a.info b.info d.info] at hrow

theorem types_mem {args : List Expr} (h : FirmList P context true args As) :
    List.Forall₂ (fun t (A : Outlook) => t ∈ A.types) (args.map Expr.type) As := by
  induction args generalizing As with
  | nil =>
    cases As with
    | nil => exact .nil
    | cons A As => exact h.elim
  | cons a args ih =>
    cases As with
    | nil => exact h.elim
    | cons A As => exact .cons h.1.type_mem (ih h.2)

theorem inferNary_firm (unit : CompileUnit) (n : Note) {op : NaryOp} {args : List Expr} (hargs : FirmList P context true args As)
    (hmeet : op.Meet As) (h : op.Accounts As V) :
    ∃ x, (inferNary (.nary n op args) op args).run context unit = (.ok x, unit) ∧
      x.Firm P context true V := by
  have htypes := types_mem hargs
  have haccepts : ∃ x, (inferNary (.nary n op args) op args).run context unit = (.ok x, unit) := by
    cases op with
    | block => exact ⟨_, rfl⟩
    | call f =>
      cases f with
      | unresolved m => exact ⟨_, rfl⟩
      | builtin f =>
        have hlength : As.length = args.length := by rw [← htypes.length_eq, List.length_map]
        change Builtin.MeetArguments As (f.signature As.length).params at hmeet
        rw [hlength] at hmeet
        exact ⟨_, Pass.run_bind_eq (run_requireArguments hmeet hargs f)⟩
  obtain ⟨x, hx⟩ := haccepts
  obtain ⟨_, rfl⟩ := (inferNary_returns (.nary n op args) op args).of_run hx
  refine ⟨_, hx, fun _ => ?_, As, hargs, hmeet, h⟩
  have hrow := h.1 _ htypes
  rw [List.map_map] at hrow
  change op.typeOf (args.map Expr.info) ∈ V.types
  rw [← op.typeOf_ofType, List.map_map]
  exact hrow

/-! What binding makes of a source. -/

/-- A source that is checked when it is evaluated. -/
def treated (required : SequenceType) (a : Expr) : Expr :=
  .unary { location := a.location, info := (UnaryOp.treat required).info a.info } (.treat required) a

/-- The type that a source is required to be of, where its variable is declared to be of a type. -/
def required (perItem : Bool) (declared : SequenceType) : SequenceType :=
  if perItem then ⟨declared.item, .zeroOrMore⟩ else declared

theorem run_bind_none {slot : Slot} {perItem : Bool} (hd : (unit.binding slot).declared = none) :
    (bind slot a perItem).run context unit =
      (.ok a, unit.setInferred slot (if perItem then .one a.itemType else a.type)) := by
  unfold bind
  rw [Pass.run_bind_eq (Pass.run_get context unit)]
  simp only [hd]
  rfl

theorem run_bind_some {slot : Slot} {perItem : Bool} {declared : SequenceType}
    (hd : (unit.binding slot).declared = some declared) (h : a.type.overlaps (required perItem declared)) :
    (bind slot a perItem).run context unit =
      (.ok (if a.type.isSubtype (required perItem declared) then a
        else treated (required perItem declared) a), unit.setInferred slot declared) := by
  have hset : (setInferred slot declared).run context unit = (.ok (), unit.setInferred slot declared) := rfl
  unfold bind
  rw [Pass.run_bind_eq (Pass.run_get context unit)]
  simp only [hd]
  unfold required at h
  rw [if_pos h, Pass.run_bind_eq hset]
  unfold required
  by_cases hsub : a.type.isSubtype (if perItem then ⟨declared.item, .zeroOrMore⟩ else declared)
  · rw [if_pos hsub, if_pos hsub]
    rfl
  · rw [if_neg hsub, if_neg hsub]
    refine (run_treat h).trans ?_
    rw [if_neg hsub]
    rfl

theorem treated_firm {t : SequenceType} (ha : a.Firm P context true A) (h : ∀ u ∈ A.types, u.overlaps t) :
    (treated t a).Firm P context true (A.insert t) := by
  refine ⟨fun _ => .inl rfl, A, ha, h, fun u hu => ?_⟩
  split
  · exact A.within_insert t
  · exact .inl rfl

/-- A bound source is as it was, or it is treated as what its variable is declared to be. -/
theorem bind_firm {slot : Slot} (perItem : Bool) (ha : a.Firm P context true A) (hunit : P.Knows unit known)
    (hslot : slot < unit.bindings.size)
    (hnone : P.declared slot = none → (if perItem then .one a.itemType else a.type) ∈ P.types slot)
    (hsome : ∀ d, P.declared slot = some d →
      d ∈ P.types slot ∧ ∀ t ∈ A.types, t.overlaps (required perItem d)) :
    ∃ x unit', (bind slot a perItem).run context unit = (.ok x, unit') ∧
      P.Knows unit' (insert slot known) ∧ (x.Firm P context true A ∨
        ∃ d, P.declared slot = some d ∧ (∃ t ∈ A.types, ¬ t.isSubtype (required perItem d)) ∧
          x.Firm P context true (A.insert (required perItem d))) := by
  cases hd : P.declared slot with
  | none =>
    refine ⟨_, _, run_bind_none ((hunit.declared slot).trans hd), ?_, .inl ha⟩
    exact hunit.setInferred hslot (hnone hd)
  | some d =>
    obtain ⟨hmem, hoverlaps⟩ := hsome d hd
    refine ⟨_, _, run_bind_some ((hunit.declared slot).trans hd) (hoverlaps _ ha.type_mem),
      hunit.setInferred hslot hmem, ?_⟩
    split
    · exact .inl ha
    · next hsub => exact .inr ⟨d, rfl, ⟨_, ha.type_mem, hsub⟩, treated_firm ha hoverlaps⟩

end Typing

namespace Variables
variable {P : Variables} {slot : Slot} {ts : Set SequenceType} {d : SequenceType}

theorem TakesAll.declared (h : P.TakesAll slot ts) (hd : P.declared slot = some d) :
    d ∈ P.types slot ∧ ∀ t ∈ ts, t.overlaps d := by
  unfold TakesAll at h
  rwa [hd] at h

theorem TakesAll.inferred (h : P.TakesAll slot ts) (hd : P.declared slot = none) : ts ⊆ P.types slot := by
  unfold TakesAll at h
  rwa [hd] at h

theorem TakesEach.declared (h : P.TakesEach slot ts) (hd : P.declared slot = some d) :
    d ∈ P.types slot ∧ .one d.item ∈ P.types slot ∧ ∀ t ∈ ts, t.overlaps ⟨d.item, .zeroOrMore⟩ := by
  unfold TakesEach at h
  rwa [hd] at h

theorem TakesEach.inferred (h : P.TakesEach slot ts) (hd : P.declared slot = none) {t : SequenceType}
    (ht : t ∈ ts) : .one t.item ∈ P.types slot := by
  unfold TakesEach at h
  rw [hd] at h
  exact h t ht

/-- The source may also be treated as what its variable is declared to be. -/
theorem TakesAll.insert (h : P.TakesAll slot ts) (hd : P.declared slot = some d) {t : SequenceType}
    (ht : t.overlaps d) : P.TakesAll slot (insert t ts) := by
  obtain ⟨hmem, hts⟩ := h.declared hd
  unfold TakesAll
  rw [hd]
  exact ⟨hmem, Set.forall_mem_insert.2 ⟨ht, hts⟩⟩

theorem TakesEach.insert (h : P.TakesEach slot ts) (hd : P.declared slot = some d) :
    P.TakesEach slot (insert ⟨d.item, .zeroOrMore⟩ ts) := by
  obtain ⟨hmem, hone, hts⟩ := h.declared hd
  unfold TakesEach
  rw [hd]
  exact ⟨hmem, hone, Set.forall_mem_insert.2 ⟨SequenceType.overlaps_refl _, hts⟩⟩

theorem sources_insert (hd : P.declared slot = some d)
    (h : ∃ t ∈ ts, ¬ t.isSubtype ⟨d.item, .zeroOrMore⟩) :
    P.sources slot (insert ⟨d.item, .zeroOrMore⟩ ts) ⊆ P.sources slot ts := by
  unfold sources
  rw [hd]
  rintro s ((rfl | hs) | ⟨rfl, _⟩)
  · exact .inr ⟨rfl, h⟩
  · exact .inl hs
  · exact .inr ⟨rfl, h⟩

end Variables

namespace Typing
open XPath.Expr

variable {context : StaticContext} {unit unit' : CompileUnit} {P : Variables} {known : Set Slot}
  {A B D V : Outlook} {As : List Outlook} {a b d e : Expr}

/-- What a binder asks of its source it also asks of the source as it is bound. -/
theorem bindFor_firm {op : BinaryOp} (ha : a.Firm P context true A) (hunit : P.Knows unit known)
    (hslot : ∀ s, op.slot? = some s → s < unit.bindings.size)
    (hleft : ∀ t ∈ A.types, op.MeetsLeft context t) (hbinds : op.Binds P A B) (h : op.Accounts P A B V) :
    ∃ x unit', (bindFor op a).run context unit = (.ok x, unit') ∧
      P.Knows unit' {s | s ∈ known ∨ op.slot? = some s} ∧ ∃ A', x.Firm P context true A' ∧
        (∀ t ∈ A'.types, op.MeetsLeft context t) ∧ op.Binds P A' B ∧ op.Accounts P A' B V := by
  have hknown {slot : Slot} {unit' : CompileUnit} (hop : op.slot? = some slot)
      (hk : P.Knows unit' (insert slot known)) : P.Knows unit' {s | s ∈ known ∨ op.slot? = some s} := by
    refine hk.mono fun s hs => ?_
    obtain hs | hs := hs
    · exact .inr hs
    · exact .inl (Option.some.inj (hs.symm.trans hop))
  cases op with
  | «let» slot =>
    obtain ⟨x, unit', hx, hk, hfirm⟩ := bind_firm false ha hunit
      (hslot slot rfl) (fun hd => hbinds.inferred hd ha.type_mem) fun d hd => hbinds.declared hd
    refine ⟨x, unit', hx, hknown rfl hk, ?_⟩
    obtain hfirm | ⟨d, hd, _, hfirm⟩ := hfirm
    · exact ⟨A, hfirm, hleft, hbinds, h⟩
    · exact ⟨_, hfirm, fun _ _ => trivial, hbinds.insert hd d.overlaps_refl, h⟩
  | «for» slot =>
    obtain ⟨heach, hall, hnodes⟩ := hbinds
    obtain ⟨x, unit', hx, hk, hfirm⟩ := bind_firm true ha hunit
      (hslot slot rfl) (fun hd => heach.inferred hd ha.type_mem)
      fun d hd => ⟨(heach.declared hd).1, (heach.declared hd).2.2⟩
    refine ⟨x, unit', hx, hknown rfl hk, ?_⟩
    obtain hfirm | ⟨d, hd, hsub, hfirm⟩ := hfirm
    · exact ⟨A, hfirm, hleft, ⟨heach, hall, hnodes⟩, h⟩
    · have hsources := Variables.sources_insert hd hsub
      refine ⟨_, hfirm, fun _ _ => trivial, ⟨heach.insert hd, ?_, fun hs t ht => hnodes hs t (hsources ht)⟩,
        h.1, h.2.1, fun t ht => h.2.2 t (hsources ht)⟩
      rintro ⟨t, rfl | ht, hone⟩
      · cases hone
      · exact (hall ⟨t, ht, hone⟩).insert hd d.many_overlaps
  | quantified q slot =>
    obtain ⟨x, unit', hx, hk, hfirm⟩ := bind_firm true ha hunit
      (hslot slot rfl) (fun hd => hbinds.inferred hd ha.type_mem)
      fun d hd => ⟨(hbinds.declared hd).1, (hbinds.declared hd).2.2⟩
    refine ⟨x, unit', hx, hknown rfl hk, ?_⟩
    obtain hfirm | ⟨d, hd, _, hfirm⟩ := hfirm
    · exact ⟨A, hfirm, hleft, hbinds, h⟩
    · refine ⟨_, hfirm, fun _ _ => trivial, hbinds.insert hd, ?_⟩
      exact ⟨fun t _ u hu => h.1 _ ha.type_mem u hu, trivial⟩
  | _ =>
    refine ⟨a, unit, rfl, hunit.mono fun s hs => hs.resolve_right nofun, A, ha, hleft, trivial, h⟩

mutual

/-- A firm expression is accepted, and stays firm. -/
theorem check_firm (e : Expr) {V : Outlook} {unit : CompileUnit} {known : Set Slot} {noted : Bool}
    (h : e.Firm P context noted V) (hunit : P.Knows unit known) (hneeds : ∀ s, e.needs s → s ∈ known)
    (hslots : ∀ s ∈ e.boundSlots, s < unit.bindings.size) :
    ∃ x unit', (check e).run context unit = (.ok x, unit') ∧ x.Firm P context true V ∧
      P.Knows unit' {s | s ∈ known ∨ s ∈ e.boundSlots} := by
  match e with
  | .leaf n op =>
    obtain ⟨x, hx, hfirm⟩ := inferLeaf_firm h.2 hunit hneeds
    exact ⟨x, unit, hx, hfirm, hunit.mono fun s hs => hs.resolve_right (by cases op <;> nofun)⟩
  | .unary n op a =>
    obtain ⟨_, A, ha, hmeets, hacc⟩ := h
    obtain ⟨a', unit', hrun, ha', hk⟩ := check_firm a ha hunit hneeds hslots
    obtain ⟨x, hx, hfirm⟩ := inferUnary_firm unit' n ha' hmeets hacc
    exact ⟨x, unit', (Pass.run_bind_eq hrun).trans hx, hfirm, hk⟩
  | .binary n op a b =>
    obtain ⟨_, A, B, ha, hb, hleft, hright, hbinds, hacc⟩ := h
    simp only [boundSlots_binary, List.mem_append] at hslots ⊢
    obtain ⟨a', unit₁, hrun₁, ha', hk₁⟩ := check_firm a ha hunit
      (fun s hs => hneeds s (by simp [needs, hs])) fun s hs => hslots s (.inr (.inl hs))
    have hsize₁ := (check_refines a hrun₁).size
    obtain ⟨s, unit₂, hrun₂, hk₂, A', hs, hleft', hbinds', hacc'⟩ := bindFor_firm ha' hk₁
      (fun t ht => hsize₁ ▸ hslots t (.inl (by simp [ht]))) hleft hbinds hacc
    have hsize₂ := (bindFor_refines hrun₂).size.trans hsize₁
    obtain ⟨b', unit₃, hrun₃, hb', hk₃⟩ := check_firm b hb hk₂ (fun t ht => by
      by_cases hslot : op.slot? = some t
      · exact .inr hslot
      · exact .inl (.inl (hneeds t (by simp [needs, ht, hslot]))))
      fun t ht => hsize₂ ▸ hslots t (.inr (.inr ht))
    obtain ⟨x, hx, hfirm⟩ := inferBinary_firm unit₃ n hs hb' hleft' hright hbinds' hacc'
    refine ⟨x, unit₃, ?_, hfirm, hk₃.mono fun t ht => ?_⟩
    · have hrun : (check (.binary n op a b)).run context unit =
          (do infer (.binary n op (← bindFor op a') (← check b))).run context unit₁ := by
        cases op <;> exact Pass.run_bind_eq hrun₁
      rw [hrun, Pass.run_bind_eq hrun₂, Pass.run_bind_eq hrun₃]
      exact hx
    · simp only [Set.mem_ofPred_eq, Option.mem_toList] at ht ⊢
      tauto
  | .ternary n op a b d =>
    obtain ⟨_, A, B, D, ha, hb, hd, hacc⟩ := h
    simp only [boundSlots_ternary, List.mem_append] at hslots ⊢
    obtain ⟨a', unit₁, hrun₁, ha', hk₁⟩ := check_firm a ha hunit
      (fun s hs => hneeds s (by simp [needs, hs])) fun s hs => hslots s (.inl hs)
    have hsize₁ := (check_refines a hrun₁).size
    obtain ⟨b', unit₂, hrun₂, hb', hk₂⟩ := check_firm b hb hk₁
      (fun s hs => .inl (hneeds s (by simp [needs, hs]))) fun s hs => hsize₁ ▸ hslots s (.inr (.inl hs))
    have hsize₂ := (check_refines b hrun₂).size.trans hsize₁
    obtain ⟨d', unit₃, hrun₃, hd', hk₃⟩ := check_firm d hd hk₂
      (fun s hs => .inl (.inl (hneeds s (by simp [needs, hs])))) fun s hs => hsize₂ ▸ hslots s (.inr (.inr hs))
    obtain ⟨x, hx, hfirm⟩ := inferTernary_firm unit₃ n ha' hb' hd' hacc
    refine ⟨x, unit₃, ?_, hfirm, hk₃.mono fun t ht => ?_⟩
    · exact (Pass.run_bind_eq hrun₁).trans
        ((Pass.run_bind_eq hrun₂).trans ((Pass.run_bind_eq hrun₃).trans hx))
    · simp only [Set.mem_ofPred_eq] at ht ⊢
      tauto
  | .nary n op args =>
    obtain ⟨_, As, hargs, hmeet, hacc⟩ := h
    rw [boundSlots_nary] at hslots ⊢
    obtain ⟨args', unit', hrun, hargs', hk⟩ := checkList_firm args hargs hunit
      (fun e he s hs => hneeds s (by rw [needs, needsList_iff]; exact ⟨e, he, hs⟩)) hslots
    obtain ⟨x, hx, hfirm⟩ := inferNary_firm unit' n hargs' hmeet hacc
    exact ⟨x, unit', (Pass.run_bind_eq hrun).trans hx, hfirm, hk⟩

theorem checkList_firm (es : List Expr) {As : List Outlook} {unit : CompileUnit} {known : Set Slot}
    {noted : Bool} (h : FirmList P context noted es As) (hunit : P.Knows unit known)
    (hneeds : ∀ e ∈ es, ∀ s, e.needs s → s ∈ known)
    (hslots : ∀ s ∈ es.flatMap boundSlots, s < unit.bindings.size) :
    ∃ xs unit', (checkList es).run context unit = (.ok xs, unit') ∧ FirmList P context true xs As ∧
      P.Knows unit' {s | s ∈ known ∨ s ∈ es.flatMap boundSlots} := by
  match es, As with
  | [], [] => exact ⟨[], unit, rfl, trivial, hunit.mono fun s hs => hs.resolve_right nofun⟩
  | e :: es, A :: As =>
    simp only [List.flatMap_cons, List.mem_append] at hslots ⊢
    obtain ⟨x, unit₁, hrun₁, hx, hk₁⟩ := check_firm e h.1 hunit (hneeds e List.mem_cons_self)
      fun s hs => hslots s (.inl hs)
    have hsize₁ := (check_refines e hrun₁).size
    obtain ⟨xs, unit₂, hrun₂, hxs, hk₂⟩ := checkList_firm es h.2 hk₁
      (fun a ha s hs => .inl (hneeds a (List.mem_cons_of_mem e ha) s hs))
      fun s hs => hsize₁ ▸ hslots s (.inr hs)
    refine ⟨x :: xs, unit₂, ?_, ⟨hx, hxs⟩, hk₂.mono fun t ht => ?_⟩
    · exact (Pass.run_bind_eq hrun₁).trans (Pass.run_bind_eq hrun₂)
    · simp only [Set.mem_ofPred_eq] at ht ⊢
      tauto

end

end Typing
end XPath
