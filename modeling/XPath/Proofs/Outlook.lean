import XPath.Optimize.Selection
import XPath.Proofs.Inference

/-!
Which types an expression may come to have while it is rewritten. An outlook of an expression has room for
the type that is inferred now and for the type of everything that the rewrites make of it. An expression is
firm if each static requirement in it is met by all types in the outlook of the operand: then it is
accepted, with a type in its outlook.
-/
namespace XPath

namespace Cardinality

/-- What selecting from a sequence may make of its cardinality, as far as it is not known to select
nothing. -/
def selections : Cardinality → List Cardinality
  | empty => [empty]
  | one => [one, zeroOrOne]
  | zeroOrOne => [zeroOrOne]
  | zeroOrMore => [zeroOrMore, zeroOrOne]
  | oneOrMore => [oneOrMore, one, zeroOrMore, zeroOrOne]

theorem mem_selections (c : Cardinality) : c ∈ c.selections := by cases c <;> decide

theorem orEmpty_mem_selections (c : Cardinality) : c.orEmpty ∈ c.selections := by cases c <;> decide

theorem pickOne_mem_selections (c : Cardinality) : c.pickOne ∈ c.selections := by cases c <;> decide

theorem selections_trans {c d : Cardinality} (h : d ∈ c.selections) : d.selections ⊆ c.selections := by
  cases c <;> cases d <;> revert h <;> decide

theorem selections_empty {c : Cardinality} (h : c ∈ empty.selections) : c = empty := by simpa [selections] using h

theorem one_product (c : Cardinality) : one.product c = c := by cases c <;> rfl

theorem product_assoc (a b c : Cardinality) : (a.product b).product c = a.product (b.product c) := by
  cases a <;> cases b <;> cases c <;> rfl

theorem overlaps_refl (c : Cardinality) : c.overlaps c := by cases c <;> rfl

end Cardinality

/-- What may become of an expression. -/
structure Outlook where
  types : Set SequenceType
  /-- It may turn out to be a predicate that selects nothing. -/
  rejects : Prop
  /-- It may turn out to be a call of `position()`. -/
  position : Prop
  /-- The variables of declared types that it may turn out to be a path from. -/
  heads : Set Slot

namespace Outlook
variable {A B C : Outlook}

/-- What may become of one expression may become of another, their types apart. -/
structure Passes (A B : Outlook) : Prop where
  rejects : A.rejects → B.rejects
  position : A.position → B.position
  heads : A.heads ⊆ B.heads

structure Within (A B : Outlook) : Prop extends Passes A B where
  types : A.types ⊆ B.types

theorem Passes.refl (A : Outlook) : A.Passes A := ⟨id, id, subset_rfl⟩

theorem Passes.trans (h : A.Passes B) (k : B.Passes C) : A.Passes C :=
  ⟨k.rejects ∘ h.rejects, k.position ∘ h.position, h.heads.trans k.heads⟩

theorem Within.refl (A : Outlook) : A.Within A := ⟨.refl A, subset_rfl⟩

theorem Within.trans (h : A.Within B) (k : B.Within C) : A.Within C :=
  ⟨h.toPasses.trans k.toPasses, h.types.trans k.types⟩

/-- The same with other types. -/
def withTypes (A : Outlook) (types : Set SequenceType) : Outlook := { A with types }

@[simp] theorem withTypes_types (A : Outlook) (types : Set SequenceType) :
    (A.withTypes types).types = types := rfl

@[simp] theorem withTypes_heads (A : Outlook) (types : Set SequenceType) :
    (A.withTypes types).heads = A.heads := rfl

/-- The same with one more type. -/
def insert (t : SequenceType) (A : Outlook) : Outlook := A.withTypes (Insert.insert t A.types)

@[simp] theorem insert_types (t : SequenceType) (A : Outlook) :
    (A.insert t).types = Insert.insert t A.types := rfl

@[simp] theorem insert_heads (t : SequenceType) (A : Outlook) : (A.insert t).heads = A.heads := rfl

theorem within_insert (t : SequenceType) (A : Outlook) : A.Within (A.insert t) where
  toPasses := ⟨id, id, subset_rfl⟩
  types := Set.subset_insert t A.types

theorem withTypes_passes (A : Outlook) (types : Set SequenceType) : (A.withTypes types).Passes A :=
  ⟨id, id, subset_rfl⟩

theorem passes_withTypes (A : Outlook) (types : Set SequenceType) : A.Passes (A.withTypes types) :=
  ⟨id, id, subset_rfl⟩

/-- What may become of a sequence may become of a selection from it. -/
structure Selects (A B : Outlook) : Prop extends Passes A B where
  selected : ∀ t ∈ A.types, ∀ c ∈ t.cardinality.selections, ⟨t.item, c⟩ ∈ B.types

theorem Selects.mono (h : A.Selects B) (hw : B.Within C) : A.Selects C where
  toPasses := h.toPasses.trans hw.toPasses
  selected t ht c hc := hw.types (h.selected t ht c hc)

theorem Selects.within (h : A.Selects B) : A.Within B where
  toPasses := h.toPasses
  types t ht := h.selected t ht _ t.cardinality.mem_selections

end Outlook

theorem NameAndType.overlaps_refl (t : NameAndType) : t.overlaps t := by
  simp [overlaps, sameName]

theorem KindTest.overlaps_refl (k : KindTest) : k.overlaps k := by
  cases k with
  | document e => cases e <;> simp [overlaps, NameAndType.overlaps_refl]
  | processingInstruction target => simp [overlaps]
  | _ => simp [overlaps, NameAndType.overlaps_refl]

theorem ItemType.overlaps_refl (t : ItemType) : t.overlaps t := by
  cases t <;> simp [overlaps, KindTest.overlaps_refl, AtomicType.derivesFrom_refl]

namespace SequenceType

theorem overlaps_refl (t : SequenceType) : t.overlaps t := by
  simp [overlaps, t.cardinality.overlaps_refl, t.item.overlaps_refl]

theorem many_overlaps (t : SequenceType) : overlaps ⟨t.item, .zeroOrMore⟩ t := by
  have hc : Cardinality.zeroOrMore.overlaps t.cardinality := by cases t.cardinality <;> rfl
  simp [overlaps, hc, t.item.overlaps_refl]

/-- Whether numbers may be made of the items. -/
def mayBeNumbers (context : StaticContext) (t : SequenceType) : Prop :=
  context.backwardsCompatible || t.item.mayAtomizeToNumeric

def mayBeNodes (t : SequenceType) : Prop := t.cardinality = .empty || t.item.overlaps .anyNode

/-- Whether the items may become what a parameter asks for. -/
def maySuit (t param : SequenceType) : Prop :=
  let fits := match param.item with
    | .atomic a => t.item.mayAtomizeTo a
    | p => t.item.overlaps p
  t.cardinality.overlaps param.cardinality && (t.cardinality = .empty || fits)

end SequenceType

namespace StaticInfo

/-- Nothing is known but the type. -/
def ofType (t : SequenceType) : StaticInfo := { cardinality := t.cardinality, item := t.item }

end StaticInfo

/-- The type of what such an operator gives depends on the types of the operands. -/
theorem UnaryOp.typeOf_ofType (op : UnaryOp) (a : StaticInfo) :
    op.typeOf (.ofType a.type) = op.typeOf a := by
  cases op <;> rfl

theorem TernaryOp.typeOf_ofType (op : TernaryOp) (a b d : StaticInfo) :
    op.typeOf (.ofType a.type) (.ofType b.type) (.ofType d.type) = op.typeOf a b d := by
  cases op with
  | «if» =>
    unfold typeOf StaticInfo.commonType
    simp only [List.filter_cons, List.filter_nil, StaticInfo.ofType, StaticInfo.type]
    split <;> split <;> rfl
  | indexedFilter => rfl

theorem NaryOp.typeOf_ofType (op : NaryOp) (as : List StaticInfo) :
    op.typeOf (as.map fun a => .ofType a.type) = op.typeOf as := by
  cases op with
  | block =>
    unfold typeOf StaticInfo.commonType
    rw [List.filter_map, List.map_map, List.foldl_map]
    rfl
  | call f =>
    cases f with
    | unresolved n => rfl
    | builtin f =>
      unfold typeOf
      rw [List.length_map]
      cases as <;> rfl

theorem BinaryOp.typeOf_filter (p : Bool) (a b : StaticInfo) :
    ∃ c ∈ a.cardinality.selections, (BinaryOp.filter p).typeOf a b = ⟨a.item, c⟩ := by
  unfold typeOf
  dsimp only
  split
  · next h => exact ⟨_, by simp [h, Cardinality.selections], rfl⟩
  · next h =>
    split
    · refine ⟨_, ?_, rfl⟩
      cases hc : a.cardinality <;> simp_all [Cardinality.selections]
    · exact ⟨_, a.cardinality.orEmpty_mem_selections, rfl⟩

/-- Whether a predicate that is this constant selects nothing. -/
def Constant.rejects : Constant → Bool
  | integer i => match (Atomic.ofInt i).toIndex? with
    | some n => (Positions.ofInts n (some n)).isEmpty
    | none => true
  | boolean b => !b
  | string s => s.isEmpty
  | decimal _ | double _ => false

/-- What is known of the variables: their declared types, and the types that they may come to have. -/
structure Variables where
  declared : Slot → Option SequenceType
  types : Slot → Set SequenceType

namespace Variables

/-- A variable can be bound to a sequence of any of the types. -/
def TakesAll (P : Variables) (slot : Slot) (ts : Set SequenceType) : Prop :=
  match P.declared slot with
  | none => ts ⊆ P.types slot
  | some declared => declared ∈ P.types slot ∧ ∀ t ∈ ts, t.overlaps declared

/-- A variable can be bound to each item of a sequence of any of the types. A loop over its declared type
may turn out to go over single items. -/
def TakesEach (P : Variables) (slot : Slot) (ts : Set SequenceType) : Prop :=
  match P.declared slot with
  | none => ∀ t ∈ ts, .one t.item ∈ P.types slot
  | some declared => declared ∈ P.types slot ∧ .one declared.item ∈ P.types slot ∧
      ∀ t ∈ ts, t.overlaps ⟨declared.item, .zeroOrMore⟩

/-- The types of what a loop goes over, whether it is treated as items of the declared type or not. -/
def sources (P : Variables) (slot : Slot) (ts : Set SequenceType) : Set SequenceType :=
  match P.declared slot with
  | none => ts
  | some declared =>
    let required := ⟨declared.item, .zeroOrMore⟩
    {s | s ∈ ts ∨ s = required ∧ ∃ t ∈ ts, ¬ t.isSubtype required}

theorem subset_sources (P : Variables) (slot : Slot) (ts : Set SequenceType) : ts ⊆ P.sources slot ts := by
  intro t ht
  unfold sources
  split
  · exact ht
  · exact .inl ht

end Variables

/-! What an operator requires of the type of an operand. -/

def UnaryOp.Meets (context : StaticContext) (t : SequenceType) : UnaryOp → Prop
  | .negate | .plus => t.mayBeNumbers context
  | .cast target allowsEmpty => t.item.mayCastTo target ∧ (t.cardinality = .empty → allowsEmpty)
  | .treat required => t.overlaps required
  | _ => True

def BinaryOp.MeetsLeft (context : StaticContext) (t : SequenceType) : BinaryOp → Prop
  | .arithmetic _ => t.mayBeNumbers context
  | .nodeComparison _ | .set _ | .path => t.mayBeNodes
  | .range => t.item.mayAtomizeTo .integer
  | _ => True

def BinaryOp.MeetsRight (context : StaticContext) (t : SequenceType) : BinaryOp → Prop
  | .arithmetic _ => t.mayBeNumbers context
  | .nodeComparison _ | .set _ => t.mayBeNodes
  | .range => t.item.mayAtomizeTo .integer
  | _ => True

/-- The arguments of a call suit its parameters. -/
def Builtin.MeetArguments : List Outlook → List SequenceType → Prop
  | A :: As, t :: ts => (∀ u ∈ A.types, u.maySuit t) ∧ MeetArguments As ts
  | _, _ => True

def NaryOp.Meet (As : List Outlook) : NaryOp → Prop
  | .call (.builtin f) => Builtin.MeetArguments As (f.signature As.length).params
  | _ => True

/-! What may become of an operation, given what may become of its operands. -/

def LeafOp.Accounts (P : Variables) (context : StaticContext) (V : Outlook) : LeafOp → Prop
  | .variable (.range slot) => P.types slot ⊆ V.types ∧ ((P.declared slot).isSome → slot ∈ V.heads)
  | .literal cs => (LeafOp.literal cs).typeWith (fun _ => .any) context.globalType ∈ V.types ∧
      ∀ c, cs = [c] → c.rejects → V.rejects
  | op => op.typeWith (fun _ => .any) context.globalType ∈ V.types

/-- A treat that cannot fail is dropped. -/
def UnaryOp.Accounts (A V : Outlook) : UnaryOp → Prop
  | .sort => A.Within V
  | .treat required => ∀ t ∈ A.types, if t.isSubtype required then A.Within V else required ∈ V.types
  | op => ∀ t ∈ A.types, op.typeOf (.ofType t) ∈ V.types

/-- A predicate may turn out to hold of everything or of nothing, and a loop may turn out to be a let or a
path. -/
def BinaryOp.Accounts (P : Variables) (A B V : Outlook) : BinaryOp → Prop
  | .filter _ => A.Selects V ∧ (B.rejects → .empty ∈ V.types)
  | .for slot => B.Passes V ∧ A.heads ⊆ V.heads ∧
      ∀ t ∈ P.sources slot A.types, ∀ u ∈ B.types, ⟨u.item, t.cardinality.product u.cardinality⟩ ∈ V.types
  | .let _ => B.Within V
  | op => (∀ t ∈ A.types, ∀ u ∈ B.types, op.typeOf (.ofType t) (.ofType u) ∈ V.types) ∧ match op with
      | .path => A.heads ⊆ V.heads
      | .and => A.rejects ∨ B.rejects → V.rejects
      | .generalComparison _ | .valueComparison _ => A.position ∨ B.position → V.rejects
      | _ => True

/-- What the variable of a binder requires of the types of its source. A loop over a single item may turn
out to be a let, and one over steps from its variable a path; then the items must be nodes themselves, of
whatever type the variable is declared to be. -/
def BinaryOp.Binds (P : Variables) (A B : Outlook) : BinaryOp → Prop
  | .let slot => P.TakesAll slot A.types
  | .quantified _ slot => P.TakesEach slot A.types
  | .for slot => P.TakesEach slot A.types ∧
      ((∃ t ∈ A.types, t.cardinality = .one) → P.TakesAll slot A.types) ∧
      (slot ∈ B.heads → ∀ t ∈ P.sources slot A.types, t.mayBeNodes)
  | _ => True

def TernaryOp.Accounts (A B D V : Outlook) (op : TernaryOp) : Prop :=
  ∀ t ∈ A.types, ∀ u ∈ B.types, ∀ v ∈ D.types,
    op.typeOf (.ofType t) (.ofType u) (.ofType v) ∈ V.types

def NaryOp.Accounts (As : List Outlook) (V : Outlook) (op : NaryOp) : Prop :=
  (∀ ts, List.Forall₂ (fun t (A : Outlook) => t ∈ A.types) ts As → op.typeOf (ts.map .ofType) ∈ V.types) ∧
    (op = .call (.builtin .position) → V.position)

namespace Expr

/-- A note fits an outlook if the type that is recorded does. Where nothing is recorded yet, any note
fits. -/
def Marked (noted : Bool) (n : Note) (V : Outlook) : Prop := noted → n.info.type ∈ V.types

mutual

/-- Every requirement in the expression is met, whatever becomes of the operands. -/
def Firm (P : Variables) (context : StaticContext) (noted : Bool) : Expr → Outlook → Prop
  | leaf n op, V => Marked noted n V ∧ op.Accounts P context V
  | unary n op a, V => Marked noted n V ∧ ∃ A, a.Firm P context noted A ∧
      (∀ t ∈ A.types, op.Meets context t) ∧ op.Accounts A V
  | binary n op a b, V => Marked noted n V ∧ ∃ A B, a.Firm P context noted A ∧ b.Firm P context noted B ∧
      (∀ t ∈ A.types, op.MeetsLeft context t) ∧ (∀ t ∈ B.types, op.MeetsRight context t) ∧
      op.Binds P A B ∧ op.Accounts P A B V
  | ternary n op a b d, V => Marked noted n V ∧ ∃ A B D, a.Firm P context noted A ∧
      b.Firm P context noted B ∧ d.Firm P context noted D ∧ op.Accounts A B D V
  | nary n op args, V => Marked noted n V ∧ ∃ As, FirmList P context noted args As ∧ op.Meet As ∧
      op.Accounts As V

def FirmList (P : Variables) (context : StaticContext) (noted : Bool) : List Expr → List Outlook → Prop
  | [], [] => True
  | e :: es, A :: As => e.Firm P context noted A ∧ FirmList P context noted es As
  | _, _ => False

end

end Expr

/-! An outlook may be widened. -/

section Widen
variable {P : Variables} {context : StaticContext} {A B D V W : Outlook} {As : List Outlook}

theorem LeafOp.Accounts.mono {op : LeafOp} (h : op.Accounts P context V) (hw : V.Within W) :
    op.Accounts P context W := by
  cases op with
  | «variable» r =>
    cases r with
    | range slot => exact ⟨h.1.trans hw.types, fun hd => hw.heads (h.2 hd)⟩
    | global n => exact hw.types h
  | literal cs => exact ⟨hw.types h.1, fun c hc hr => hw.rejects (h.2 c hc hr)⟩
  | contextItem => exact hw.types h
  | root => exact hw.types h
  | step axis test => exact hw.types h

theorem UnaryOp.Accounts.mono {op : UnaryOp} (h : op.Accounts A V) (hw : V.Within W) : op.Accounts A W := by
  cases op with
  | sort => exact h.trans hw
  | treat required =>
    intro t ht
    have hv := h t ht
    split at hv
    · next hs => exact if_pos hs ▸ hv.trans hw
    · next hs => exact if_neg hs ▸ hw.types hv
  | _ => exact fun t ht => hw.types (h t ht)

theorem BinaryOp.Accounts.mono {op : BinaryOp} (h : op.Accounts P A B V) (hw : V.Within W) :
    op.Accounts P A B W := by
  cases op with
  | filter p => exact ⟨h.1.mono hw, fun hr => hw.types (h.2 hr)⟩
  | «for» slot =>
    exact ⟨h.1.trans hw.toPasses, h.2.1.trans hw.heads, fun t ht u hu => hw.types (h.2.2 t ht u hu)⟩
  | «let» slot => exact Outlook.Within.trans h hw
  | path => exact ⟨fun t ht u hu => hw.types (h.1 t ht u hu), h.2.trans hw.heads⟩
  | and => exact ⟨fun t ht u hu => hw.types (h.1 t ht u hu), hw.rejects ∘ h.2⟩
  | generalComparison op => exact ⟨fun t ht u hu => hw.types (h.1 t ht u hu), hw.rejects ∘ h.2⟩
  | valueComparison op => exact ⟨fun t ht u hu => hw.types (h.1 t ht u hu), hw.rejects ∘ h.2⟩
  | _ => exact ⟨fun t ht u hu => hw.types (h.1 t ht u hu), trivial⟩

theorem TernaryOp.Accounts.mono {op : TernaryOp} (h : op.Accounts A B D V) (hw : V.Within W) :
    op.Accounts A B D W :=
  fun t ht u hu v hv => hw.types (h t ht u hu v hv)

theorem NaryOp.Accounts.mono {op : NaryOp} (h : op.Accounts As V) (hw : V.Within W) : op.Accounts As W :=
  ⟨fun ts hts => hw.types (h.1 ts hts), hw.position ∘ h.2⟩

end Widen

namespace Expr
variable {P : Variables} {context : StaticContext} {noted : Bool} {V W : Outlook}

/-- A node of which no record is asked for fits any outlook. -/
theorem marked_of_unnoted {n : Note} : Marked false n V :=
  (absurd · Bool.false_ne_true)

theorem Marked.mono {n : Note} (h : Marked noted n V) (hw : V.Within W) : Marked noted n W :=
  fun hn => hw.types (h hn)

theorem Firm.mono {e : Expr} (h : e.Firm P context noted V) (hw : V.Within W) : e.Firm P context noted W := by
  cases e with
  | leaf n op => exact ⟨h.1.mono hw, h.2.mono hw⟩
  | unary n op a =>
    obtain ⟨hn, A, ha, hm, hacc⟩ := h
    exact ⟨hn.mono hw, A, ha, hm, hacc.mono hw⟩
  | binary n op a b =>
    obtain ⟨hn, A, B, ha, hb, hl, hr, hs, hacc⟩ := h
    exact ⟨hn.mono hw, A, B, ha, hb, hl, hr, hs, hacc.mono hw⟩
  | ternary n op a b d =>
    obtain ⟨hn, A, B, D, ha, hb, hd, hacc⟩ := h
    exact ⟨hn.mono hw, A, B, D, ha, hb, hd, hacc.mono hw⟩
  | nary n op args =>
    obtain ⟨hn, As, hargs, hm, hacc⟩ := h
    exact ⟨hn.mono hw, As, hargs, hm, hacc.mono hw⟩

/-- What is recorded of an expression is in its outlook. -/
theorem Firm.type_mem {e : Expr} (h : e.Firm P context true V) : e.type ∈ V.types := by
  cases e <;> exact h.1 rfl

mutual

/-- What is recorded may be forgotten. -/
theorem Firm.unmark (e : Expr) {V : Outlook} (h : e.Firm P context noted V) :
    e.Firm P context false V := by
  match e with
  | leaf n op => exact ⟨nofun, h.2⟩
  | unary n op a =>
    obtain ⟨_, A, ha, h⟩ := h
    exact ⟨nofun, A, Firm.unmark a ha, h⟩
  | binary n op a b =>
    obtain ⟨_, A, B, ha, hb, h⟩ := h
    exact ⟨nofun, A, B, Firm.unmark a ha, Firm.unmark b hb, h⟩
  | ternary n op a b d =>
    obtain ⟨_, A, B, D, ha, hb, hd, h⟩ := h
    exact ⟨nofun, A, B, D, Firm.unmark a ha, Firm.unmark b hb, Firm.unmark d hd, h⟩
  | nary n op args =>
    obtain ⟨_, As, hargs, h⟩ := h
    exact ⟨nofun, As, FirmList.unmark args hargs, h⟩

theorem FirmList.unmark (es : List Expr) {As : List Outlook} (h : FirmList P context noted es As) :
    FirmList P context false es As := by
  match es, As with
  | [], [] => trivial
  | e :: es, A :: As => exact ⟨Firm.unmark e h.1, FirmList.unmark es h.2⟩

end

end Expr
end XPath
