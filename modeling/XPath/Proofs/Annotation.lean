import XPath.Typing
import XPath.Expr.Analysis
import Mathlib

/-! What checking records at a node, as a function of what is recorded at its operands. A checked tree
carries exactly these rows; its focus reads and its constructors can be read off the tree as well. -/
namespace XPath

namespace Pass

variable {α β : Type} {context : StaticContext} {unit unit' : CompileUnit}

@[simp] theorem run_pure (a : α) (context : StaticContext) (unit : CompileUnit) :
    (pure a : Pass α).run context unit = (.ok a, unit) := rfl

@[simp] theorem run_read (context : StaticContext) (unit : CompileUnit) :
    (read : Pass StaticContext).run context unit = (.ok context, unit) := rfl

@[simp] theorem run_get (context : StaticContext) (unit : CompileUnit) :
    (get : Pass CompileUnit).run context unit = (.ok unit, unit) := rfl

theorem run_bind (p : Pass α) (k : α → Pass β) (context : StaticContext) (unit : CompileUnit) :
    (p >>= k).run context unit = match p.run context unit with
      | (.ok a, unit') => (k a).run context unit'
      | (.error e, unit') => (.error e, unit') := by
  change (ExceptT.bind (p context) fun a => k a context).run unit = _
  simp only [ExceptT.bind, ExceptT.mk, ExceptT.run, StateT.run, Pass.run, ReaderT.run, bind, StateT.bind]
  cases p context unit with
  | mk r unit' => cases r <;> rfl

theorem run_bind_ok {p : Pass α} {k : α → Pass β} {b : β}
    (h : (p >>= k).run context unit = (.ok b, unit')) :
    ∃ a unit₁, p.run context unit = (.ok a, unit₁) ∧ (k a).run context unit₁ = (.ok b, unit') := by
  rw [run_bind] at h
  cases hp : p.run context unit with
  | mk r unit₁ =>
    cases r with
    | error e => simp [hp] at h
    | ok a => exact ⟨a, unit₁, rfl, by simpa [hp] using h⟩

theorem run_fail (at' : LocationId) (cause : StaticCause) (code : ErrorCode) (a : α) :
    (Pass.fail at' cause code : Pass α).run context unit ≠ (.ok a, unit') := by
  intro h
  obtain ⟨u, unit₁, _, h⟩ := run_bind_ok h
  cases h

/-- Where the pass succeeds it leaves the unit alone and gives a value of that kind, and it would give the same value
with any other unit. -/
structure Returns (p : Pass α) (P : α → Prop) : Prop where
  of_run : ∀ {context unit a unit'}, p.run context unit = (.ok a, unit') → unit' = unit ∧ P a
  again : ∀ {context unit a unit'}, p.run context unit = (.ok a, unit') → ∀ v, p.run context v = (.ok a, v)

theorem returns_pure {P : α → Prop} {a : α} (h : P a) : Returns (pure a) P where
  of_run hb := by
    cases hb
    exact ⟨rfl, h⟩
  again hb _ := by
    cases hb
    rfl

theorem returns_read : Returns (read : Pass StaticContext) fun _ => True where
  of_run hb := by
    cases hb
    exact ⟨rfl, trivial⟩
  again hb _ := by
    cases hb
    rfl

theorem returns_fail {P : α → Prop} (at' : LocationId) (cause : StaticCause) (code : ErrorCode) :
    Returns (Pass.fail at' cause code : Pass α) P :=
  ⟨fun h => absurd h (run_fail at' cause code _), fun h => absurd h (run_fail at' cause code _)⟩

theorem Returns.bind {p : Pass α} {k : α → Pass β} {P : α → Prop} {Q : β → Prop} (hp : Returns p P)
    (hk : ∀ a, P a → Returns (k a) Q) : Returns (p >>= k) Q where
  of_run h := by
    obtain ⟨a, unit₁, h₁, h₂⟩ := run_bind_ok h
    obtain ⟨rfl, ha⟩ := hp.of_run h₁
    exact (hk a ha).of_run h₂
  again h v := by
    obtain ⟨a, unit₁, h₁, h₂⟩ := run_bind_ok h
    rw [run_bind, hp.again h₁ v]
    exact (hk a (hp.of_run h₁).2).again h₂ v

/-- A requirement that is met gives nothing and changes nothing. -/
abbrev IsCheck (p : Pass Unit) : Prop := Returns p fun _ => True

theorem isCheck_unless (c : Bool) (at' : LocationId) (cause : StaticCause) (code : ErrorCode) :
    IsCheck (do unless c do Pass.fail at' cause code) := by
  cases c with
  | true => exact returns_pure trivial
  | false => exact returns_fail at' cause code

/-- A pass that first requires something. -/
theorem IsCheck.then {p : Pass Unit} {k : Unit → Pass α} {P : α → Prop} (hp : IsCheck p)
    (hk : Returns (k ()) P) : Returns (p >>= k) P :=
  hp.bind fun _ _ => hk

end Pass

namespace Typing
open XPath.Expr

theorem isCheck_requireNumeric (e : Expr) : Pass.IsCheck (requireNumeric e) :=
  Pass.returns_read.bind fun _ _ => Pass.isCheck_unless _ _ _ _

theorem isCheck_requireAtomizable (e : Expr) (t : AtomicType) :
    Pass.IsCheck (requireAtomizable e t) := Pass.isCheck_unless _ _ _ _

theorem isCheck_requireCastable (e : Expr) (t : AtomicType) :
    Pass.IsCheck (requireCastable e t) := Pass.isCheck_unless _ _ _ _

theorem isCheck_requireNode (e : Expr) (code : ErrorCode) :
    Pass.IsCheck (requireNode e code) := Pass.isCheck_unless _ _ _ _

theorem isCheck_requireArgument (f : Builtin) (e : Expr) (t : SequenceType) :
    Pass.IsCheck (requireArgument f e t) := Pass.isCheck_unless _ _ _ _

theorem isCheck_requireArguments (f : Builtin) (es : List Expr) (ts : List SequenceType) :
    Pass.IsCheck (requireArguments f es ts) := by
  induction es generalizing ts with
  | nil => exact Pass.returns_pure trivial
  | cons e es ih =>
    cases ts with
    | nil => exact Pass.returns_pure trivial
    | cons t ts => exact (isCheck_requireArgument f e t).then (ih ts)

end Typing

/-! What evaluating an expression may touch: the parts of the dynamic context that it reads, and whether
it makes nodes. -/

structure Effects where
  reads : Dependencies := {}
  creates : Bool := false
  deriving DecidableEq, Repr

namespace Effects

def union (a b : Effects) : Effects := ⟨a.reads ∪ b.reads, a.creates || b.creates⟩

instance : Union Effects := ⟨union⟩

/-- What is left outside an operator that sets the focus itself. -/
def shielded (a : Effects) : Effects := { a with reads := a.reads.withoutFocus }

/-- Neither reads the focus nor makes nodes. -/
def isMovable (a : Effects) : Bool := !a.reads.focus && !a.creates

/-- Everything on the left is also on the right. -/
structure Within (a b : Effects) : Prop where
  item : a.reads.item → b.reads.item
  position : a.reads.position → b.reads.position
  last : a.reads.last → b.reads.last
  group : a.reads.group → b.reads.group
  matched : a.reads.matched → b.reads.matched
  creates : a.creates → b.creates

theorem ext {a b : Effects} (hr : a.reads = b.reads) (hc : a.creates = b.creates) : a = b := by
  cases a
  cases b
  cases hr
  cases hc
  rfl

@[simp] theorem union_reads (a b : Effects) : (a ∪ b).reads = a.reads ∪ b.reads := rfl
@[simp] theorem union_creates (a b : Effects) : (a ∪ b).creates = (a.creates || b.creates) := rfl
@[simp] theorem shielded_reads (a : Effects) : a.shielded.reads = a.reads.withoutFocus := rfl
@[simp] theorem shielded_creates (a : Effects) : a.shielded.creates = a.creates := rfl

theorem union_assoc (a b c : Effects) : a ∪ b ∪ c = a ∪ (b ∪ c) := by
  change union (union a b) c = union a (union b c)
  simp only [union, Union.union, Dependencies.union, Bool.or_assoc]

@[simp] theorem union_empty (a : Effects) : a ∪ {} = a := by
  change union a {} = a
  simp only [union, Union.union, Dependencies.union, Bool.or_false]

@[simp] theorem empty_union (a : Effects) : ({} : Effects) ∪ a = a := by
  change union {} a = a
  simp only [union, Union.union, Dependencies.union, Bool.false_or]

namespace Within

theorem refl (a : Effects) : a.Within a := ⟨id, id, id, id, id, id⟩

theorem trans {a b c : Effects} (h : a.Within b) (k : b.Within c) : a.Within c :=
  ⟨k.item ∘ h.item, k.position ∘ h.position, k.last ∘ h.last, k.group ∘ h.group, k.matched ∘ h.matched,
    k.creates ∘ h.creates⟩

theorem empty (a : Effects) : Effects.Within {} a := ⟨nofun, nofun, nofun, nofun, nofun, nofun⟩

theorem left (a b : Effects) : a.Within (a ∪ b) := by
  constructor <;> intro h <;> simp [Union.union, union, Dependencies.union, h]

theorem right (a b : Effects) : b.Within (a ∪ b) := by
  constructor <;> intro h <;> simp [Union.union, union, Dependencies.union, h]

theorem union {a b c : Effects} (h : a.Within c) (k : b.Within c) : (a ∪ b).Within c := by
  constructor <;> intro hab <;>
    simp only [Union.union, Effects.union, Dependencies.union, Bool.or_eq_true] at hab
  · exact hab.elim h.item k.item
  · exact hab.elim h.position k.position
  · exact hab.elim h.last k.last
  · exact hab.elim h.group k.group
  · exact hab.elim h.matched k.matched
  · exact hab.elim h.creates k.creates

theorem union_mono {a b c d : Effects} (h : a.Within c) (k : b.Within d) : (a ∪ b).Within (c ∪ d) :=
  (h.trans (left c d)).union (k.trans (right c d))

theorem isMovable {a b : Effects} (h : a.Within b) (hb : b.isMovable) : a.isMovable := by
  simp only [Effects.isMovable, Dependencies.focus, Bool.and_eq_true, Bool.not_eq_true',
    Bool.or_eq_false_iff] at hb ⊢
  have not {x y : Bool} (hxy : x → y) (hy : y = false) : x = false := by
    cases x with
    | false => rfl
    | true => exact absurd (hxy rfl) (by simp [hy])
  exact ⟨⟨⟨not h.item hb.1.1.1, not h.position hb.1.1.2⟩, not h.last hb.1.2⟩, not h.creates hb.2⟩

end Within

end Effects

/-! The rows of the inference: what is recorded at a node, given what is recorded at its operands. -/

namespace StaticInfo

def effects (i : StaticInfo) : Effects := ⟨i.dependencies, i.createsNodes⟩

def ofEffects (c : Cardinality) (t : ItemType) (d : Effects) : StaticInfo := ⟨c, t, d.reads, d.creates⟩

@[simp] theorem ofEffects_effects (c : Cardinality) (t : ItemType) (d : Effects) :
    (ofEffects c t d).effects = d := rfl

/-- The cardinality of an operation that is empty if an operand is. -/
def bothCardinality (a b : StaticInfo) : Cardinality :=
  if a.cardinality = .one ∧ b.cardinality = .one then .one else .zeroOrOne

/-- The common type of the operands that are not known to be empty. -/
def commonType (is : List StaticInfo) : ItemType :=
  .commonOf ((is.filter (·.cardinality != .empty)).map (·.item))

end StaticInfo

def LeafOp.effects : LeafOp → Effects
  | .contextItem | .root | .step .. => { reads := { item := true } }
  | .literal _ | .variable _ => {}

def LeafOp.typeWith (ranges : Slot → SequenceType) (globals : QName → SequenceType) :
    LeafOp → SequenceType
  | .literal cs =>
    ⟨ItemType.commonOf (cs.map fun c => .atomic c.type), Cardinality.ofLength cs.length⟩
  | .variable (.range slot) => ranges slot
  | .variable (.global n) => globals n
  | .contextItem => .one .item
  | .root => .one (.node (.document none))
  | .step axis test => ⟨Expr.stepType axis test, Expr.stepCardinality axis test⟩

/-- The type of a variable that is declared outside; without a declared type it is not known. -/
def StaticContext.globalType (context : StaticContext) (n : QName) : SequenceType :=
  ((context.variableType n).join).getD .any

def CompileUnit.typeOf (unit : CompileUnit) (slot : Slot) : SequenceType := (unit.binding slot).inferred

def LeafOp.typeIn (context : StaticContext) (unit : CompileUnit) (op : LeafOp) : SequenceType :=
  op.typeWith unit.typeOf context.globalType

def LeafOp.info (context : StaticContext) (unit : CompileUnit) (op : LeafOp) : StaticInfo :=
  .ofEffects (op.typeIn context unit).cardinality (op.typeIn context unit).item op.effects

def UnaryOp.effects (op : UnaryOp) (a : Effects) : Effects :=
  match op with
  | .element _ | .text => { a with creates := true }
  | _ => a

def UnaryOp.typeOf (op : UnaryOp) (a : StaticInfo) : SequenceType :=
  match op with
  | .negate | .plus => ⟨.atomic a.item.numericType, a.cardinality.pickOne⟩
  | .sort | .reverse => a.type
  | .first | .last => ⟨a.item, a.cardinality.pickOne⟩
  | .slice .. => ⟨a.item, a.cardinality.orEmpty⟩
  | .castable .. | .instanceOf _ => .one Typing.booleanType
  | .cast target allowsEmpty =>
    .atomic target (if a.cardinality.allowsEmpty && allowsEmpty then .zeroOrOne else .one)
  | .treat t => t
  | .element n => .one (.node (.element { name := some n }))
  | .text => ⟨.node .text, .zeroOrOne⟩

def UnaryOp.info (op : UnaryOp) (a : StaticInfo) : StaticInfo :=
  .ofEffects (op.typeOf a).cardinality (op.typeOf a).item (op.effects a.effects)

/-- Operators that evaluate both operands in the frame that they are evaluated in themselves. -/
def BinaryOp.isPlain : BinaryOp → Bool
  | .path | .filter _ | .for _ | .let _ | .quantified .. => false
  | _ => true

/-- The slot that an operator binds in its right operand. -/
def BinaryOp.slot? : BinaryOp → Option Slot
  | .for slot | .let slot | .quantified _ slot => some slot
  | _ => none

/-- A path and a filter give every item of the left side to the right side as its focus. -/
def BinaryOp.effects (op : BinaryOp) (a b : Effects) : Effects :=
  match op with
  | .path | .filter _ => a ∪ b.shielded
  | _ => a ∪ b

def BinaryOp.typeOf (op : BinaryOp) (a b : StaticInfo) : SequenceType :=
  match op with
  | .arithmetic op =>
    ⟨.arithmeticType op a.item b.item,
      if a.cardinality = .empty ∨ b.cardinality = .empty then .empty else a.bothCardinality b⟩
  | .valueComparison _ => ⟨Typing.booleanType, a.bothCardinality b⟩
  | .generalComparison _ | .and | .or | .quantified .. => .one Typing.booleanType
  | .nodeComparison _ => ⟨Typing.booleanType, .zeroOrOne⟩
  | .range => .atomic .integer .zeroOrMore
  | .set _ => ⟨.nodeCommon a.item b.item, .zeroOrMore⟩
  | .for _ | .path => ⟨b.item, a.cardinality.product b.cardinality⟩
  | .let _ => b.type
  | .filter _ =>
    ⟨a.item,
      if a.cardinality = .empty then .empty
      else if (b.item.mayBeNumeric || b.dependencies.position || b.dependencies.last) &&
        b.item.isNumeric then .zeroOrOne
      else a.cardinality.orEmpty⟩
  | .itemAt => ⟨a.item, a.cardinality.pickOne.orEmpty⟩

def BinaryOp.info (op : BinaryOp) (a b : StaticInfo) : StaticInfo :=
  .ofEffects (op.typeOf a b).cardinality (op.typeOf a b).item (op.effects a.effects b.effects)

/-- Whether a filter might select by position becomes known with its predicate. -/
def BinaryOp.settled (op : BinaryOp) (b : StaticInfo) : BinaryOp :=
  match op with
  | .filter _ => .filter (b.item.mayBeNumeric || b.dependencies.position || b.dependencies.last)
  | op => op

def TernaryOp.typeOf (op : TernaryOp) (a b c : StaticInfo) : SequenceType :=
  match op with
  | .if => ⟨StaticInfo.commonType [b, c], b.cardinality.join c.cardinality⟩
  | .indexedFilter => ⟨a.item, a.cardinality.orEmpty⟩

def TernaryOp.info (op : TernaryOp) (a b c : StaticInfo) : StaticInfo :=
  .ofEffects (op.typeOf a b c).cardinality (op.typeOf a b c).item (a.effects ∪ b.effects ∪ c.effects)

/-- What a call reads beyond what its arguments read. -/
def NaryOp.ownReads (op : NaryOp) (n : Nat) : Dependencies :=
  match op with
  | .call (.builtin f) => (f.signature n).dependencies
  | _ => {}

def NaryOp.effects (op : NaryOp) (as : List Effects) : Effects :=
  as.foldr (· ∪ ·) {} ∪ { reads := op.ownReads as.length }

def NaryOp.typeOf (op : NaryOp) (as : List StaticInfo) : SequenceType :=
  match op with
  | .block => ⟨StaticInfo.commonType as, as.foldl (fun c a => c.concat a.cardinality) .empty⟩
  | .call (.unresolved _) => .any
  | .call (.builtin f) =>
    let s := f.signature as.length
    ⟨match as with
      | a :: _ => if s.preservesItemType then a.item else s.result.item
      | [] => s.result.item, s.result.cardinality⟩

def NaryOp.info (op : NaryOp) (as : List StaticInfo) : StaticInfo :=
  .ofEffects (op.typeOf as).cardinality (op.typeOf as).item (op.effects (as.map (·.effects)))

theorem Effects.foldl_union (as : List Effects) (d : Effects) :
    as.foldl (· ∪ ·) d = d ∪ as.foldr (· ∪ ·) {} := by
  induction as generalizing d with
  | nil => simp
  | cons a as ih => rw [List.foldl_cons, ih, List.foldr_cons, union_assoc]

theorem Effects.foldl_reads (as : List Effects) (d : Effects) :
    (as.foldl (· ∪ ·) d).reads = as.foldl (fun r a => r ∪ a.reads) d.reads := by
  induction as generalizing d with
  | nil => rfl
  | cons a as ih => exact ih (d ∪ a)

theorem Effects.foldl_creates (as : List Effects) (d : Effects) :
    (as.foldl (· ∪ ·) d).creates = (d.creates || as.any (·.creates)) := by
  induction as generalizing d with
  | nil => simp
  | cons a as ih => rw [List.foldl_cons, ih, List.any_cons, union_creates, Bool.or_assoc]

namespace Typing
open XPath.Expr

theorem inferLeaf_ok {e x : Expr} {op : LeafOp} {context : StaticContext} {unit unit' : CompileUnit}
    (h : (inferLeaf e op).run context unit = (.ok x, unit')) :
    unit' = unit ∧ x = e.withInfo (op.info context unit) := by
  cases op with
  | «variable» r =>
    cases r with
    | range slot => cases h; exact ⟨rfl, rfl⟩
    | global n => cases h; exact ⟨rfl, rfl⟩
  | _ => cases h; exact ⟨rfl, rfl⟩

/-- The row of the operator, except that a treat that cannot fail is dropped. -/
theorem inferUnary_returns (e : Expr) (op : UnaryOp) (a : Expr) :
    Pass.Returns (inferUnary e op a) fun x => x = e.withInfo (op.info a.info) ∨
      ∃ t, op = .treat t ∧ a.type.isSubtype t ∧ x = a := by
  cases op with
  | negate => exact (isCheck_requireNumeric a).then (Pass.returns_pure (.inl rfl))
  | plus => exact (isCheck_requireNumeric a).then (Pass.returns_pure (.inl rfl))
  | cast target allowsEmpty =>
    apply (isCheck_requireCastable a target).then
    dsimp only
    split
    · exact (Pass.returns_fail (P := fun _ => False) _ _ _).bind nofun
    · exact Pass.returns_pure (.inl rfl)
  | treat t =>
    unfold inferUnary
    dsimp only
    split
    · split
      · exact Pass.returns_pure (.inr ⟨t, rfl, by assumption, rfl⟩)
      · exact Pass.returns_pure (.inl rfl)
    · exact (Pass.returns_fail (P := fun _ => False) _ _ _).bind nofun
  | _ => exact Pass.returns_pure (.inl rfl)

theorem inferBinary_returns (n : Note) (op : BinaryOp) (a b : Expr) :
    Pass.Returns (inferBinary (.binary n op a b) op a b) fun x =>
      x = (Expr.binary n (op.settled b.info) a b).withInfo (op.info a.info b.info) := by
  cases op with
  | arithmetic op =>
    exact (isCheck_requireNumeric a).then ((isCheck_requireNumeric b).then (Pass.returns_pure rfl))
  | nodeComparison op =>
    exact (isCheck_requireNode a _).then ((isCheck_requireNode b _).then (Pass.returns_pure rfl))
  | range =>
    exact (isCheck_requireAtomizable a _).then
      ((isCheck_requireAtomizable b _).then (Pass.returns_pure rfl))
  | set op =>
    exact (isCheck_requireNode a _).then ((isCheck_requireNode b _).then (Pass.returns_pure rfl))
  | path => exact (isCheck_requireNode a _).then (Pass.returns_pure rfl)
  | _ => exact Pass.returns_pure rfl

theorem commonType_eq (es : List Expr) : commonType es = StaticInfo.commonType (es.map (·.info)) := by
  unfold commonType StaticInfo.commonType
  rw [List.filter_map, List.map_map]
  rfl

theorem inferTernary_returns (e : Expr) (op : TernaryOp) (a b c : Expr) :
    Pass.Returns (inferTernary e op a b c) fun x => x = e.withInfo (op.info a.info b.info c.info) := by
  cases op with
  | «if» =>
    apply Pass.returns_pure
    rw [commonType_eq]
    rfl
  | indexedFilter => exact Pass.returns_pure rfl

theorem effects_foldl (as : List Expr) :
    (⟨as.foldl (fun d a => d ∪ a.info.dependencies) {}, as.any (·.info.createsNodes)⟩ : Effects) =
      (as.map (·.info.effects)).foldr (· ∪ ·) {} := by
  have h := Effects.foldl_union (as.map (·.info.effects)) {}
  rw [Effects.empty_union] at h
  rw [← h]
  apply Effects.ext
  · rw [Effects.foldl_reads, List.foldl_map]
    rfl
  · rw [Effects.foldl_creates, Bool.false_or, List.any_map]
    rfl

theorem inferNary_returns (e : Expr) (op : NaryOp) (as : List Expr) :
    Pass.Returns (inferNary e op as) fun x => x = e.withInfo (op.info (as.map (·.info))) := by
  have hr := congrArg Effects.reads (effects_foldl as)
  have hc := congrArg Effects.creates (effects_foldl as)
  have hm : (as.map (·.info)).map (·.effects) = as.map (·.info.effects) := List.map_map
  have hn : (as.map (·.info.effects)).length = as.length := List.length_map ..
  dsimp only at hr hc
  cases op with
  | block =>
    apply Pass.returns_pure
    unfold NaryOp.info NaryOp.effects NaryOp.typeOf NaryOp.ownReads StaticInfo.ofEffects annotate
    rw [hr, hc, hm, commonType_eq, List.foldl_map, Effects.union_empty]
  | call f =>
    cases f with
    | unresolved n =>
      apply Pass.returns_pure
      unfold NaryOp.info NaryOp.effects NaryOp.typeOf NaryOp.ownReads StaticInfo.ofEffects annotate
      rw [hr, hc, hm, Effects.union_empty]
      rfl
    | builtin f =>
      apply (isCheck_requireArguments f as _).then
      apply Pass.returns_pure
      unfold NaryOp.info NaryOp.effects NaryOp.typeOf NaryOp.ownReads StaticInfo.ofEffects annotate
      rw [hr, hc, hm, hn, List.length_map, Effects.union_reads, Effects.union_creates, Bool.or_false]
      cases as with
      | nil => rfl
      | cons a as => rfl

end Typing

namespace Expr

mutual

/-- What evaluating the expression may touch, the values of lets at some slots apart. -/
def effectsPast (skip : Slot → Bool) : Expr → Effects
  | leaf _ op => op.effects
  | unary _ op a => op.effects (a.effectsPast skip)
  | binary _ (.let slot) a b =>
    if skip slot then b.effectsPast skip else a.effectsPast skip ∪ b.effectsPast skip
  | binary _ op a b => op.effects (a.effectsPast skip) (b.effectsPast skip)
  | ternary _ _ a b c => a.effectsPast skip ∪ b.effectsPast skip ∪ c.effectsPast skip
  | nary _ op args => op.effects (effectsPastList skip args)

def effectsPastList (skip : Slot → Bool) : List Expr → List Effects
  | [] => []
  | e :: es => e.effectsPast skip :: effectsPastList skip es

end

/-- What evaluating the expression may touch, read off the tree. -/
abbrev effects (e : Expr) : Effects := e.effectsPast fun _ => false

abbrev effectsList (es : List Expr) : List Effects := effectsPastList (fun _ => false) es

theorem effectsPastList_eq (skip : Slot → Bool) (es : List Expr) :
    effectsPastList skip es = es.map (effectsPast skip) := by
  induction es with
  | nil => rfl
  | cons e es ih => rw [effectsPastList, ih, List.map_cons]

theorem effects_unary (n : Note) (op : UnaryOp) (a : Expr) :
    (unary n op a).effects = op.effects a.effects := rfl

theorem effects_ternary (n : Note) (op : TernaryOp) (a b c : Expr) :
    (ternary n op a b c).effects = a.effects ∪ b.effects ∪ c.effects := rfl

theorem effects_nary (n : Note) (op : NaryOp) (args : List Expr) :
    (nary n op args).effects = op.effects (args.map effects) := by
  rw [effects, effectsPast, effectsPastList_eq]

theorem effects_binary (n : Note) (op : BinaryOp) (a b : Expr) :
    (binary n op a b).effects = op.effects a.effects b.effects := by
  cases op with
  | «let» slot => rfl
  | _ => rfl

/-- Something holds of the expression and of everything in it. -/
def All (P : Expr → Prop) (e : Expr) : Prop := ∀ x ∈ e.preorder, P x

theorem mem_preorderList {x : Expr} {es : List Expr} :
    x ∈ preorderList es ↔ ∃ e ∈ es, x ∈ e.preorder := by
  induction es with
  | nil => simp [preorderList]
  | cons e es ih => simp [preorderList, ih]

theorem mem_preorder_self (e : Expr) : e ∈ e.preorder := by
  cases e <;> simp [preorder]

section All
variable {P : Expr → Prop} {n : Note} {a b c : Expr}

theorem All.self {e : Expr} (h : All P e) : P e := h e e.mem_preorder_self

@[simp] theorem all_leaf {op : LeafOp} : All P (leaf n op) ↔ P (leaf n op) := by
  simp [All, preorder]

@[simp] theorem all_unary {op : UnaryOp} : All P (unary n op a) ↔ P (unary n op a) ∧ All P a := by
  simp [All, preorder]

@[simp] theorem all_binary {op : BinaryOp} :
    All P (binary n op a b) ↔ P (binary n op a b) ∧ All P a ∧ All P b := by
  simp [All, preorder, or_imp, forall_and]

@[simp] theorem all_ternary {op : TernaryOp} :
    All P (ternary n op a b c) ↔ P (ternary n op a b c) ∧ All P a ∧ All P b ∧ All P c := by
  simp [All, preorder, or_imp, forall_and]

@[simp] theorem all_nary {op : NaryOp} {args : List Expr} :
    All P (nary n op args) ↔ P (nary n op args) ∧ ∀ e ∈ args, All P e := by
  simp only [All, preorder, List.mem_cons, mem_preorderList, forall_eq_or_imp]
  constructor
  · intro h
    exact ⟨h.1, fun e he x hx => h.2 x ⟨e, he, hx⟩⟩
  · intro h
    exact ⟨h.1, fun x ⟨e, he, hx⟩ => h.2 e he x hx⟩

/-- What holds of everything in an expression holds of everything in its parts. -/
theorem All.all (e : Expr) (h : All P e) : All (All P) e := by
  match e with
  | leaf n op => exact all_leaf.2 h
  | unary n op a => exact all_unary.2 ⟨h, All.all a (all_unary.1 h).2⟩
  | binary n op a b =>
    exact all_binary.2 ⟨h, All.all a (all_binary.1 h).2.1, All.all b (all_binary.1 h).2.2⟩
  | ternary n op a b c =>
    obtain ⟨_, ha, hb, hc⟩ := all_ternary.1 h
    exact all_ternary.2 ⟨h, All.all a ha, All.all b hb, All.all c hc⟩
  | nary n op args => exact all_nary.2 ⟨h, fun e he => All.all e ((all_nary.1 h).2 e he)⟩

end All

/-- Every note says of its expression what can be read off the tree. -/
def Recorded (e : Expr) : Prop := e.All fun x => x.info.effects = x.effects

end Expr

@[simp] theorem BinaryOp.settled_effects (op : BinaryOp) (i : StaticInfo) (a b : Effects) :
    (op.settled i).effects a b = op.effects a b := by
  cases op <;> rfl

namespace Typing
open XPath.Expr

variable {context : StaticContext} {unit unit' : CompileUnit}

/-- A variable takes the type of its source, or its declared type; then the source is checked when it is
evaluated, unless that is not needed. -/
theorem bind_ok {slot : Slot} {source x : Expr} {perItem : Bool}
    (h : (bind slot source perItem).run context unit = (.ok x, unit')) :
    match (unit.binding slot).declared with
    | none => x = source ∧
        unit' = unit.setInferred slot (if perItem then .one source.itemType else source.type)
    | some declared =>
      let required : SequenceType := if perItem then ⟨declared.item, .zeroOrMore⟩ else declared
      unit' = unit.setInferred slot declared ∧
        (x = source ∧ source.type.isSubtype required ∨
          x = .unary { location := source.location, info := (UnaryOp.treat required).info source.info }
            (.treat required) source) := by
  obtain ⟨_, _, hget, h⟩ := Pass.run_bind_ok h
  cases hget
  cases hd : (unit.binding slot).declared with
  | none =>
    simp only [hd] at h
    obtain ⟨_, _, hset, h⟩ := Pass.run_bind_ok h
    cases hset
    cases h
    exact ⟨rfl, rfl⟩
  | some declared =>
    simp only [hd] at h
    dsimp only
    generalize (if perItem then ⟨declared.item, .zeroOrMore⟩ else declared : SequenceType) =
      required at h ⊢
    split at h
    · obtain ⟨_, unit₁, hset, h⟩ := Pass.run_bind_ok h
      cases hset
      split at h
      · next hsub =>
        cases h
        exact ⟨rfl, .inl ⟨rfl, hsub⟩⟩
      · next hsub =>
        obtain ⟨rfl, rfl | ⟨t, ht, hs, rfl⟩⟩ :=
          (inferUnary_returns (.mkUnary (.treat required) source source.location) (.treat required)
            source).of_run h
        · exact ⟨rfl, .inr rfl⟩
        · cases ht
          exact absurd hs hsub
    · obtain ⟨_, _, hfail, _⟩ := Pass.run_bind_ok h
      exact absurd hfail (Pass.run_fail _ _ _ _)

/-- The left operand as the operator takes it. -/
def bindFor (op : BinaryOp) (source : Expr) : Pass Expr :=
  match op with
  | .for slot | .quantified _ slot => bind slot source true
  | .let slot => bind slot source false
  | _ => pure source

theorem check_binary_ok {n : Note} {op : BinaryOp} {a b x : Expr}
    (h : (check (.binary n op a b)).run context unit = (.ok x, unit')) :
    ∃ a' s b' unit₁ unit₂, (check a).run context unit = (.ok a', unit₁) ∧
      (bindFor op a').run context unit₁ = (.ok s, unit₂) ∧
      (check b).run context unit₂ = (.ok b', unit') ∧
      x = (Expr.binary n (op.settled b'.info) s b').withInfo (op.info s.info b'.info) := by
  obtain ⟨a', unit₁, ha, h⟩ := Pass.run_bind_ok h
  have hbind : ∃ s unit₂, (bindFor op a').run context unit₁ = (.ok s, unit₂) ∧
      (do infer (.binary n op s (← check b))).run context unit₂ = (.ok x, unit') := by
    cases op <;> exact Pass.run_bind_ok h
  obtain ⟨s, unit₂, hs, h⟩ := hbind
  obtain ⟨b', unit₃, hb, h⟩ := Pass.run_bind_ok h
  obtain ⟨rfl, rfl⟩ := (inferBinary_returns n op s b').of_run h
  exact ⟨a', s, b', unit₁, unit₂, ha, hs, hb, rfl⟩

/-- A source that is bound keeps right notes. -/
theorem bind_recorded {slot : Slot} {source x : Expr} {perItem : Bool} (hs : source.Recorded)
    (h : (bind slot source perItem).run context unit = (.ok x, unit')) : x.Recorded := by
  have hb := bind_ok h
  split at hb
  · obtain ⟨rfl, _⟩ := hb
    exact hs
  · obtain ⟨_, ⟨rfl, _⟩ | rfl⟩ := hb
    · exact hs
    · exact all_unary.2 ⟨hs.self, hs⟩

theorem bindFor_recorded {op : BinaryOp} {source x : Expr} (hs : source.Recorded)
    (h : (bindFor op source).run context unit = (.ok x, unit')) : x.Recorded := by
  cases op with
  | «for» slot => exact bind_recorded hs h
  | quantified q slot => exact bind_recorded hs h
  | «let» slot => exact bind_recorded hs h
  | _ =>
    cases h
    exact hs

mutual

/-- A checked tree has right notes. -/
theorem check_recorded (e : Expr) {x : Expr} {unit unit' : CompileUnit}
    (h : (check e).run context unit = (.ok x, unit')) : x.Recorded := by
  match e with
  | .leaf n op =>
    obtain ⟨rfl, rfl⟩ := inferLeaf_ok h
    exact all_leaf.2 rfl
  | .unary n op a =>
    obtain ⟨a', unit₁, ha, h⟩ := Pass.run_bind_ok h
    have hr := check_recorded a ha
    obtain ⟨rfl, rfl | ⟨t, rfl, _, rfl⟩⟩ := (inferUnary_returns (.unary n op a') op a').of_run h
    · exact all_unary.2 ⟨congrArg op.effects hr.self, hr⟩
    · exact hr
  | .binary n op a b =>
    obtain ⟨a', s, b', unit₁, unit₂, ha, hs, hb, rfl⟩ := check_binary_ok h
    have hrs := bindFor_recorded (check_recorded a ha) hs
    have hrb := check_recorded b hb
    refine all_binary.2 ⟨?_, hrs, hrb⟩
    change op.effects s.info.effects b'.info.effects = _
    rw [hrs.self, hrb.self, effects_binary, BinaryOp.settled_effects]
  | .ternary n op a b c =>
    obtain ⟨a', unit₁, ha, h⟩ := Pass.run_bind_ok h
    obtain ⟨b', unit₂, hb, h⟩ := Pass.run_bind_ok h
    obtain ⟨c', unit₃, hc, h⟩ := Pass.run_bind_ok h
    have hra := check_recorded a ha
    have hrb := check_recorded b hb
    have hrc := check_recorded c hc
    obtain ⟨rfl, rfl⟩ := (inferTernary_returns (.ternary n op a' b' c') op a' b' c').of_run h
    refine all_ternary.2 ⟨?_, hra, hrb, hrc⟩
    change a'.info.effects ∪ b'.info.effects ∪ c'.info.effects = _
    rw [hra.self, hrb.self, hrc.self]
    rfl
  | .nary n op es =>
    obtain ⟨es', unit₁, hes, h⟩ := Pass.run_bind_ok h
    have hr := checkList_recorded es hes
    obtain ⟨rfl, rfl⟩ := (inferNary_returns (.nary n op es') op es').of_run h
    have heff : (es'.map (·.info)).map (·.effects) = effectsList es' := by
      unfold effectsList
      rw [effectsPastList_eq, List.map_map]
      exact List.map_congr_left fun e he => (hr e he).self
    exact all_nary.2 ⟨congrArg op.effects heff, hr⟩

theorem checkList_recorded (es : List Expr) {xs : List Expr} {unit unit' : CompileUnit}
    (h : (checkList es).run context unit = (.ok xs, unit')) : ∀ x ∈ xs, x.Recorded := by
  match es with
  | [] =>
    cases h
    nofun
  | e :: es =>
    obtain ⟨x, unit₁, he, h⟩ := Pass.run_bind_ok h
    obtain ⟨xs', unit₂, hes, h⟩ := Pass.run_bind_ok h
    cases h
    exact List.forall_mem_cons.2 ⟨check_recorded e he, checkList_recorded es hes⟩

end

end Typing

end XPath
