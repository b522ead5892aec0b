import XPath.Typing
import XPath.Proofs.Growth
import XPath.Proofs.Numbers

/-!
What it is for an item to be of a type while trees change, and that the relations between types and the
types that rows compute are right about it.
-/
namespace XPath

namespace AtomicType

theorem derivesFrom_trans_all :
    ∀ a ∈ all, ∀ b ∈ a.ancestors, ∀ c ∈ b.ancestors, a.derivesFrom c := by
  decide +kernel

theorem derivesFrom_trans {a b c : AtomicType} (h : a.derivesFrom b) (h' : b.derivesFrom c) :
    a.derivesFrom c :=
  derivesFrom_trans_all a a.mem_all b (List.contains_iff_mem.1 h) c (List.contains_iff_mem.1 h')

theorem derivesFrom_anyType (a : AtomicType) : a.derivesFrom anyType := by
  cases a <;> rfl

/-- Both types derive from what they have in common. -/
theorem derivesFrom_common (a b : AtomicType) :
    a.derivesFrom (a.common b) ∧ b.derivesFrom (a.common b) := by
  unfold common
  cases h : a.ancestors.find? b.derivesFrom with
  | none => exact ⟨a.derivesFrom_anyType, b.derivesFrom_anyType⟩
  | some c => exact ⟨List.contains_iff_mem.2 (List.mem_of_find?_eq_some h), List.find?_some h⟩

end AtomicType

namespace NameAndType

theorem exists_of_sameName {a : Option QName} {n : QName} (h : sameName a (some n)) :
    ∃ m, a = some m ∧ m.localPart = n.localPart ∧ m.uri = n.uri := by
  cases a with
  | none => cases h
  | some m =>
    have heq : m.toName = n.toName := Option.some.inj (eq_of_beq h)
    exact ⟨m, rfl, congrArg Name.localPart heq, congrArg Name.uri heq⟩

theorem holds_of_isSubtype {s t : NameAndType} {c : Content} (h : s.isSubtype t) (hs : s.holds c) :
    t.holds c := by
  obtain ⟨hname, htype⟩ := Bool.and_eq_true_iff.1 h
  obtain ⟨hs₁, hs₂⟩ := Bool.and_eq_true_iff.1 hs
  refine Bool.and_eq_true_iff.2 ⟨?_, ?_⟩
  · cases hn : t.name with
    | none => rfl
    | some n =>
      rw [hn] at hname
      obtain ⟨m, hm, hlocal, huri⟩ := exists_of_sameName (by simpa using hname)
      rw [hm] at hs₁
      simpa [QName.nodeName, hlocal, huri] using hs₁
  · cases hn : t.typeName with
    | none => rfl
    | some n =>
      rw [hn] at htype
      obtain ⟨m, hm, hlocal, huri⟩ := exists_of_sameName (by simpa using htype)
      rw [hm] at hs₂
      simpa [hlocal, huri] using hs₂

@[simp] theorem isSubtype_any (t : NameAndType) : t.isSubtype {} := rfl

end NameAndType

namespace KindTest

theorem holds_document {e : Option NameAndType} {t : Tree} :
    (document e).holds t ↔ t.content = .document ∧
      ∀ a, e = some a → t.documentElement?.any fun u => a.holds u.content := by
  unfold holds
  cases e <;> cases t.content <;> simp

theorem holds_element {e : NameAndType} {t : Tree} :
    (element e).holds t ↔ ∃ n, t.content = .element n ∧ e.holds (.element n) := by
  unfold holds
  cases t.content <;> simp

theorem holds_attr {e : NameAndType} {t : Tree} :
    (attr e).holds t ↔ ∃ n v, t.content = .attr n v ∧ e.holds (.attr n v) := by
  unfold holds
  cases t.content <;> simp

theorem holds_instruction {target : Option String} {t : Tree} :
    (processingInstruction target).holds t ↔
      ∃ name data, t.content = .instruction name data ∧ ∀ s, target = some s → s = name := by
  unfold holds
  cases t.content <;> cases target <;> simp

theorem holds_of_isSubtype {k l : KindTest} {t : Tree} (h : k.isSubtype l) (hk : k.holds t) :
    l.holds t := by
  unfold isSubtype at h
  split at h
  · rfl
  · rw [holds_document] at hk ⊢
    exact ⟨hk.1, nofun⟩
  · next a b =>
    rw [holds_document] at hk ⊢
    refine ⟨hk.1, fun e he => ?_⟩
    cases he
    obtain ⟨u, hu, ha⟩ := Option.any_eq_true .. |>.1 (hk.2 a rfl)
    exact Option.any_eq_true .. |>.2 ⟨u, hu, NameAndType.holds_of_isSubtype h ha⟩
  · cases h
  · rw [holds_element] at hk ⊢
    obtain ⟨n, hn, ha⟩ := hk
    exact ⟨n, hn, NameAndType.holds_of_isSubtype h ha⟩
  · rw [holds_attr] at hk ⊢
    obtain ⟨n, v, hn, ha⟩ := hk
    exact ⟨n, v, hn, NameAndType.holds_of_isSubtype h ha⟩
  · next a b =>
    rw [holds_instruction] at hk ⊢
    obtain ⟨name, data, hc, ha⟩ := hk
    refine ⟨name, data, hc, fun s hs => ?_⟩
    obtain hnone | heq := Bool.or_eq_true_iff.1 h
    · simp [hs] at hnone
    · exact ha s ((eq_of_beq heq).trans hs)
  · exact hk
  · exact hk
  · exact hk
  · cases h

theorem isSubtype_text {k l : KindTest} (h : k.isSubtype l) (hk : text.isSubtype k) :
    text.isSubtype l := by
  cases k with
  | anyNode =>
    cases l with
    | anyNode => rfl
    | _ => simp [isSubtype] at h
  | text => exact h
  | _ => simp [isSubtype] at hk

theorem isSubtype_common (k l : KindTest) :
    k.isSubtype (k.common l) ∧ l.isSubtype (k.common l) := by
  unfold common
  split
  · next h => exact ⟨h, l.isSubtype_refl⟩
  · split
    · next h => exact ⟨k.isSubtype_refl, h⟩
    · split
      · exact ⟨rfl, rfl⟩
      · exact ⟨rfl, rfl⟩
      · cases k <;> cases l <;> exact ⟨rfl, rfl⟩

end KindTest

/-- An integer is of an integer type. -/
def Atomic.IsProper : Atomic → Prop
  | integer t _ => t.derivesFrom .integer
  | _ => True

theorem Atomic.IsProper.isAtomic {a : Atomic} (h : a.IsProper) : a.type.derivesFrom .anyAtomicType := by
  cases a with
  | integer t i => exact AtomicType.derivesFrom_trans h rfl
  | _ => rfl

/-- An item that there can be with these trees. -/
def Item.IsKnown (f : Forest) : Item → Prop
  | .atomic a => a.IsProper
  | .node i => i < f.next

theorem Item.isProper_value {f : Forest} {x : Item} (h : x.IsKnown f) : (x.value f).IsProper := by
  cases x with
  | atomic a => exact h
  | node i =>
    unfold Item.value
    dsimp only
    split <;> trivial

namespace ItemType

/-- Whether a text is of the type. -/
def mayBeText (t : ItemType) : Bool := (node .text).isSubtype t

/-- The item is of the type, or it was a text that is in no tree any more. -/
def Covers (t : ItemType) (f : Forest) (x : Item) : Prop :=
  t.holds f x ∨ t.mayBeText ∧ ∃ i, x = .node i ∧ f.node? i = none

variable {f g : Forest} {x : Item} {s t : ItemType}

theorem covers_item (f : Forest) (x : Item) : item.Covers f x := .inl rfl

/-- Where there is nothing to be said about the node. -/
theorem covers_anyNode (f : Forest) (i : NodeId) : anyNode.Covers f (.node i) := by
  cases h : f.node? i with
  | none => exact .inr ⟨rfl, i, rfl, h⟩
  | some u => exact .inl (by simp [holds, anyNode, h, KindTest.holds])

theorem covers_node {k : KindTest} {i : NodeId} {u : Tree} (hu : f.node? i = some u) (hk : k.holds u) :
    (node k).Covers f (.node i) :=
  .inl (by simp [holds, hu, hk])

theorem covers_atomic {t : AtomicType} {a : Atomic} (h : a.type.derivesFrom t) :
    (atomic t).Covers f (.atomic a) := .inl h

theorem derivesFrom_of_covers {t : AtomicType} (h : (atomic t).Covers f x) :
    ∃ a, x = .atomic a ∧ a.type.derivesFrom t := by
  obtain h | ⟨h, _⟩ := h
  · cases x with
    | atomic a => exact ⟨a, rfl, h⟩
    | node i => cases h
  · cases h

theorem covers_of_isSubtype (h : s.isSubtype t) (hx : s.Covers f x) : t.Covers f x := by
  cases t with
  | item => exact covers_item f x
  | atomic b =>
    cases s with
    | atomic a =>
      obtain ⟨v, rfl, hv⟩ := derivesFrom_of_covers hx
      exact covers_atomic (AtomicType.derivesFrom_trans hv h)
    | imported n => obtain hx | ⟨hx, _⟩ := hx <;> cases x <;> cases hx
    | _ => cases h
  | node l =>
    cases s with
    | node k =>
      obtain hx | ⟨hx, hgone⟩ := hx
      · cases x with
        | atomic a => cases hx
        | node i =>
          obtain ⟨u, hu, hk⟩ := Option.any_eq_true .. |>.1 hx
          exact covers_node hu (KindTest.holds_of_isSubtype h hk)
      · exact .inr ⟨KindTest.isSubtype_text h hx, hgone⟩
    | _ => cases h
  | «foreign» n =>
    cases s with
    | «foreign» m => obtain hx | ⟨hx, _⟩ := hx <;> cases x <;> cases hx
    | _ => cases h
  | imported n =>
    cases s with
    | imported m => obtain hx | ⟨hx, _⟩ := hx <;> cases x <;> cases hx
    | _ => cases h

theorem covers_anyAtomicType (hx : x.IsKnown f) (h : t.isAtomic) (hc : t.Covers f x) :
    (atomic .anyAtomicType).Covers f x := by
  cases t with
  | atomic a =>
    obtain ⟨v, rfl, _⟩ := derivesFrom_of_covers hc
    exact covers_atomic hx.isAtomic
  | imported n => exact covers_of_isSubtype rfl hc
  | _ => cases h

/-- What is of one of two types is of their common type. -/
theorem covers_common (hx : x.IsKnown f) (h : s.Covers f x ∨ t.Covers f x) :
    (s.common t).Covers f x := by
  unfold common
  split
  · next hst => exact h.elim (covers_of_isSubtype hst) fun h => h
  · split
    · next hts => exact h.elim (fun h => h) (covers_of_isSubtype hts)
    · split
      · next a b _ _ =>
        obtain ⟨ha, hb⟩ := AtomicType.derivesFrom_common a b
        exact h.elim (covers_of_isSubtype ha) (covers_of_isSubtype hb)
      · next k l _ _ =>
        obtain ⟨hk, hl⟩ := KindTest.isSubtype_common k l
        exact h.elim (covers_of_isSubtype hk) (covers_of_isSubtype hl)
      · split
        · next hboth =>
          obtain ⟨hs, ht⟩ := Bool.and_eq_true_iff.1 hboth
          exact h.elim (covers_anyAtomicType hx hs) (covers_anyAtomicType hx ht)
        · exact covers_item f x

private theorem covers_foldl_common {ts : List ItemType} (hx : x.IsKnown f)
    (h : t.Covers f x ∨ ∃ s ∈ ts, s.Covers f x) : (ts.foldl common t).Covers f x := by
  induction ts generalizing t with
  | nil => exact h.resolve_right (by simp)
  | cons s ts ih =>
    refine ih (h.elim (fun ht => .inl (covers_common hx (.inl ht))) fun ⟨r, hr, hrx⟩ => ?_)
    obtain rfl | hr := List.mem_cons.1 hr
    · exact .inl (covers_common hx (.inr hrx))
    · exact .inr ⟨r, hr, hrx⟩

theorem covers_commonOf {ts : List ItemType} (hx : x.IsKnown f) (ht : t ∈ ts) (h : t.Covers f x) :
    (commonOf ts).Covers f x := by
  cases ts with
  | nil => exact covers_item f x
  | cons s ts =>
    obtain rfl | ht := List.mem_cons.1 ht
    · exact covers_foldl_common hx (.inl h)
    · exact covers_foldl_common hx (.inr ⟨t, ht, h⟩)

theorem covers_nodeCommon {i : NodeId} (hx : (Item.node i).IsKnown f)
    (h : s.Covers f (.node i) ∨ t.Covers f (.node i)) : (nodeCommon s t).Covers f (.node i) := by
  have hc := covers_common hx h
  unfold nodeCommon
  split
  · next heq => exact heq ▸ hc
  · exact covers_anyNode f i

/-- An item stays of its type, whatever becomes of the trees. -/
theorem Covers.later (hg : g.IsSound) (hfg : f.Becomes g) (hx : x.IsKnown f)
    (h : t.Covers f x) : t.Covers g x := by
  have hgone {i : NodeId} (hi : i < f.next) (hnone : f.node? i = none) : g.node? i = none := by
    cases hgi : g.node? i with
    | none => rfl
    | some u =>
      obtain ⟨hu, rfl⟩ := Forest.node?_eq_some hgi
      exact absurd (hfg.old _ (Forest.mem_ids.2 ⟨u, hu, rfl⟩) hi) (Forest.node?_eq_none hnone)
  obtain h | ⟨ht, i, rfl, hnone⟩ := h
  · cases t with
    | node k =>
      cases x with
      | atomic a => cases h
      | node i =>
        obtain ⟨u, hu, hk⟩ := Option.any_eq_true .. |>.1 h
        obtain ⟨hmem, rfl⟩ := Forest.node?_eq_some hu
        obtain ⟨v, hv, hid, has⟩ | ⟨htext, hnot⟩ := hfg.kept u hmem
        · exact covers_node (hid ▸ hg.node?_eq hv) (has k ▸ hk)
        · refine .inr ⟨?_, _, rfl, ?_⟩
          · unfold KindTest.holds at hk
            cases hc : u.content with
            | text s => cases k <;> simp_all [mayBeText, isSubtype, KindTest.isSubtype]
            | _ => simp [hc, Content.isText] at htext
          · cases hgi : g.node? u.id with
            | none => rfl
            | some v =>
              obtain ⟨hv, hid⟩ := Forest.node?_eq_some hgi
              exact absurd (Forest.mem_ids.2 ⟨v, hv, hid⟩) hnot
    | item => exact covers_item g x
    | atomic a => cases x <;> exact .inl h
    | «foreign» n => cases x <;> cases h
    | imported n => cases x <;> cases h
  · exact .inr ⟨ht, i, rfl, hgone hx hnone⟩

end ItemType

theorem Item.IsKnown.later {f g : Forest} {x : Item} (hfg : f.Becomes g) (h : x.IsKnown f) :
    x.IsKnown g := by
  cases x with
  | atomic a => exact h
  | node i => exact Nat.lt_of_lt_of_le h hfg.next

namespace AtomicType

/-- The common type of two numeric types by the kinds of the two. -/
theorem common_numeric_all : ∀ a ∈ all, ∀ b ∈ all, a.isNumeric → b.isNumeric →
    if a.derivesFrom integer && b.derivesFrom integer then (a.common b).derivesFrom integer
    else a.common b =
      if a.derivesFrom decimal && b.derivesFrom decimal then decimal
      else if a = b then a else anyAtomicType := by
  decide +kernel

/-- What derives from a numeric type by the kind of the type. -/
theorem derivesFrom_numeric_all : ∀ a ∈ all, ∀ b ∈ all, a.derivesFrom b → b.isNumeric →
    b.derivesFrom integer ∧ a.derivesFrom integer ∨
    b = decimal ∧ (a.derivesFrom integer ∨ a = decimal) ∨ b = float ∧ a = float ∨
    b = double ∧ a = double := by
  decide +kernel

/-- The types that numbers of a type are computed in. -/
def Computes (t p : AtomicType) : Prop :=
  t.derivesFrom .integer ∧ p = .integer ∨ t = .decimal ∧ (p = .integer ∨ p = .decimal) ∨
    t = .float ∧ p = .float ∨ t = .double ∧ p = .double

end AtomicType

namespace Atomic
variable {a b v : Atomic} {op : ArithmeticOp}

theorem cast_type {target : AtomicType} (ha : a.IsProper) (h : a.cast target = .ok v) :
    v.IsProper ∧ v.type = target := by
  unfold cast at h
  split at h
  · next heq =>
    cases h
    exact ⟨ha, heq⟩
  · split at h
    · cases h
      exact ⟨trivial, rfl⟩
    · cases h
      exact ⟨trivial, rfl⟩
    · obtain ⟨x, _, rfl⟩ := map_ok h
      exact ⟨trivial, rfl⟩
    · obtain ⟨x, _, rfl⟩ := map_ok h
      exact ⟨trivial, rfl⟩
    · obtain ⟨x, _, rfl⟩ := map_ok h
      exact ⟨trivial, rfl⟩
    · obtain ⟨x, _, rfl⟩ := map_ok h
      exact ⟨trivial, rfl⟩
    · cases h
    · cases h
    · cases h
    · split at h
      · next hint =>
        obtain ⟨i, _, h⟩ := bind_ok h
        split at h <;> cases h
        exact ⟨hint, rfl⟩
      · cases h

theorem untypedToDouble_ok (h : a.untypedToDouble = .ok v) :
    v = a ∧ a.isUntyped = false ∨ a.isUntyped ∧ ∃ x, v = double x := by
  cases a with
  | untyped s =>
    obtain ⟨x, _, rfl⟩ := map_ok h
    exact .inr ⟨rfl, x, rfl⟩
  | _ =>
    cases h
    exact .inl ⟨rfl, rfl⟩

theorem isProper_untypedToDouble (ha : a.IsProper) (h : a.untypedToDouble = .ok v) : v.IsProper := by
  obtain ⟨rfl, _⟩ | ⟨_, x, rfl⟩ := untypedToDouble_ok h
  · exact ha
  · trivial

/-- The four types that numbers are computed in. -/
def computedAs : Atomic → AtomicType
  | integer .. => .integer
  | a => a.type

/-- The type that an operation on numbers gives. -/
def resultType (op : ArithmeticOp) (a b : AtomicType) : AtomicType :=
  if a = .double ∨ b = .double then .double
  else if a = .float ∨ b = .float then .float
  else if a = .integer ∧ b = .integer then if op = .divide then .decimal else .integer
  else if op = .integerDivide then .integer
  else .decimal

theorem decimalArithmetic_type {x y : Decimal} (h : decimalArithmetic op x y = .ok v) :
    v.IsProper ∧ v.type = if op = .integerDivide then .integer else .decimal := by
  unfold decimalArithmetic orElse at h
  cases op <;> dsimp only at h <;> (repeat' split at h) <;> cases h <;> exact ⟨by trivial, rfl⟩

theorem integerArithmetic_type {i j : Int} (h : integerArithmetic op i j = .ok v) :
    v.IsProper ∧ v.type = if op = .divide then .decimal else .integer := by
  cases op with
  | divide =>
    obtain ⟨x, _, h⟩ := bind_ok h
    obtain ⟨y, _, h⟩ := bind_ok h
    exact decimalArithmetic_type h
  | integerDivide =>
    unfold integerArithmetic at h
    dsimp only at h
    split at h <;> cases h
    exact ⟨rfl, rfl⟩
  | modulo =>
    unfold integerArithmetic at h
    dsimp only at h
    split at h <;> cases h
    exact ⟨rfl, rfl⟩
  | _ =>
    cases h
    exact ⟨rfl, rfl⟩

/-- Two numbers are brought to the type that they are computed in. -/
theorem promote_type {x y : Atomic} (ha : a.isNumeric) (hb : b.isNumeric) (h : promote a b = .ok (x, y)) :
    (∃ t u i j, x = integer t i ∧ y = integer u j ∧ a.computedAs = .integer ∧ b.computedAs = .integer) ∨
    (∃ c d, x = decimal c ∧ y = decimal d ∧ resultType .add a.computedAs b.computedAs = .decimal) ∨
    (∃ c d, x = float c ∧ y = float d ∧ resultType .add a.computedAs b.computedAs = .float) ∨
    ∃ c d, x = double c ∧ y = double d ∧ resultType .add a.computedAs b.computedAs = .double := by
  cases a <;> cases ha
  all_goals cases b <;> cases hb
  all_goals
    unfold promote at h
    first
    | (cases h; simp [computedAs, resultType, type])
    | (obtain ⟨z, _, h⟩ := bind_ok h
       cases h
       simp [computedAs, resultType, type])

theorem untypedToDouble_of_isNumeric (ha : a.isNumeric) : a.untypedToDouble = .ok a := by
  cases a <;> first | rfl | cases ha

theorem arithmetic_of_numbers (ha : a.isNumeric) (hb : b.isNumeric) (h : arithmetic op a b = .ok v) :
    v.IsProper ∧ v.type = resultType op a.computedAs b.computedAs := by
  obtain ⟨a', haa, h⟩ := bind_ok h
  obtain ⟨b', hbb, h⟩ := bind_ok h
  rw [untypedToDouble_of_isNumeric ha] at haa
  rw [untypedToDouble_of_isNumeric hb] at hbb
  cases haa
  cases hbb
  obtain ⟨⟨x, y⟩, hxy, h⟩ := bind_ok h
  obtain ⟨t, u, i, j, rfl, rfl, hca, hcb⟩ | ⟨c, d, rfl, rfl, hr⟩ | ⟨c, d, rfl, rfl, hr⟩ |
    ⟨c, d, rfl, rfl, hr⟩ := promote_type ha hb hxy
  · obtain ⟨hv, htype⟩ := integerArithmetic_type h
    exact ⟨hv, by simp [htype, resultType, hca, hcb]⟩
  · obtain ⟨hv, htype⟩ := decimalArithmetic_type h
    refine ⟨hv, htype.trans ?_⟩
    unfold resultType at hr ⊢
    grind
  · obtain ⟨z, _, rfl⟩ := map_ok h
    refine ⟨trivial, ?_⟩
    unfold resultType at hr ⊢
    grind [type]
  · obtain ⟨z, _, rfl⟩ := map_ok h
    refine ⟨trivial, ?_⟩
    unfold resultType at hr ⊢
    grind [type]

/-- Whatever is computed is proper. -/
theorem isProper_arithmetic (h : arithmetic op a b = .ok v) : v.IsProper := by
  obtain ⟨_, _, h⟩ := bind_ok h
  obtain ⟨_, _, h⟩ := bind_ok h
  obtain ⟨_, _, h⟩ := bind_ok h
  split at h
  · exact (integerArithmetic_type h).1
  · exact (decimalArithmetic_type h).1
  · obtain ⟨_, _, rfl⟩ := map_ok h
    trivial
  · obtain ⟨_, _, rfl⟩ := map_ok h
    trivial
  · cases h

/-- A value whose type derives from a numeric type is a number, computed with by the kind of the type. -/
theorem computedAs_of_type {t : AtomicType} (ha : a.IsProper) (h : a.type.derivesFrom t)
    (ht : t.isNumeric) : a.isNumeric ∧ t.Computes a.computedAs := by
  have hnum := AtomicType.isNumeric_of_derivesFrom _ (AtomicType.mem_all _) _ (AtomicType.mem_all t) h ht
  have hkind := AtomicType.derivesFrom_numeric_all _ (AtomicType.mem_all _) _ (AtomicType.mem_all t) h ht
  cases a with
  | integer u i =>
    refine ⟨rfl, ?_⟩
    obtain hkind | hkind | ⟨_, rfl⟩ | ⟨_, rfl⟩ := hkind
    · exact .inl ⟨hkind.1, rfl⟩
    · exact .inr (.inl ⟨hkind.1, .inl rfl⟩)
    · cases ha
    · cases ha
  | decimal d =>
    have hd : AtomicType.decimal.derivesFrom .integer = false := rfl
    exact ⟨rfl, by simpa [type, computedAs, AtomicType.Computes, hd] using hkind⟩
  | float x =>
    have hd : AtomicType.float.derivesFrom .integer = false := rfl
    exact ⟨rfl, by simpa [type, computedAs, AtomicType.Computes, hd] using hkind⟩
  | double x =>
    have hd : AtomicType.double.derivesFrom .integer = false := rfl
    exact ⟨rfl, by simpa [type, computedAs, AtomicType.Computes, hd] using hkind⟩
  | untyped s => cases hnum
  | string s => cases hnum
  | boolean c => cases hnum

end Atomic

namespace ItemType
open XPath.Atomic

theorem numericType_eq (t : ItemType) :
    t.numericType = .anyAtomicType ∨ ∃ a, t = atomic a ∧ t.numericType = a ∧ a.isNumeric := by
  cases t with
  | atomic a =>
    by_cases ha : a.isNumeric
    · exact .inr ⟨a, rfl, by simp [numericType, ha], ha⟩
    · exact .inl (by simp [numericType, ha])
  | _ => exact .inl rfl

variable {a b v : Atomic} {s t : ItemType} {f : Forest}

/-- The value of an item that is of a type. -/
theorem derivesFrom_numericType {x : Item} (hx : x.IsKnown f) (h : t.Covers f x) :
    (x.value f).type.derivesFrom t.numericType := by
  obtain ht | ⟨a, rfl, ht, _⟩ := t.numericType_eq
  · exact ht ▸ (Item.isProper_value hx).isAtomic
  · obtain ⟨v, rfl, hv⟩ := derivesFrom_of_covers h
    rw [ht]
    exact hv

/-- Unary minus makes a plain integer of a derived one. -/
theorem covers_negate (ha : a.IsProper) (hat : a.type.derivesFrom t.numericType)
    (ht : t.numericType.derivesFrom .integer → t.numericType = .integer) (h : negate a = .ok v) :
    v.IsProper ∧ v.type.derivesFrom t.numericType := by
  obtain ⟨b, hb, h⟩ := bind_ok h
  have hv : v.IsProper := by split at h <;> cases h <;> trivial
  refine ⟨hv, ?_⟩
  obtain hany | ⟨n, rfl, hn, hnum⟩ := t.numericType_eq
  · exact hany ▸ hv.isAtomic
  · rw [hn] at hat ht ⊢
    obtain ⟨hnumber, hkind⟩ := computedAs_of_type ha hat hnum
    rw [untypedToDouble_of_isNumeric hnumber] at hb
    cases hb
    cases a with
    | integer u i =>
      cases h
      obtain ⟨hint, _⟩ | ⟨rfl, _⟩ | ⟨rfl, hc⟩ | ⟨rfl, hc⟩ := hkind
      · rw [ht hint]
        rfl
      · rfl
      · cases hc
      · cases hc
    | decimal d => cases h; exact hat
    | float x => cases h; exact hat
    | double x => cases h; exact hat
    | _ => cases hnumber

theorem covers_plus (ha : a.IsProper) (hat : a.type.derivesFrom t.numericType) (h : plus a = .ok v) :
    v.IsProper ∧ v.type.derivesFrom t.numericType := by
  obtain ⟨b, hb, h⟩ := bind_ok h
  have hp := isProper_untypedToDouble ha hb
  split at h <;> cases h
  refine ⟨hp, ?_⟩
  obtain hany | ⟨n, rfl, hn, hnum⟩ := t.numericType_eq
  · exact hany ▸ hp.isAtomic
  · rw [hn] at hat ⊢
    rw [untypedToDouble_of_isNumeric (computedAs_of_type ha hat hnum).1] at hb
    cases hb
    exact hat

/-- An integer quotient of floats or doubles is not an integer. -/
def DividesExactly (op : ArithmeticOp) (s t : ItemType) : Prop :=
  op = .integerDivide → s.isNumeric → t.isNumeric →
    s.numericType.derivesFrom .decimal ∧ t.numericType.derivesFrom .decimal

theorem arithmeticType_numeric (op : ArithmeticOp) {m n : AtomicType} (hm : m.isNumeric)
    (hn : n.isNumeric) : arithmeticType op (atomic m) (atomic n) = atomic (match op with
      | .integerDivide => .integer
      | .divide => if (m.common n).derivesFrom .integer then .decimal else m.common n
      | _ => if (m.common n).derivesFrom .integer then .integer else m.common n) := by
  have hne {u : AtomicType} (hu : u.isNumeric) : u ≠ .anyAtomicType := by
    rintro rfl
    cases hu
  cases op <;> simp [arithmeticType, numericType, hm, hn, hne hm, hne hn]

/-- The common type of two types by what their numbers are computed as. -/
private theorem common_of_computes {m n p q : AtomicType} (hp : m.Computes p) (hq : n.Computes q)
    (hm : m.isNumeric) (hn : n.isNumeric) :
    p = .integer ∧ q = .integer ∧ (m.common n).derivesFrom .integer ∨
    (p = .integer ∨ p = .decimal) ∧ (q = .integer ∨ q = .decimal) ∧ m.common n = .decimal ∨
    ¬(m.derivesFrom .decimal ∧ n.derivesFrom .decimal) ∧
      (p = .float ∧ q = .float ∧ m.common n = .float ∨ p = .double ∧ q = .double ∧ m.common n = .double ∨
        m.common n = .anyAtomicType) := by
  have hdecimal {u : AtomicType} (hu : u.derivesFrom .integer) : u.derivesFrom .decimal :=
    AtomicType.derivesFrom_trans hu rfl
  have hcommon := AtomicType.common_numeric_all m m.mem_all n n.mem_all hm hn
  have hnot : AtomicType.decimal.derivesFrom .integer = false ∧
      AtomicType.float.derivesFrom .integer = false ∧ AtomicType.double.derivesFrom .integer = false ∧
      AtomicType.decimal.derivesFrom .decimal ∧ AtomicType.float.derivesFrom .decimal = false ∧
      AtomicType.double.derivesFrom .decimal = false := by decide
  have hfloat {u : AtomicType} (hu : u.derivesFrom .integer) :
      u ≠ .float ∧ u ≠ .double ∧ .float ≠ u ∧ .double ≠ u := by
    refine ⟨?_, ?_, ?_, ?_⟩ <;> rintro rfl <;> cases hu
  obtain ⟨hmi, rfl⟩ | ⟨rfl, hp⟩ | ⟨rfl, rfl⟩ | ⟨rfl, rfl⟩ := hp
  all_goals obtain ⟨hni, rfl⟩ | ⟨rfl, hq⟩ | ⟨rfl, rfl⟩ | ⟨rfl, rfl⟩ := hq
  all_goals simp_all

/-- The result of an operation on numbers is of the type that is inferred for it. -/
private theorem isSubtype_arithmeticType {op : ArithmeticOp} {m n p q : AtomicType} (hm : m.isNumeric)
    (hn : n.isNumeric) (hop : op = .integerDivide → m.derivesFrom .decimal ∧ n.derivesFrom .decimal)
    (hp : m.Computes p) (hq : n.Computes q) :
    (atomic (resultType op p q)).isSubtype (arithmeticType op (atomic m) (atomic n)) := by
  rw [arithmeticType_numeric op hm hn]
  obtain ⟨rfl, rfl, hc⟩ | ⟨hp, hq, hc⟩ | ⟨hno, hc⟩ := common_of_computes hp hq hm hn
  · cases op <;> simp [hc, resultType] <;> rfl
  · obtain rfl | rfl := hp <;> obtain rfl | rfl := hq <;> cases op <;> simp [hc, resultType] <;> decide
  · have hdiv : op ≠ .integerDivide := fun heq => hno (hop heq)
    obtain ⟨rfl, rfl, hc⟩ | ⟨rfl, rfl, hc⟩ | hc := hc
    · cases op <;> simp [hc, resultType] at hdiv ⊢ <;> rfl
    · cases op <;> simp [hc, resultType] at hdiv ⊢ <;> rfl
    · have hany : (resultType op p q).derivesFrom .anyAtomicType := by
        unfold resultType
        (repeat' split) <;> rfl
      cases op <;> simp [hc] at hdiv ⊢ <;> exact hany

theorem covers_arithmetic {op : ArithmeticOp} (ha : a.IsProper) (hb : b.IsProper)
    (has : a.type.derivesFrom s.numericType) (hbt : b.type.derivesFrom t.numericType)
    (hop : DividesExactly op s t) (h : arithmetic op a b = .ok v) :
    v.IsProper ∧ (arithmeticType op s t).Covers f (.atomic v) := by
  have hv := isProper_arithmetic h
  refine ⟨hv, ?_⟩
  obtain hany | ⟨m, rfl, hm, hmnum⟩ := s.numericType_eq
  · simpa [arithmeticType, hany] using covers_atomic (f := f) hv.isAtomic
  · obtain hany | ⟨n, rfl, hn, hnnum⟩ := t.numericType_eq
    · simpa [arithmeticType, hany] using covers_atomic (f := f) hv.isAtomic
    · rw [hm] at has
      rw [hn] at hbt
      obtain ⟨hanum, hp⟩ := computedAs_of_type ha has hmnum
      obtain ⟨hbnum, hq⟩ := computedAs_of_type hb hbt hnnum
      have hdiv : op = .integerDivide → m.derivesFrom .decimal ∧ n.derivesFrom .decimal := fun heq => by
        simpa [hm, hn] using hop heq hmnum hnnum
      have htype := isSubtype_arithmeticType hmnum hnnum hdiv hp hq
      rw [← (arithmetic_of_numbers hanum hbnum h).2] at htype
      exact covers_of_isSubtype htype (covers_atomic v.type.derivesFrom_refl)

end ItemType
end XPath
