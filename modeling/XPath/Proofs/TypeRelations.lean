import XPath.Proofs.Subtypes
import XPath.Proofs.Reading

/-!
The relations between types against the items that are of a type. Subtypes and common types are always right.
Types that share a sequence overlap unless the empty namespace is written in two ways, as no namespace and as an
empty URI: then both are matched by the same nodes, but the names are told apart.
-/
namespace XPath

namespace AtomicType

theorem derivesFrom_comparable_all :
    ∀ a ∈ all, ∀ b ∈ a.ancestors, ∀ c ∈ a.ancestors, b.derivesFrom c ∨ c.derivesFrom b := by
  decide +kernel

/-- The types that a type derives from are in a line. -/
theorem derivesFrom_comparable {a b c : AtomicType} (hb : a.derivesFrom b) (hc : a.derivesFrom c) :
    b.derivesFrom c ∨ c.derivesFrom b :=
  derivesFrom_comparable_all a a.mem_all b (List.contains_iff_mem.1 hb) c (List.contains_iff_mem.1 hc)

end AtomicType

namespace Cardinality
variable {a b : Cardinality} {n : ℕ}

theorem allows_of_contains (h : a.contains b) (hn : b.allows n) : a.allows n := by
  cases a <;> cases b <;> grind [contains, allows, bounds]

theorem overlaps_of_allows (ha : a.allows n) (hb : b.allows n) : a.overlaps b := by
  cases a <;> cases b <;> grind [overlaps, allows, bounds]

theorem allowsEmpty_of_allows (h : a.allows 0) : a.allowsEmpty := by
  cases a <;> first | rfl | cases h

theorem eq_zero_of_allows (h : empty.allows n) : n = 0 := by
  simpa [allows, bounds] using h

end Cardinality

/-- No namespace is written as an empty URI. -/
def QName.IsPlain (n : QName) : Prop := n.uri ≠ some ""

theorem QName.toName_eq {m n : QName} (hm : m.IsPlain) (hn : n.IsPlain) (h : m.nodeName = n.nodeName) :
    m.toName = n.toName := by
  obtain ⟨⟨ml, mu⟩, mp⟩ := m
  obtain ⟨⟨nl, nu⟩, np⟩ := n
  obtain ⟨rfl, huri⟩ := NodeName.mk.inj h
  cases mu <;> cases nu <;> simp_all [IsPlain]

namespace NameAndType
variable {s t : NameAndType} {c : Content}

def IsPlain (t : NameAndType) : Prop := ∀ n, t.name = some n → n.IsPlain

theorem overlaps_of_holds (hs : s.IsPlain) (ht : t.IsPlain) (hsc : s.holds c) (htc : t.holds c) : s.overlaps t := by
  obtain ⟨hs₁, -⟩ := Bool.and_eq_true_iff.1 hsc
  obtain ⟨ht₁, -⟩ := Bool.and_eq_true_iff.1 htc
  unfold overlaps
  cases hm : s.name with
  | none => rfl
  | some m =>
    cases hn : t.name with
    | none => rfl
    | some n =>
      rw [hm] at hs₁
      rw [hn] at ht₁
      have hnode : m.nodeName = n.nodeName := Option.some.inj ((eq_of_beq hs₁).symm.trans (eq_of_beq ht₁))
      have hname : m.toName = n.toName := QName.toName_eq (hs m hm) (ht n hn) hnode
      simp [sameName, hname]

end NameAndType

namespace KindTest
variable {k l : KindTest} {t : Tree}

/-- The name that a test asks for, with the type. -/
def argument? : KindTest → Option NameAndType
  | document a => a
  | element a | attr a => some a
  | _ => none

def IsPlain (k : KindTest) : Prop := ∀ a, k.argument? = some a → a.IsPlain

theorem isPlain_of_argument? (h : k.argument? = none) : k.IsPlain := fun a ha => by simp [h] at ha

theorem isPlain_argument {a : NameAndType} (h : k.argument? = some a) (ha : a.IsPlain) : k.IsPlain :=
  fun _ hb => Option.some.inj (h.symm.trans hb) ▸ ha

theorem overlaps_of_holds (hk : k.IsPlain) (hl : l.IsPlain) (hkt : k.holds t) (hlt : l.holds t) : k.overlaps l := by
  unfold overlaps
  split
  · rfl
  · rfl
  · next a b =>
    obtain ⟨-, ha⟩ := holds_document.1 hkt
    obtain ⟨-, hb⟩ := holds_document.1 hlt
    obtain ⟨u, hu, hau⟩ := Option.any_eq_true .. |>.1 (ha a rfl)
    obtain ⟨v, hv, hbv⟩ := Option.any_eq_true .. |>.1 (hb b rfl)
    cases hu.symm.trans hv
    exact NameAndType.overlaps_of_holds (hk a rfl) (hl b rfl) hau hbv
  · rfl
  · next a b =>
    obtain ⟨m, hm, ha⟩ := holds_element.1 hkt
    obtain ⟨n, hn, hb⟩ := holds_element.1 hlt
    cases hm.symm.trans hn
    exact NameAndType.overlaps_of_holds (hk a rfl) (hl b rfl) ha hb
  · next a b =>
    obtain ⟨m, v, hm, ha⟩ := holds_attr.1 hkt
    obtain ⟨n, w, hn, hb⟩ := holds_attr.1 hlt
    cases hm.symm.trans hn
    exact NameAndType.overlaps_of_holds (hk a rfl) (hl b rfl) ha hb
  · next a b =>
    obtain ⟨m, v, hm, ha⟩ := holds_instruction.1 hkt
    obtain ⟨n, w, hn, hb⟩ := holds_instruction.1 hlt
    cases hm.symm.trans hn
    cases a with
    | none => rfl
    | some a =>
      cases b with
      | none => simp
      | some b => simp [ha a rfl, hb b rfl]
  · rfl
  · rfl
  · rfl
  · -- Nothing is of two different kinds.
    unfold holds at hkt hlt
    cases hc : t.content <;> rw [hc] at hkt hlt <;> cases k <;> try cases hkt
    all_goals
      cases l <;> try cases hlt
    all_goals simp_all

end KindTest

namespace ItemType
variable {s t : ItemType} {f : Forest} {x : Item}

def IsPlain (t : ItemType) : Prop := ∀ k, t = node k → k.IsPlain

theorem isPlain_of_isNode (h : ¬ t.isNode) : t.IsPlain := by
  rintro k rfl
  exact absurd rfl h

theorem isPlain_node {k : KindTest} (h : k.IsPlain) : (node k).IsPlain := fun _ hl => node.inj hl ▸ h

theorem holds_node {k : KindTest} : (node k).holds f x ↔ ∃ i u, x = .node i ∧ f.node? i = some u ∧ k.holds u := by
  cases x with
  | atomic a => simp [holds]
  | node i => simp [holds, Option.any_eq_true]

theorem holds_atomic {b : AtomicType} : (atomic b).holds f x ↔ ∃ a, x = .atomic a ∧ a.type.derivesFrom b := by
  cases x with
  | atomic a => simp [holds]
  | node i => simp [holds]

theorem not_holds_imported {n : QName} : ¬ (imported n).holds f x := by cases x <;> simp [holds]

theorem not_holds_foreign {n : String} : ¬ («foreign» n).holds f x := by cases x <;> simp [holds]

theorem holds_of_isSubtype (h : s.isSubtype t) (hx : s.holds f x) : t.holds f x := by
  cases t with
  | item => rfl
  | atomic b =>
    cases s with
    | atomic a =>
      obtain ⟨v, rfl, hv⟩ := holds_atomic.1 hx
      exact AtomicType.derivesFrom_trans hv h
    | imported n => exact absurd hx not_holds_imported
    | _ => cases h
  | node l =>
    cases s with
    | node k =>
      obtain ⟨i, u, rfl, hu, hk⟩ := holds_node.1 hx
      exact holds_node.2 ⟨i, u, rfl, hu, KindTest.holds_of_isSubtype h hk⟩
    | _ => cases h
  | imported n =>
    cases s with
    | imported m => exact absurd hx not_holds_imported
    | _ => cases h
  | «foreign» n =>
    cases s with
    | «foreign» m => exact absurd hx not_holds_foreign
    | _ => cases h

theorem overlaps_of_holds (hs : s.IsPlain) (ht : t.IsPlain) (hsx : s.holds f x) (htx : t.holds f x) :
    s.overlaps t := by
  cases s with
  | item => rfl
  | imported n => exact absurd hsx not_holds_imported
  | «foreign» n => exact absurd hsx not_holds_foreign
  | atomic a =>
    obtain ⟨v, rfl, hv⟩ := holds_atomic.1 hsx
    cases t with
    | item => rfl
    | atomic b => exact Bool.or_eq_true_iff.2 (AtomicType.derivesFrom_comparable hv htx)
    | _ => cases htx
  | node k =>
    obtain ⟨i, u, rfl, hu, hk⟩ := holds_node.1 hsx
    cases t with
    | item => rfl
    | node l =>
      obtain ⟨_, v, ⟨⟩, hv, hl⟩ := holds_node.1 htx
      cases hu.symm.trans hv
      exact KindTest.overlaps_of_holds (hs k rfl) (ht l rfl) hk hl
    | _ => cases htx

/-- An atomic item is of the type of all atomic items. -/
theorem holds_anyAtomicType (hx : ∀ a, x = .atomic a → a.IsProper) (h : t.isAtomic) (ht : t.holds f x) :
    (atomic .anyAtomicType).holds f x := by
  cases t with
  | atomic b =>
    obtain ⟨a, rfl, -⟩ := holds_atomic.1 ht
    exact (hx a rfl).isAtomic
  | imported n => exact absurd ht not_holds_imported
  | _ => cases h

theorem holds_common (hx : ∀ a, x = .atomic a → a.IsProper) (h : s.holds f x ∨ t.holds f x) :
    (s.common t).holds f x := by
  unfold common
  split
  · next hst => exact h.elim (holds_of_isSubtype hst) id
  · split
    · next hts => exact h.elim id (holds_of_isSubtype hts)
    · split
      · next a b _ _ =>
        obtain ⟨ha, hb⟩ := AtomicType.derivesFrom_common a b
        exact h.elim (holds_of_isSubtype ha) (holds_of_isSubtype hb)
      · next k l _ _ =>
        obtain ⟨hk, hl⟩ := KindTest.isSubtype_common k l
        exact h.elim (holds_of_isSubtype hk) (holds_of_isSubtype hl)
      · split
        · next hboth =>
          obtain ⟨hs, ht⟩ := Bool.and_eq_true_iff.1 hboth
          exact h.elim (holds_anyAtomicType hx hs) (holds_anyAtomicType hx ht)
        · rfl

end ItemType

namespace SequenceType
variable {s t : SequenceType} {f : Forest} {xs : List Item}

def IsPlain (t : SequenceType) : Prop := t.item.IsPlain

theorem holds_of_isSubtype (h : s.isSubtype t) (hs : s.holds f xs) : t.holds f xs := by
  obtain ⟨hcount, hitem⟩ := Bool.and_eq_true_iff.1 h
  obtain ⟨hlength, hall⟩ := Bool.and_eq_true_iff.1 hs
  refine Bool.and_eq_true_iff.2 ⟨Cardinality.allows_of_contains hcount hlength, ?_⟩
  obtain hempty | hitem := Bool.or_eq_true_iff.1 hitem
  · rw [eq_of_beq hempty] at hlength
    rw [List.length_eq_zero_iff.1 (Cardinality.eq_zero_of_allows hlength)]
    rfl
  · exact List.all_eq_true.2 fun x hx => ItemType.holds_of_isSubtype hitem (List.all_eq_true.1 hall x hx)

theorem overlaps_of_holds (hs : s.IsPlain) (ht : t.IsPlain) (hsx : s.holds f xs) (htx : t.holds f xs) :
    s.overlaps t := by
  obtain ⟨hslength, hsall⟩ := Bool.and_eq_true_iff.1 hsx
  obtain ⟨htlength, htall⟩ := Bool.and_eq_true_iff.1 htx
  refine Bool.and_eq_true_iff.2 ⟨Cardinality.overlaps_of_allows hslength htlength, Bool.or_eq_true_iff.2 ?_⟩
  obtain _ | ⟨x, xs⟩ := xs
  · exact .inl (Bool.and_eq_true_iff.2
      ⟨Cardinality.allowsEmpty_of_allows hslength, Cardinality.allowsEmpty_of_allows htlength⟩)
  · exact .inr (ItemType.overlaps_of_holds hs ht (List.all_eq_true.1 hsall x List.mem_cons_self)
      (List.all_eq_true.1 htall x List.mem_cons_self))

end SequenceType

/-! Types that are read are plain if no namespace in scope is. -/

/-- No declaration in scope is of the empty URI. -/
structure Namespaces.IsPlain (ns : Namespaces) : Prop where
  prefixes p u : (p, u) ∈ ns.prefixes → u ≠ ""
  element : ns.element ≠ some ""
  function : ns.function ≠ some ""

theorem Namespaces.isPlain_default : ({} : Namespaces).IsPlain where
  prefixes p u h := (by decide : ∀ q ∈ ({} : Namespaces).prefixes, q.2 ≠ "") (p, u) h
  element := nofun
  function := by decide

theorem QName.isPlain_withDefault {uri : Option String} (huri : uri ≠ some "") (s : String) :
    ((QName.unprefixed s).withDefault uri).IsPlain := by
  cases uri with
  | none => exact nofun
  | some u => exact huri

theorem QName.isPlain_uriQualified (u s : String) : (QName.uriQualified u s).IsPlain := by
  unfold uriQualified IsPlain
  split
  · exact nofun
  · next h => simpa [String.isEmpty_iff] using h

namespace Parser
variable {α β : Type} {p : Parser α} {P : α → Prop} {Q : β → Prop}

/-- What the parser gives has the property if no namespace in scope is the empty URI. -/
def Gives (P : α → Prop) (p : Parser α) : Prop :=
  ∀ c s, c.static.namespaces.IsPlain → Ensures c p s fun a _ => P a

namespace Gives

theorem any (p : Parser α) : Gives (fun _ => True) p := fun _ _ _ _ _ _ => trivial

theorem pure {a : α} (h : P a) : Gives P (pure a) := fun _ _ _ => .pure h

theorem fails (h : Fails p) : Gives P p := fun _ _ _ => h.ensures

theorem bind {f : α → Parser β} (hp : Gives P p) (hf : ∀ a, P a → Gives Q (f a)) : Gives Q (p >>= f) :=
  fun c s hc => .bind ((hp c s hc).imp fun a s' ha => hf a ha c s' hc)

/-- Whatever the first parser gives. -/
theorem after {f : α → Parser β} (hf : ∀ a, Gives Q (f a)) : Gives Q (p >>= f) := (any p).bind fun a _ => hf a

theorem ite {b : Prop} [Decidable b] {q : Parser α} (hp : Gives P p) (hq : Gives P q) :
    Gives P (if b then p else q) := by
  split
  · exact hp
  · exact hq

theorem map (hp : Gives P p) {g : α → β} (hg : ∀ a, P a → Q (g a)) : Gives Q (g <$> p) := by
  rw [← bind_pure_comp]
  exact hp.bind fun a ha => pure (hg a ha)

end Gives

theorem gives_static : Gives (fun static => static.namespaces.IsPlain) static := fun _ _ hc =>
  .bind (.read (.pure hc))

theorem gives_resolvePrefix (pfx : String) (l : Lexeme) : Gives (· ≠ "") (resolvePrefix pfx l) := by
  refine gives_static.bind fun static hns => ?_
  split
  · next u hu =>
    obtain ⟨before, after, hmem, -⟩ := List.lookup_eq_some_iff.1 hu
    exact .pure (hns.prefixes pfx u (hmem ▸ List.mem_append_right before List.mem_cons_self))
  · exact .fails (fails_failAt _ _ _)

theorem gives_qname (default : NameDefault) : Gives (fun r => r.1.IsPlain) (qname default) := by
  refine .after fun o => ?_
  split
  · refine gives_static.bind fun static hns => ?_
    dsimp only
    split
    · refine .after fun _ => .pure (QName.isPlain_withDefault ?_ _)
      cases default with
      | element => exact hns.element
      | function => exact hns.function
      | none => exact nofun
    · exact .after fun _ => (gives_resolvePrefix _ _).bind fun u hu => .pure fun h => hu (Option.some.inj h)
    · exact .after fun _ => .pure (QName.isPlain_uriQualified _ _)
    · exact .fails (fails_expected _)
  · exact .fails (fails_expected _)

theorem gives_nameAndType (default : NameDefault) : Gives NameAndType.IsPlain (nameAndType default) := by
  have hrest (name : Option QName) (hname : ∀ n, name = some n → n.IsPlain) : Gives NameAndType.IsPlain (do
      if ← eatSymbol .comma then
        let r ← qname .element
        let _ ← eatSymbol .question
        return { name, typeName := some r.1 }
      return { name }) :=
    .after fun _ => .ite (.after fun _ => .after fun _ => .pure hname) (.pure hname)
  refine .after fun _ => .ite (.pure nofun) (.after fun _ => .ite ?_ ?_)
  · exact hrest none nofun
  · exact (gives_qname default).bind fun r hr => hrest (some r.1) fun n hn => Option.some.inj hn ▸ hr

theorem gives_kindTest : Gives KindTest.IsPlain kindTest := by
  have hclose (k : KindTest) (hk : k.IsPlain) :
      Gives KindTest.IsPlain (expectSymbol .rightParen >>= fun _ => pure k) := .after fun _ => .pure hk
  have harguments {default : NameDefault} {g : NameAndType → KindTest} (hg : ∀ a, (g a).argument? = some a) :
      Gives KindTest.IsPlain (g <$> nameAndType default) :=
    (gives_nameAndType default).map fun a ha => KindTest.isPlain_argument (hg a) ha
  refine .after fun o => ?_
  split
  · refine .after fun _ => .after fun _ => ?_
    dsimp only
    split
    · exact hclose .anyNode (KindTest.isPlain_of_argument? rfl)
    · exact hclose .text (KindTest.isPlain_of_argument? rfl)
    · exact hclose .comment (KindTest.isPlain_of_argument? rfl)
    · exact hclose .namespaceNode (KindTest.isPlain_of_argument? rfl)
    · exact (harguments fun _ => rfl).bind hclose
    · exact (harguments fun _ => rfl).bind hclose
    · refine .after fun _ => .ite (.after fun _ => ?_) (hclose _ (KindTest.isPlain_of_argument? rfl))
      refine (gives_nameAndType _).bind fun a ha => .after fun _ => ?_
      exact hclose _ (KindTest.isPlain_argument rfl ha)
    · exact ((Gives.any _).map fun _ _ => KindTest.isPlain_of_argument? rfl).bind hclose
    · exact (Gives.fails (fails_failAt _ _ _)).bind hclose
  · exact .fails (fails_expected _)

theorem gives_resolveAtomicType (n : QName) (l : Lexeme) : Gives ItemType.IsPlain (resolveAtomicType n l) := by
  unfold resolveAtomicType
  split
  · exact .fails (fails_failAt _ _ _)
  · have hplain {t : ItemType} (ht : ¬ t.isNode) : Gives ItemType.IsPlain (pure t : Parser ItemType) :=
      .pure (ItemType.isPlain_of_isNode ht)
    refine .ite (.after fun t => .ite (hplain Bool.false_ne_true) (.fails (fails_failAt _ _ _))) (.ite (hplain Bool.false_ne_true) ?_)
    exact .after fun _ => .ite (hplain Bool.false_ne_true) (.fails (fails_failAt _ _ _))

theorem gives_itemType : Gives ItemType.IsPlain itemType := by
  have hname : Gives ItemType.IsPlain (do
      if ← checkNthSymbol 1 .leftParen then fail .unsupported .unsupportedType
      let p ← qname .element
      resolveAtomicType p.1 p.2) :=
    .after fun _ => .ite (.after fun _ => .after fun r => gives_resolveAtomicType _ _)
      (.after fun r => gives_resolveAtomicType _ _)
  refine .after fun _ => .ite (gives_kindTest.bind fun k hk => .pure (ItemType.isPlain_node hk)) ?_
  refine .after fun _ => .after fun _ => .ite (.after fun _ => .after fun _ => .after fun _ => .pure ?_) ?_
  · exact ItemType.isPlain_of_isNode Bool.false_ne_true
  exact .after fun _ => .ite hname (.after fun _ => hname)

theorem gives_sequenceType : Gives SequenceType.IsPlain sequenceType := by
  have hoccurs : Gives SequenceType.IsPlain (do return ⟨← itemType, ← occurrence⟩) :=
    gives_itemType.bind fun t ht => .after fun _ => .pure ht
  refine .after fun _ => .after fun _ => .ite ?_ hoccurs
  exact .after fun _ => .after fun _ => .after fun _ => .pure (ItemType.isPlain_of_isNode Bool.false_ne_true)

end Parser

namespace SequenceType

/-- A type that is read where no namespace in scope is the empty URI is plain. -/
theorem isPlain_parse {text : String} {context : StaticContext} {t : SequenceType}
    (hns : context.namespaces.IsPlain) (h : parse text context = .ok t) : t.IsPlain := by
  have hgives : Parser.Gives SequenceType.IsPlain (do
      let t ← Parser.sequenceType
      Parser.expectTerminator .endOfInput
      return t) := Parser.gives_sequenceType.bind fun t ht => .after fun _ => .pure ht
  exact (hgives _ _ hns).of_run h

/-- The relations between types are right about all sequences, in every state of the trees. For overlaps the types
have to be plain, as those are that are read where no namespace in scope is the empty URI. -/
theorem relations_hold (f : Forest) :
    (∀ s t : SequenceType, s.isSubtype t → ∀ xs, s.holds f xs → t.holds f xs) ∧
      (∀ s t : SequenceType, s.IsPlain → t.IsPlain → ∀ xs, s.holds f xs → t.holds f xs → s.overlaps t) ∧
      (∀ text context s, context.namespaces.IsPlain → parse text context = .ok s → s.IsPlain) ∧
      ∀ (s t : ItemType) (x : Item), (∀ a, x = .atomic a → a.IsProper) → s.holds f x ∨ t.holds f x →
        (s.common t).holds f x :=
  ⟨fun _ _ h _ => holds_of_isSubtype h, fun _ _ hs ht _ => overlaps_of_holds hs ht,
    fun _ _ _ => isPlain_parse, fun _ _ _ => ItemType.holds_common⟩

/-- Trees with one element `a`. -/
def loneElement : Forest := { next := 1, trees := [.node 0 (.element ⟨"a", ""⟩) []] }

theorem relations_hold_element :
    let s := one (.node (.element { name := some ⟨⟨"a", none⟩, none⟩ }))
    any.holds loneElement [.node 0] ∧ s.overlaps any ∧ (s.item.common (.node .text)).holds loneElement (.node 0) := by
  intro s
  obtain ⟨hsubtype, hoverlap, hplain, hcommon⟩ := relations_hold loneElement
  have hs : s.holds loneElement [.node 0] := by decide +kernel
  have hany := hsubtype s any rfl [.node 0] hs
  have hread : parse "element(a)" {} = .ok s := by cbv
  have hs' := hplain _ _ s Namespaces.isPlain_default hread
  have hproper : ∀ a, Item.node 0 = .atomic a → a.IsProper := fun _ h => Item.noConfusion h
  exact ⟨hany, hoverlap s any hs' (ItemType.isPlain_of_isNode Bool.false_ne_true) _ hs hany,
    hcommon _ _ _ hproper (.inl (by decide +kernel))⟩

/-- Where the default element namespace is declared as none, by an empty URI, a name and the same name with an
empty URI in braces are of the same elements, but their tests do not overlap. -/
theorem overlaps_misses :
    let context : StaticContext := { namespaces := ({} : Namespaces).add "" "" }
    ∃ s t : SequenceType, parse "element(a)" context = .ok s ∧ parse "element(Q\x7b\x7da)" context = .ok t ∧
      s.holds loneElement [.node 0] ∧ t.holds loneElement [.node 0] ∧ ¬ s.overlaps t := by
  refine ⟨one (.node (.element { name := some ⟨⟨"a", some ""⟩, none⟩ })),
    one (.node (.element { name := some ⟨⟨"a", none⟩, none⟩ })), ?_, ?_, ?_, ?_, ?_⟩
  · cbv
  · cbv
  all_goals decide +kernel

end SequenceType
end XPath
