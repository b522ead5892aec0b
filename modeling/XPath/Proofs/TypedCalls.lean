import XPath.Proofs.Calls
import XPath.Proofs.TypedOperators

/-!
What the built-in functions give in the regime of types. Only the second argument of a sum, which is
given as it is, need not be of the type of the signature.
-/
namespace XPath

/-- Keys lead to nodes that there are. -/
def DynamicContext.FindsNodes (c : DynamicContext) : Prop :=
  ∀ resolve, c.keys = some resolve → ∀ (f : Forest) name value root is,
    resolve f name value root = .ok is → ∀ i ∈ is, i ∈ Tree.idsOf f.trees

/-- The second argument of a sum is atomic, or it is never there. -/
def NaryOp.KeepsType (op : NaryOp) (args : List StaticInfo) : Prop :=
  ∀ a b rest, op = .call (.builtin .sum) → args = a :: b :: rest →
    b.item.isAtomic ∨ b.cardinality = .empty

namespace Regime
variable {k : typing.Stage} {f : Frame} {t : SequenceType}

/-- The context item is one that there can be. -/
def FocusKnown (k : typing.Stage) (f : Frame) : Prop := ∀ x, f.focus = some x → known.holds k x.item

theorem FocusKnown.later {l : typing.Stage} (h : FocusKnown k f) (hl : typing.le k l) :
    FocusKnown l f :=
  fun x hx => known.later hl (h x hx)

theorem runs_contextItem_known (h : FocusKnown k f) : Runs k f.contextItem known.holds := by
  refine runs_require fun m x hm hx => ?_
  obtain ⟨fo, hfo, rfl⟩ := Option.map_eq_some_iff.1 hx
  exact known.later hm (h fo hfo)

/-- Whatever there can be is an item. -/
theorem has_any {x : Item} (h : known.holds k x) : SequenceType.any.Has k.forest x :=
  ⟨le_top, h, ItemType.covers_item k.forest x⟩

theorem has_value {v : Atomic} (hm : 1 ≤ t.cardinality.most) (ht : t.item = .atomic .anyAtomicType)
    (hv : v.IsProper) : t.Has k.forest (.atomic v) :=
  has_atomic hm hv (ht ▸ ItemType.covers_atomic hv.isAtomic)

theorem hasAll_values {vs : List Atomic} (hm : 1 ≤ t.cardinality.most)
    (ht : t.item = .atomic .anyAtomicType) (h : ∀ v ∈ vs, v.IsProper) :
    HasAll t k (vs.map .atomic) := by
  refine hasAll_iff.2 fun x hx => ?_
  obtain ⟨v, hv, rfl⟩ := List.mem_map.1 hx
  exact has_value hm ht (h v hv)

theorem known_of_mem {g : Forest} (hg : g.IsSound) {u : Tree} (h : u ∈ g.nodes) :
    (Item.node u.id).IsKnown g :=
  hg.lt_next h

theorem foldlM_proper {as : List Atomic} {a v : Atomic} (ha : a.IsProper)
    (h : as.foldlM (fun a b => a.arithmetic .add b) a = .ok v) : v.IsProper := by
  induction as generalizing a with
  | nil =>
    cases h
    exact ha
  | cons b as ih =>
    rw [List.foldlM_cons] at h
    cases hb : a.arithmetic .add b with
    | error e =>
      rw [hb] at h
      cases h
    | ok c =>
      rw [hb] at h
      exact ih (Atomic.isProper_arithmetic hb) h

end Regime

namespace Call.Site
open Regime

variable {k : typing.Stage}

/-- A call whose arguments are of their types. -/
structure Typed (k : typing.Stage) (s : Site) (is : List StaticInfo) : Prop where
  args : List.Forall₂ (fun a i => Regime.Typed k a s.frame i.type) s.args is
  focus : FocusKnown k s.frame

namespace Typed
variable {s : Site} {is : List StaticInfo} {t : SequenceType}

theorem later {l : typing.Stage} (h : s.Typed k is) (hl : typing.le k l) : s.Typed l is :=
  ⟨h.args.imp fun _ _ ha => ha.later hl, h.focus.later hl⟩

theorem arg (h : s.Typed k is) (n : ℕ) : Regime.Typed k (s.arg n) s.frame (typeOfArg is n) := by
  unfold Site.arg typeOfArg
  rw [List.getD_eq_getElem?_getD]
  cases ha : s.args[n]? with
  | some a =>
    obtain ⟨hlt, rfl⟩ := List.getElem?_eq_some_iff.1 ha
    have hlt' : n < is.length := h.args.length_eq ▸ hlt
    simpa [hlt'] using h.args.get hlt hlt'
  | none => exact .ofItems _ yields_empty

/-- Of which no more is said than that they end well. -/
theorem sound (h : s.Typed k is) : s.Sound k (is.map fun _ => {}) :=
  ⟨List.forall₂_map_right_iff.2 (h.args.imp fun _ _ ha => ha.sound)⟩

theorem list (h : s.Typed k is) (n : ℕ) : Runs k (s.list n) fun l xs => HasAll (typeOfArg is n) l xs :=
  (h.arg n).toList

theorem numbers (h : s.Typed k is) : Runs k s.numbers fun _ vs => ∀ v ∈ vs, v.IsProper := by
  refine (((h.arg 0).values.mapM (S := .always typing Atomic.IsProper) fun _ a _ ha => ?_).toList).imp
    fun _ _ _ hvs => hvs.each
  refine (runs_ofExcept (Q := fun _ v => v.IsProper) fun _ v _ hv =>
    Atomic.isProper_untypedToDouble ha.proper hv).bind fun _ b _ hb => ?_
  split
  · exact runs_pure fun _ _ => hb
  · exact runs_fail _

theorem runs_total {a : Atomic} (as : List Atomic) (ha : a.IsProper) :
    Runs k (total a as) fun _ v => v.IsProper :=
  runs_ofExcept fun _ _ _ hv => foldlM_proper ha hv

theorem hasAll_optional {o : Option Atomic} (hm : 1 ≤ t.cardinality.most)
    (ht : t.item = .atomic .anyAtomicType) (h : ∀ v, o = some v → v.IsProper) :
    HasAll t k (optional o) := by
  cases o with
  | none => exact hasAll_nil
  | some v => exact hasAll_singleton (has_value hm ht (h v rfl))

theorem sum (h : s.Typed k is) (hm : 1 ≤ t.cardinality.most) (ht : t.item = .atomic .anyAtomicType)
    (hsecond : 2 ≤ s.args.length → Widens (typeOfArg is 1) t) :
    Runs k s.sum fun l xs => HasAll t l xs := by
  apply h.numbers.bind
  intro m vs hl hvs
  split
  · next v vs =>
    exact (runs_total vs (hvs v List.mem_cons_self)).bind fun _ w _ hw => runs_pure fun _ _ =>
      hasAll_optional hm ht fun u hu => by cases hu; exact hw
  · split
    · exact runs_pure fun _ _ => hasAll_singleton (has_value hm ht rfl)
    · next hlen =>
      exact ((h.later hl).list 1).imp fun _ _ _ hxs =>
        HasAll.widens hxs (hsecond (Nat.le_of_not_lt hlen))

theorem average (h : s.Typed k is) :
    Runs k s.average fun l xs => HasAll (.atomic .anyAtomicType .zeroOrOne) l xs := by
  apply h.numbers.bind
  intro m vs hl hvs
  split
  · next v vs =>
    refine (runs_total vs (hvs v List.mem_cons_self)).bind fun _ w _ hw => ?_
    refine (runs_ofExcept (Q := fun _ u => u.IsProper) fun _ u _ hu =>
      Atomic.isProper_arithmetic hu).bind fun _ u _ hu => runs_pure fun _ _ => ?_
    exact hasAll_optional le_rfl rfl fun x hx => by cases hx; exact hu
  · exact runs_pure fun _ _ => hasAll_nil

/-- What is found is one of the values. -/
theorem extreme (h : s.Typed k is) (op : ComparisonOp) :
    Runs k (s.extreme op) fun l xs => HasAll (.atomic .anyAtomicType .zeroOrOne) l xs := by
  let best : typing.Known (Option Atomic) := .always typing fun o => ∀ v, o = some v → v.IsProper
  have hone {l : typing.Stage} {v : Atomic} (hv : v.IsProper) : best.holds l (some v) := by
    intro u hu
    cases hu
    exact hv
  have hnone : best.holds k none := by
    intro v hv
    cases hv
  unfold Call.Site.extreme
  refine Runs.bind (Q := best.holds) ?_ fun _ o _ ho => runs_pure fun _ _ => hasAll_optional le_rfl rfl ho
  refine (h.arg 0).values.forIn (fun _ => best) hnone (fun l _ _ found a _ hfound ha _ _ => ?_)
    fun _ _ _ ho => ho
  · refine (runs_ofExcept (Q := fun _ v => v.IsProper) fun _ v _ hv =>
      Atomic.isProper_untypedToDouble ha.proper hv).bind fun _ b _ hb => ?_
    split
    · exact runs_pure fun _ _ => hone hb
    · split
      · exact runs_pure fun _ _ => hone hb
      · refine (runs_ofExcept_any _).bind fun _ c _ _ => runs_pure fun _ _ => ?_
        cases c with
        | true => exact hone hb
        | false => exact hfound

theorem distinct (h : s.Typed k is) :
    Runs k s.distinct fun l xs => HasAll (.atomic .anyAtomicType .zeroOrMore) l xs := by
  let all : typing.Known (List Atomic) := .always typing fun vs => ∀ v ∈ vs, v.IsProper
  have hall := (h.arg 0).values.forIn (fun _ => all) (b := []) (Q := all.holds)
    (f := fun found a =>
      let seen := found.any fun b => (b.isNaN && a.isNaN)
        || (b.compareValues .eq a).toOption.getD Bool.false
      return .yield (if seen then found else a :: found))
    (List.forall_mem_nil _) (fun l _ _ found a _ hfound ha _ _ => ?_) fun _ _ _ hvs => hvs
  · exact hall.bind fun _ vs _ hvs => runs_pure fun _ _ =>
      hasAll_values le_top rfl fun v hv => hvs v (List.mem_reverse.1 hv)
  · apply runs_pure
    intro _ _
    dsimp only
    split
    · exact hfound
    · exact List.forall_mem_cons.2 ⟨ha.proper, hfound⟩

theorem byId (h : s.Typed k is) :
    Runs k s.byId fun l xs => HasAll ⟨.node (.element {}), .zeroOrMore⟩ l xs := by
  apply (h.sound.texts 0).bind
  intro m _ hm _
  apply ((h.sound.later hm).target 1).bind
  intro m₁ i _ _
  apply runs_forest_eq.bind
  intro m₂ g _ hg
  subst hg
  refine (runs_require (Q := fun _ root => root ∈ m₂.forest.trees) fun _ root _ hroot => ?_).bind
    fun m₃ root hm₃ hroot => runs_pure fun m₄ hm₄ => ?_
  · exact Forest.root?_mem (Option.mem_filter_iff.1 hroot).1
  · refine Fits.later (k := m₂) (hasAll_iff.2 fun x hx => ?_) (typing.trans hm₃ hm₄)
    obtain ⟨u, hu, rfl⟩ := List.mem_map.1 hx
    obtain ⟨hmem, hkind⟩ := List.mem_filter.1 hu
    have hnode : u ∈ m₂.forest.nodes :=
      Forest.mem_nodes_trans (Forest.mem_nodes_of_root hroot) hmem
    refine ⟨le_top, known_of_mem m₂.sound hnode, ItemType.covers_node (m₂.sound.node?_eq hnode) ?_⟩
    have helement := (Bool.and_eq_true_iff.1 hkind).1
    cases hc : u.content with
    | element n => exact KindTest.holds_element.2 ⟨n, hc, rfl⟩
    | _ => simp [hc, Content.isElement] at helement

theorem byKey (h : s.Typed k is) {c : DynamicContext} (hc : c.FindsNodes) :
    Runs k (s.byKey c) fun l xs => HasAll ⟨.anyNode, .zeroOrMore⟩ l xs := by
  apply (h.sound.text 0).bind
  intro m _ hm _
  apply (runs_require_any _ _).bind
  intro m₁ name hm₁ _
  refine (runs_require (Q := fun _ r => c.keys = some r) fun _ r _ hr => hr).bind fun m₂ resolve hm₂ hr => ?_
  have h₂ := h.sound.later (typing.trans (typing.trans hm hm₁) hm₂)
  apply (h₂.target 2).bind
  intro m₃ i hm₃ _
  apply ((h₂.later hm₃).texts 1).bind
  intro m₄ values _ _
  apply runs_forest_eq.bind
  intro m₅ g _ hg
  subst hg
  let found : typing.Known (List NodeId) :=
    ⟨fun l is => ∀ i ∈ is, known.holds l (.node i), fun hl h i hi => known.later hl (h i hi)⟩
  refine (Runs.listMapM (P := found) fun v _ => ?_).bind fun m₆ iss hm₆ hiss => ?_
  · refine runs_ofExcept fun l is hl his i hi => ?_
    obtain ⟨u, hu, rfl⟩ := Forest.mem_ids.1 (hc resolve hr _ _ _ _ is his i hi)
    exact known.later hl (known_of_mem m₅.sound hu)
  · refine (runs_ordering (Q := fun _ js => ∀ j ∈ js, j ∈ iss.flatten) _
      fun _ g o j hj => DocumentOrder.mem_sort hj).bind fun m₇ js hm₇ hjs => runs_pure fun m₈ hm₈ => ?_
    refine Fits.later (k := m₇) (hasAll_iff.2 fun x hx => ?_) hm₈
    obtain ⟨j, hj, rfl⟩ := List.mem_map.1 hx
    obtain ⟨is, his, hj⟩ := List.mem_flatten.1 (hjs j hj)
    exact ⟨le_top, known.later hm₇ (hiss.2 is his j hj), ItemType.covers_anyNode _ _⟩

theorem subsequence (h : s.Typed k is) :
    Runs k s.subsequence fun l xs => HasAll ⟨(typeOfArg is 0).item, .zeroOrMore⟩ l xs := by
  apply h.sound.window.bind
  intro m w hm _
  have hwiden : Widens (typeOfArg is 0) ⟨(typeOfArg is 0).item, .zeroOrMore⟩ :=
    widens_of_item rfl fun _ => le_top
  have hfound := ((h.later hm).arg 0).items.forIn (b := (([] : List Item), 1))
    (Q := fun l (found : List Item × ℕ) => HasAll (typeOfArg is 0) l found.1)
    (f := fun found x =>
      if w.contains found.2 then return .yield (x :: found.1, found.2 + 1)
      else if w.reached found.2 then return .done (found.1, found.2)
      else return .yield (found.1, found.2 + 1))
    (fun _ => ⟨fun l found => HasAll (typeOfArg is 0) l found.1, fun hl h => Fits.later h hl⟩)
    hasAll_nil (fun l _ _ found x _ hfound hx _ _ => ?_) fun _ _ _ hf => hf
  · refine hfound.bind fun _ found _ hall => runs_pure fun _ hl => ?_
    exact Fits.later (HasAll.widens (HasAll.subset hall
      (List.reverse_subset.2 (List.Subset.refl found.1))) hwiden) hl
  · have hlater {l' : typing.Stage} (hl : typing.le l l') : HasAll (typeOfArg is 0) l' found.1 :=
      Fits.later hfound hl
    split
    · exact runs_pure fun _ hl => HasAll.append (hasAll_singleton ((has _).later hl hx)) (hlater hl)
    · split <;> exact runs_pure fun _ hl => hlater hl

/-- Functions that give items of their first argument. -/
theorem call_preserving (h : s.Typed k is) (c : DynamicContext) {g : Builtin}
    (hg : g.preservesItemType) : Runs k (s.call c g) fun l xs =>
      HasAll ⟨(typeOfArg is 0).item, (g.signature is.length).result.cardinality⟩ l xs := by
  have hlist := h.list 0
  have hwiden {c : Cardinality} (hc : 1 ≤ c.most) :
      Widens (typeOfArg is 0) ⟨(typeOfArg is 0).item, c⟩ := widens_of_item rfl fun _ => hc
  have hsub {c : Cardinality} (hc : 1 ≤ c.most) {l m : typing.Stage} {xs ys : List Item}
      (hxs : HasAll (typeOfArg is 0) l xs) (hys : ys ⊆ xs) (hm : typing.le l m) :
      HasAll ⟨(typeOfArg is 0).item, c⟩ m ys :=
    Fits.later (HasAll.widens (HasAll.subset hxs hys) (hwiden hc)) hm
  cases g with
  | subsequence => exact h.subsequence
  | reverse =>
    exact hlist.bind fun _ xs _ hxs => runs_pure fun _ hm =>
      hsub le_top hxs (List.reverse_subset.2 (List.Subset.refl xs)) hm
  | tail =>
    exact hlist.bind fun _ xs _ hxs => runs_pure fun _ hm => hsub le_top hxs (List.drop_subset 1 xs) hm
  | head =>
    exact (h.arg 0).items.head?.bind fun _ o _ ho => runs_pure fun _ hm =>
      hsub le_rfl (hasAll_iff.2 ho.each) (List.Subset.refl _) hm
  | exactlyOne =>
    apply hlist.bind
    intro _ xs _ hxs
    split
    · exact runs_pure fun _ hm => hsub le_rfl hxs (List.Subset.refl xs) hm
    · exact runs_fail _
  | zeroOrOne =>
    apply hlist.bind
    intro _ xs _ hxs
    split
    · exact runs_pure fun _ hm => hsub le_rfl hxs (List.Subset.refl xs) hm
    · exact runs_fail _
  | _ => cases hg

private theorem hasAll_boolean {m : typing.Stage} (v : Bool) :
    HasAll (.atomic .boolean .one) m (boolean v) :=
  hasAll_singleton (has_atomic le_rfl trivial (ItemType.covers_atomic rfl))

private theorem hasAll_string {m : typing.Stage} (v : String) :
    HasAll (.atomic .string .one) m (string v) :=
  hasAll_singleton (has_atomic le_rfl trivial (ItemType.covers_atomic rfl))

private theorem hasAll_number {m : typing.Stage} (n : ℕ) :
    HasAll (.atomic .integer .one) m (number n) :=
  hasAll_singleton (has_atomic le_rfl rfl (ItemType.covers_atomic rfl))

private theorem texts₂ (h : s.Typed k is) {g : String → String → List Item}
    (hg : ∀ {m : typing.Stage} a b, HasAll t m (g a b)) :
    Runs k (do return g (← s.text 0) (← s.text 1)) fun l xs => HasAll t l xs :=
  (h.sound.text 0).bind fun _ a hm _ => ((h.sound.later hm).text 1).gives fun _ b => hg a b

/-- Functions that make a result of their own. -/
theorem call_making (h : s.Typed k is) {c : DynamicContext} (hc : c.FindsNodes) {g : Builtin}
    (hg : g.preservesItemType = false) (hsum : g ≠ .sum) :
    Runs k (s.call c g) fun l xs => HasAll (g.signature is.length).result l xs := by
  have ha := h.sound.arg 0
  cases g with
  | «true» => exact runs_pure fun _ _ => hasAll_boolean _
  | «false» => exact runs_pure fun _ _ => hasAll_boolean _
  | boolean => exact ha.truth.gives fun _ => hasAll_boolean
  | not => exact ha.truth.gives fun _ b => hasAll_boolean !b
  | position => exact (runs_require_any _ _).gives fun _ => hasAll_number
  | last => exact (runs_require_any _ _).gives fun _ => hasAll_number
  | count =>
    exact (ha.items.forIn_any 0 fun _ _ _ _ _ => runs_pure fun _ _ => trivial).gives
      fun _ => hasAll_number
  | empty => exact (ha.items.head?.imp fun _ _ _ _ => trivial).gives fun _ o => hasAll_boolean o.isNone
  | «exists» => exact (ha.items.head?.imp fun _ _ _ _ => trivial).gives fun _ o => hasAll_boolean o.isSome
  | string => exact h.sound.subjectText.gives fun _ => hasAll_string
  | data =>
    simp only [Site.call]
    split
    · apply (runs_contextItem_known h.focus).bind
      intro m x _ hx
      exact (runs_hasValue (has_any hx)).bind fun _ v _ hv => runs_pure fun _ _ =>
        hasAll_singleton (has_value le_top rfl hv.proper)
    · exact (h.arg 0).values.toList.bind fun _ vs _ hvs => runs_pure fun _ _ =>
        hasAll_values le_top rfl fun v hv => (hvs.each v hv).proper
  | number =>
    refine h.sound.subject.bind fun _ o _ _ => (Runs.optionMapM (fun x _ => runs_value x)
      (fun _ _ _ => trivial) fun _ _ _ _ _ _ => trivial).bind (Q := fun _ _ => True)
        fun _ _ _ _ => runs_pure fun _ _ => ?_
    exact hasAll_singleton (has_atomic le_rfl trivial (ItemType.covers_atomic rfl))
  | sum => exact absurd rfl hsum
  | avg => exact h.average
  | min => exact h.extreme _
  | max => exact h.extreme _
  | concat =>
    refine (Runs.listMapM (P := .any typing String) fun a ha => ?_).bind fun _ _ _ _ => runs_pure fun _ _ =>
      hasAll_string _
    obtain ⟨n, hn⟩ := List.getElem?_of_mem ha
    exact (h.sound.getElem? hn).text
  | stringLength => exact h.sound.subjectText.gives fun _ u => hasAll_number u.length
  | contains => exact h.texts₂ fun a b => hasAll_boolean _
  | startsWith => exact h.texts₂ fun a b => hasAll_boolean _
  | endsWith => exact h.texts₂ fun a b => hasAll_boolean _
  | stringJoin =>
    exact (h.sound.text 1).bind fun _ _ hm _ => ((h.sound.later hm).texts 0).gives
      fun _ _ => hasAll_string _
  | substring =>
    exact (h.sound.text 0).bind fun _ _ hm _ => (h.sound.later hm).window.gives
      fun _ _ => hasAll_string _
  | upperCase => exact (h.sound.text 0).gives fun _ _ => hasAll_string _
  | lowerCase => exact (h.sound.text 0).gives fun _ _ => hasAll_string _
  | normalizeSpace => exact h.sound.subjectText.gives fun _ _ => hasAll_string _
  | name =>
    exact h.sound.subjectNode.bind fun _ _ _ _ => runs_forest.bind fun _ _ _ _ =>
      (runs_lexicalName _).gives fun _ => hasAll_string
  | localName =>
    exact h.sound.subjectNode.bind fun _ _ _ _ => runs_forest.bind fun _ _ _ _ => runs_pure fun _ _ =>
      hasAll_string _
  | root =>
    refine h.sound.subjectNode.bind fun _ i _ _ => runs_forest_eq.bind fun m g _ hg => runs_pure
      fun m' hm' => Fits.later (k := m) (hasAll_iff.2 fun x hx => ?_) hm'
    subst hg
    obtain ⟨j, _, hx⟩ := Option.bind_eq_some_iff.1 (Option.mem_toList.1 hx)
    obtain ⟨u, hu, rfl⟩ := Option.map_eq_some_iff.1 hx
    exact ⟨le_rfl, known_of_mem m.sound (Forest.mem_nodes_of_root (Forest.root?_mem hu)),
      ItemType.covers_anyNode _ _⟩
  | distinctValues => exact h.distinct
  | id => exact h.byId
  | key => exact h.byKey hc
  | currentGroup => exact runs_fail _
  | regexGroup => exact runs_pure fun _ _ => hasAll_string _
  | error => exact runs_fail _
  | _ => cases hg

/-- What a call gives is of the type that is inferred for it. -/
theorem call (h : s.Typed k is) {c : DynamicContext} (hc : c.FindsNodes) (g : Builtin)
    (hsum : (NaryOp.call (.builtin g)).KeepsType is) :
    Runs k (s.call c g) fun l xs => HasAll ((NaryOp.call (.builtin g)).typeOf is) l xs := by
  cases hg : g.preservesItemType with
  | true =>
    rw [Sound.typeOf_call_preserving hg]
    exact h.call_preserving c hg
  | false =>
    rw [Sound.typeOf_call hg]
    by_cases hs : g = .sum
    · subst hs
      rw [Builtin.signature_sum]
      have hone : 1 ≤ (if is.length = 1 then Cardinality.one else .zeroOrOne).most := by
        split <;> exact le_rfl
      refine h.sum hone rfl fun hlen => ?_
      rw [h.args.length_eq] at hlen
      match is, hlen with
      | i :: j :: rest, _ =>
        intro g x hx
        have hx' : j.type.Has g x := hx
        obtain hatomic | hempty := hsum i j rest rfl rfl
        · exact ⟨hone, hx'.known, ItemType.covers_anyAtomicType hx'.known hatomic hx'.covers⟩
        · exact absurd hempty (Cardinality.ne_empty hx'.most)
    · exact h.call_making hc hg hs

end Typed
end Call.Site
end XPath
