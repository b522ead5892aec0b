import XPath.Proofs.Values

/-! What the built-in functions give in a regime, in terms of what their arguments give. -/
namespace XPath

theorem Builtin.signature_sum (n : ℕ) :
    (Builtin.sum.signature n).result = ⟨.atomic .anyAtomicType, if n = 1 then .one else .zeroOrOne⟩ := by
  change (if n = 1 then _ else _) = _
  split <;> rfl

/-- Items of which nothing is said. -/
theorem Regime.fitsType_any {R : Regime} {k : R.Stage} {t : SequenceType} (hitem : t.item.isNumeric = false)
    (hl : t.cardinality.least = 0) (hm : t.cardinality.most = ⊤) (xs : List Item) : FitsType t k xs :=
  ⟨fun x _ => ItemType.suits_of_not hitem x, hl.trans_le (Nat.zero_le _), hm.symm ▸ le_top⟩

namespace Call.Site
open Regime

variable {R : Regime} {k : R.Stage}

/-- The type of an argument; of one that is missing nothing is said. -/
def typeOfArg (is : List StaticInfo) (n : ℕ) : SequenceType := (is[n]?.map (·.type)).getD .any

/-- A call whose arguments give what their types say. -/
structure Sound (k : R.Stage) (s : Site) (is : List StaticInfo) : Prop where
  args : List.Forall₂ (fun a i => Regime.Sound k a s.frame i.type) s.args is

theorem runs_lexicalName (chain : List Tree) : Runs k (lexicalName chain) fun _ _ => True := by
  unfold lexicalName
  split
  · exact runs_require_any _ _
  · exact runs_pure fun _ _ => trivial

namespace Sound
variable {s : Site} {is : List StaticInfo} {t : SequenceType}

theorem later {l : R.Stage} (h : s.Sound k is) (hl : R.le k l) : s.Sound l is :=
  ⟨h.args.imp fun _ _ ha => ha.later hl⟩

theorem getElem? (h : s.Sound k is) {n : ℕ} {a : Ways} (ha : s.args[n]? = some a) :
    Regime.Sound k a s.frame (typeOfArg is n) := by
  obtain ⟨hlt, rfl⟩ := List.getElem?_eq_some_iff.1 ha
  have hlt' : n < is.length := h.args.length_eq ▸ hlt
  have hget := h.args.get hlt hlt'
  rwa [typeOfArg, List.getElem?_eq_getElem hlt']

theorem arg (h : s.Sound k is) (n : ℕ) : Regime.Sound k (s.arg n) s.frame (typeOfArg is n) := by
  unfold Site.arg
  rw [List.getD_eq_getElem?_getD]
  cases ha : s.args[n]? with
  | some a => exact h.getElem? ha
  | none =>
    have hlen : is.length ≤ n := h.args.length_eq ▸ List.getElem?_eq_none_iff.1 ha
    rw [typeOfArg, List.getElem?_eq_none hlen]
    exact .ofItems _ (yields_empty.imp (fun _ _ _ => id) le_rfl zero_le)

theorem last (h : s.Sound k is) {a : Ways} (ha : s.args.getLast? = some a) :
    ∃ t, Regime.Sound k a s.frame t := by
  rw [List.getLast?_eq_getElem?] at ha
  exact ⟨_, h.getElem? ha⟩

theorem list (h : s.Sound k is) (n : ℕ) : Runs k (s.list n) fun l xs => FitsType (typeOfArg is n) l xs :=
  (h.arg n).toList

theorem text (h : s.Sound k is) (n : ℕ) : Runs k (s.text n) fun _ _ => True := (h.arg n).text

theorem texts (h : s.Sound k is) (n : ℕ) : Runs k (s.texts n) fun _ _ => True := (h.arg n).texts

theorem subject (h : s.Sound k is) : Runs k s.subject fun _ _ => True := by
  unfold Site.subject
  split
  · exact runs_contextItem.map fun _ _ _ _ => trivial
  · split
    · next a ha =>
      obtain ⟨t, ht⟩ := h.last ha
      exact ht.item.imp fun _ _ _ _ => trivial
    · exact runs_pure fun _ _ => trivial

theorem subjectText (h : s.Sound k is) : Runs k s.subjectText fun _ _ => True :=
  h.subject.bind fun _ _ _ _ => runs_forest.bind fun _ _ _ _ => runs_pure fun _ _ => trivial

theorem subjectNode (h : s.Sound k is) : Runs k s.subjectNode fun _ _ => True := by
  unfold Site.subjectNode
  split
  · exact runs_contextNode.map fun _ _ _ _ => trivial
  · refine h.subject.bind fun m o _ _ => Runs.optionMapM (S := fun _ _ => True) (fun x _ => ?_)
      (fun _ _ _ => trivial) fun _ _ _ _ _ _ => trivial
    exact runs_require_any _ _

theorem target (h : s.Sound k is) (n : ℕ) : Runs k (s.target n) fun _ _ => True := by
  unfold Site.target
  split
  · next a ha =>
    split
    · exact runs_contextNode
    · exact (h.getElem? ha).item.bind fun _ _ _ _ => runs_require_any _ _
  · exact runs_contextNode

theorem double (h : s.Sound k is) (n : ℕ) : Runs k (s.double n) fun _ _ => True := by
  apply (h.arg n).value?.bind
  intro _ _ _ _
  apply (runs_require_any _ _).bind
  intro _ a _ _
  apply (runs_ofExcept_any _).bind
  intro _ _ _ _
  exact runs_require_any _ _

theorem window (h : s.Sound k is) : Runs k s.window fun _ _ => True := by
  apply (h.double 1).bind
  intro m start hm _
  split
  · exact runs_pure fun _ _ => trivial
  · exact ((h.later hm).double 2).bind fun _ _ _ _ => runs_pure fun _ _ => trivial

theorem numbers (h : s.Sound k is) : Runs k s.numbers fun _ as =>
    (typeOfArg is 0).cardinality.least ≤ as.length := by
  refine (((h.arg 0).values.mapM (S := .any R Atomic) fun _ a _ _ => ?_).toList).imp
    fun _ _ _ has => has.least
  apply (runs_ofExcept_any _).bind
  intro _ b _ _
  split
  · exact runs_pure fun _ _ => trivial
  · exact runs_fail _

/-- A sum starts with a number if there is one. -/
theorem sum (h : s.Sound k is) (hleast : t.cardinality.least ≤ if s.args.length < 2 then 1 else 0)
    (hone : 1 ≤ t.cardinality.most) (hitem : t.item.isNumeric = false)
    (hmost : 2 ≤ s.args.length → (typeOfArg is 0).cardinality.least = 0 →
      (typeOfArg is 1).cardinality.most ≤ t.cardinality.most) :
    Runs k s.sum fun l xs => FitsType t l xs := by
  apply h.numbers.bind
  intro m as hm has
  split
  · refine (runs_ofExcept_any _).bind fun _ a _ _ => runs_pure
      fun _ _ => fitsType_single (ItemType.suits_of_not hitem _) (Cardinality.least_le_one_or _) hone
  · split
    · exact runs_pure fun _ _ =>
        fitsType_single (ItemType.suits_of_not hitem _) (Cardinality.least_le_one_or _) hone
    · next hlen =>
      rw [if_neg hlen] at hleast
      refine ((h.later hm).list 1).imp fun _ xs _ hxs => ⟨fun x _ => ItemType.suits_of_not hitem x, ?_, ?_⟩
      · exact hleast.trans (Nat.zero_le _)
      · exact hxs.most.trans (hmost (Nat.le_of_not_lt hlen) (Nat.le_zero.1 has))

private theorem fitsType_optional {m : R.Stage} (a : Option Atomic) :
    FitsType (.atomic .anyAtomicType .zeroOrOne) m (optional a) := by
  refine ⟨fun x _ => ItemType.suits_of_not rfl x, Nat.zero_le _, ?_⟩
  cases a
  · exact zero_le
  · exact le_rfl

theorem average (h : s.Sound k is) :
    Runs k s.average fun l xs => FitsType (.atomic .anyAtomicType .zeroOrOne) l xs := by
  apply h.numbers.bind
  intro m as _ _
  split
  · apply (runs_ofExcept_any _).bind
    intro _ _ _ _
    apply (runs_ofExcept_any _).bind
    intro _ _ _ _
    exact runs_pure fun _ _ => fitsType_optional _
  · exact runs_pure fun _ _ => fitsType_optional none

theorem extreme (h : s.Sound k is) (op : ComparisonOp) :
    Runs k (s.extreme op) fun l xs => FitsType (.atomic .anyAtomicType .zeroOrOne) l xs := by
  refine ((h.arg 0).values.forIn_any none fun l best a _ _ => ?_).bind fun _ o _ _ =>
    runs_pure fun _ _ => fitsType_optional o
  apply (runs_ofExcept_any _).bind
  intro _ b _ _
  split
  · exact runs_pure fun _ _ => trivial
  · split
    · exact runs_pure fun _ _ => trivial
    · exact (runs_ofExcept_any _).bind fun _ _ _ _ =>
        runs_pure fun _ _ => trivial

theorem distinct (h : s.Sound k is) : Runs k s.distinct fun _ _ => True := by
  refine ((h.arg 0).values.forIn_any ([] : List Atomic) fun l found a _ _ => ?_).bind fun _ _ _ _ =>
    runs_pure fun _ _ => trivial
  exact runs_pure fun _ _ => trivial

theorem byId (h : s.Sound k is) : Runs k s.byId fun _ _ => True := by
  apply (h.texts 0).bind
  intro m _ hm _
  apply ((h.later hm).target 1).bind
  intro _ _ _ _
  apply runs_forest.bind
  intro _ _ _ _
  exact (runs_require_any _ _).bind fun _ _ _ _ =>
    runs_pure fun _ _ => trivial

theorem byKey (h : s.Sound k is) (c : DynamicContext) : Runs k (s.byKey c) fun _ _ => True := by
  apply (h.text 0).bind
  intro m _ hm _
  apply (runs_require_any _ _).bind
  intro m₁ _ hm₁ _
  apply (runs_require_any _ _).bind
  intro m₂ resolve hm₂ _
  have h₂ := h.later (R.trans (R.trans hm hm₁) hm₂)
  apply (h₂.target 2).bind
  intro m₃ i hm₃ _
  apply ((h₂.later hm₃).texts 1).bind
  intro _ values _ _
  apply runs_forest.bind
  intro _ t _ _
  refine (Runs.listMapM (P := .any R (List NodeId)) fun v _ => runs_ofExcept_any _).bind
    fun _ found _ _ => ?_
  exact (runs_ordering_any _).bind fun _ _ _ _ =>
    runs_pure fun _ _ => trivial

theorem subsequence (h : s.Sound k is) :
    Runs k s.subsequence fun l xs => FitsType ⟨(typeOfArg is 0).item, .zeroOrMore⟩ l xs := by
  apply h.window.bind
  intro m w hm _
  have hfound := ((h.later hm).arg 0).items.forIn (b := (([] : List Item), 1))
    (Q := fun _ (found : List Item × ℕ) => ∀ x ∈ found.1, (typeOfArg is 0).item.Suits x)
    (f := fun found x =>
      if w.contains found.2 then return .yield (x :: found.1, found.2 + 1)
      else if w.reached found.2 then return .done (found.1, found.2)
      else return .yield (found.1, found.2 + 1))
    (fun _ => .always R fun found => ∀ x ∈ found.1, (typeOfArg is 0).item.Suits x)
    (List.forall_mem_nil _) (fun _ _ _ found x _ hfound hx _ _ => ?_) fun _ _ _ => id
  · refine hfound.bind fun _ found _ hall => runs_pure fun _ _ => ⟨fun x hx => ?_, Nat.zero_le _, le_top⟩
    exact hall x (List.mem_reverse.1 hx)
  · split
    · exact runs_pure fun _ _ => List.forall_mem_cons.2 ⟨hx, hfound⟩
    · split <;> exact runs_pure fun _ _ => hfound

theorem typeOf_call {g : Builtin} (hg : g.preservesItemType = false) (is : List StaticInfo) :
    (NaryOp.call (.builtin g)).typeOf is = (g.signature is.length).result := by
  cases is <;> simp [NaryOp.typeOf, Builtin.signature, hg]

theorem typeOf_call_preserving {g : Builtin} (hg : g.preservesItemType) (is : List StaticInfo) :
    (NaryOp.call (.builtin g)).typeOf is =
      ⟨(typeOfArg is 0).item, (g.signature is.length).result.cardinality⟩ := by
  cases is with
  | nil => cases g <;> first | rfl | cases hg
  | cons i is => simp [NaryOp.typeOf, Builtin.signature, hg, typeOfArg, StaticInfo.type]

/-- Functions that give items of their first argument. -/
theorem call_preserving (h : s.Sound k is) (c : DynamicContext) {g : Builtin} (hg : g.preservesItemType) :
    Runs k (s.call c g) fun l xs =>
      FitsType ⟨(typeOfArg is 0).item, (g.signature is.length).result.cardinality⟩ l xs := by
  have hlist := h.list 0
  cases g with
  | subsequence => exact h.subsequence
  | reverse =>
    exact hlist.bind fun _ xs _ hxs => runs_pure fun _ _ =>
      ⟨fun x hx => hxs.each x (List.mem_reverse.1 hx), Nat.zero_le _, le_top⟩
  | tail =>
    exact hlist.bind fun _ xs _ hxs => runs_pure fun _ _ =>
      ⟨fun x hx => hxs.each x (List.mem_of_mem_drop hx), Nat.zero_le _, le_top⟩
  | head =>
    refine (h.arg 0).items.head?.bind fun _ o _ ho => runs_pure fun _ _ => ⟨ho.each, Nat.zero_le _, ?_⟩
    cases o
    · exact zero_le
    · exact le_rfl
  | exactlyOne =>
    apply hlist.bind
    intro _ xs _ hxs
    split
    · next hone => exact runs_pure fun _ _ => ⟨hxs.each, hone.ge, by rw [hone]; exact le_rfl⟩
    · exact runs_fail _
  | zeroOrOne =>
    apply hlist.bind
    intro _ xs _ hxs
    split
    · next hfew =>
      refine runs_pure fun _ _ => ⟨hxs.each, Nat.zero_le _, ?_⟩
      exact Nat.cast_le.2 (Nat.le_of_lt_succ hfew)
    · exact runs_fail _
  | _ => cases hg

private theorem fitsType_boolean {m : R.Stage} (b : Bool) :
    FitsType (.atomic .boolean .one) m (boolean b) :=
  fitsType_single (ItemType.suits_of_not rfl _) le_rfl le_rfl

private theorem fitsType_string {m : R.Stage} (b : String) : FitsType (.atomic .string .one) m (string b) :=
  fitsType_single (ItemType.suits_of_not rfl _) le_rfl le_rfl

private theorem fitsType_number {m : R.Stage} (n : ℕ) : FitsType (.atomic .integer .one) m (number n) :=
  fitsType_single (fun _ => rfl) le_rfl le_rfl

private theorem texts₂ (h : s.Sound k is) {g : String → String → List Item}
    (hg : ∀ {m : R.Stage} a b, FitsType t m (g a b)) :
    Runs k (do return g (← s.text 0) (← s.text 1)) fun l xs => FitsType t l xs :=
  (h.text 0).bind fun _ a hm _ => ((h.later hm).text 1).gives fun _ b => hg a b

/-- Functions that make a result of their own. -/
theorem call_making (h : s.Sound k is) (c : DynamicContext) {g : Builtin}
    (hg : g.preservesItemType = false) (hsum : g ≠ .sum) :
    Runs k (s.call c g) fun l xs => FitsType (g.signature is.length).result l xs := by
  cases g with
  | «true» => exact runs_pure fun _ _ => fitsType_boolean _
  | «false» => exact runs_pure fun _ _ => fitsType_boolean _
  | boolean => exact (h.arg 0).truth.gives fun _ => fitsType_boolean
  | not => exact (h.arg 0).truth.gives fun _ b => fitsType_boolean !b
  | position =>
    exact (runs_require_any _ _).gives fun _ => fitsType_number
  | last =>
    exact (runs_require_any _ _).gives fun _ => fitsType_number
  | count =>
    exact ((h.arg 0).items.forIn_any 0 fun _ _ _ _ _ => runs_pure fun _ _ => trivial).gives
      fun _ => fitsType_number
  | empty => exact ((h.arg 0).items.head?.imp fun _ _ _ _ => trivial).gives fun _ o => fitsType_boolean o.isNone
  | «exists» => exact ((h.arg 0).items.head?.imp fun _ _ _ _ => trivial).gives fun _ o => fitsType_boolean o.isSome
  | string => exact h.subjectText.gives fun _ => fitsType_string
  | data =>
    simp only [Site.call]
    split
    · apply runs_contextItem.bind
      intro _ x _ _
      apply (runs_value x).bind
      intro _ _ _ _
      apply runs_pure
      intro _ _
      exact fitsType_any rfl rfl rfl _
    · exact ((h.arg 0).values.toList.imp fun _ _ _ _ => trivial).gives fun _ _ => fitsType_any rfl rfl rfl _
  | number =>
    apply h.subject.bind
    intro _ o _ _
    refine (Runs.optionMapM (fun x _ => runs_value x) (fun _ _ _ => trivial)
      fun _ _ _ _ _ _ => trivial).bind (Q := fun _ _ => True) fun _ _ _ _ => runs_pure fun _ _ => ?_
    exact fitsType_single (fun _ => rfl) le_rfl le_rfl
  | sum => exact absurd rfl hsum
  | avg => exact h.average
  | min => exact h.extreme _
  | max => exact h.extreme _
  | concat =>
    refine (Runs.listMapM (P := .any R String) fun a ha => ?_).bind fun _ _ _ _ => runs_pure fun _ _ =>
      fitsType_string _
    obtain ⟨n, hn⟩ := List.getElem?_of_mem ha
    exact (h.getElem? hn).text
  | stringLength => exact h.subjectText.gives fun _ u => fitsType_number u.length
  | contains => exact h.texts₂ fun a b => fitsType_boolean _
  | startsWith => exact h.texts₂ fun a b => fitsType_boolean _
  | endsWith => exact h.texts₂ fun a b => fitsType_boolean _
  | stringJoin =>
    exact (h.text 1).bind fun _ _ hm _ => ((h.later hm).texts 0).gives fun _ _ => fitsType_string _
  | substring =>
    exact (h.text 0).bind fun _ _ hm _ => (h.later hm).window.gives fun _ _ => fitsType_string _
  | upperCase => exact (h.text 0).gives fun _ _ => fitsType_string _
  | lowerCase => exact (h.text 0).gives fun _ _ => fitsType_string _
  | normalizeSpace => exact h.subjectText.gives fun _ _ => fitsType_string _
  | name =>
    apply h.subjectNode.bind
    intro _ i _ _
    apply runs_forest.bind
    intro _ t _ _
    exact (runs_lexicalName _).gives fun _ => fitsType_string
  | localName =>
    exact h.subjectNode.bind fun _ _ _ _ => runs_forest.bind fun _ _ _ _ => runs_pure fun _ _ =>
      fitsType_string _
  | root =>
    refine h.subjectNode.bind fun _ i _ _ => runs_forest.bind fun _ t _ _ => runs_pure fun _ _ =>
      ⟨fun x _ => ItemType.suits_of_not rfl x, Nat.zero_le _, ?_⟩
    cases i.bind fun i => (t.root? i).map fun u => Item.node u.id
    · exact zero_le
    · exact le_rfl
  | distinctValues => exact h.distinct.imp fun _ _ _ _ => fitsType_any rfl rfl rfl _
  | id => exact h.byId.imp fun _ _ _ _ => fitsType_any rfl rfl rfl _
  | key => exact (h.byKey c).imp fun _ _ _ _ => fitsType_any rfl rfl rfl _
  | currentGroup => exact runs_fail _
  | regexGroup => exact runs_pure fun _ _ => fitsType_string _
  | error => exact runs_fail _
  | _ => cases hg

/-- What a call gives is of the type that the signature says, except that the second argument stands for
a sum of no numbers as it is. -/
theorem call (h : s.Sound k is) (c : DynamicContext) (g : Builtin)
    (hn : Narrower ((NaryOp.call (.builtin g)).typeOf is) t)
    (hsum : g = .sum → 2 ≤ s.args.length → (typeOfArg is 0).cardinality.least = 0 →
      (typeOfArg is 1).cardinality.most ≤ t.cardinality.most) :
    Runs k (s.call c g) fun l xs => FitsType t l xs := by
  have hlen : is.length = s.args.length := h.args.length_eq.symm
  cases hg : g.preservesItemType with
  | true =>
    rw [typeOf_call_preserving hg] at hn
    exact (h.call_preserving c hg).imp fun _ _ _ hxs => FitsType.narrower hxs hn
  | false =>
    rw [typeOf_call hg] at hn
    by_cases hs : g = .sum
    · subst hs
      have hitem : t.item.isNumeric = false := hn.not_numeric (by rw [Builtin.signature_sum]; rfl)
      obtain ⟨_, hleast, hmost⟩ := hn
      rw [Builtin.signature_sum, hlen] at hleast hmost
      refine h.sum (hleast.trans ?_) (le_trans ?_ hmost) hitem (hsum rfl)
      · dsimp only
        split
        · next hone => rw [hone]; exact le_rfl
        · exact Nat.zero_le _
      · dsimp only
        split <;> exact le_rfl
    · exact (h.call_making c hg hs).imp fun _ _ _ hxs => FitsType.narrower hxs hn

end Sound
end Call.Site
end XPath
