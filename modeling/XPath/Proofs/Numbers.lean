import XPath.Evaluation.Index
import XPath.Proofs.Annotation
import XPath.Tree.Order
import XPath.Atomic.Arithmetic

/-! How many items there may be and which of them are numbers: the bounds of cardinalities, the order of
types, the types and operations of numbers, and what sorting and looking up leave of a list. -/
namespace XPath

namespace Cardinality

def least (c : Cardinality) : ℕ := c.bounds.1

def most (c : Cardinality) : ℕ∞ :=
  match c.bounds.2 with
  | some n => n
  | none => ⊤

@[simp] theorem least_empty : empty.least = 0 := rfl
@[simp] theorem most_empty : empty.most = 0 := rfl

theorem allows_iff (c : Cardinality) (n : ℕ) : c.allows n ↔ c.least ≤ n ∧ (n : ℕ∞) ≤ c.most := by
  unfold allows least most
  rw [Bool.and_eq_true, decide_eq_true_eq]
  cases c <;> simp [bounds]

theorem one_le_most {c : Cardinality} (h : c ≠ .empty) : 1 ≤ c.most := by
  cases c <;> first | exact absurd rfl h | decide

theorem most_le_one {c : Cardinality} (h : c.atMostOne) : c.most ≤ 1 := by
  cases c <;> first | decide | cases h

theorem contains_iff {c d : Cardinality} : c.contains d ↔ c.least ≤ d.least ∧ d.most ≤ c.most := by
  cases c <;> cases d <;> decide

end Cardinality

/-! Every type is a subtype of itself. -/

theorem AtomicType.derivesFrom_refl (a : AtomicType) : a.derivesFrom a := by
  cases a <;> rfl

theorem KindTest.isSubtype_refl (k : KindTest) : k.isSubtype k := by
  have hname (t : NameAndType) : t.isSubtype t := by
    simp [NameAndType.isSubtype, NameAndType.sameName]
  cases k with
  | document e => cases e <;> simp [isSubtype, hname]
  | processingInstruction target => simp [isSubtype]
  | _ => simp [isSubtype, hname]

theorem ItemType.isSubtype_refl (t : ItemType) : t.isSubtype t := by
  cases t with
  | atomic a => exact a.derivesFrom_refl
  | node k => exact k.isSubtype_refl
  | _ => simp [isSubtype]

theorem SequenceType.isSubtype_refl (t : SequenceType) : t.isSubtype t := by
  have hc : t.cardinality.contains t.cardinality := Cardinality.contains_iff.2 ⟨le_rfl, le_rfl⟩
  simp [isSubtype, hc, t.item.isSubtype_refl]

theorem SequenceType.isSubtype_many {s : SequenceType} {t : ItemType} (h : s.item.isSubtype t) :
    s.isSubtype ⟨t, .zeroOrMore⟩ := by
  have hc : Cardinality.zeroOrMore.contains s.cardinality :=
    Cardinality.contains_iff.2 ⟨Nat.zero_le _, le_top⟩
  simp [isSubtype, hc, h]

def Item.isNumber : Item → Bool
  | .atomic a => a.isNumeric
  | .node _ => false

/-- Where the type is numeric, the item is a number. -/
def ItemType.Suits (t : ItemType) (x : Item) : Prop := t.isNumeric → x.isNumber

theorem ItemType.suits_of_not {t : ItemType} (h : t.isNumeric = false) (x : Item) : t.Suits x :=
  fun ht => absurd ht (by simp [h])

/-- The same of a value that is computed with. -/
def ItemType.SuitsValue (t : ItemType) (a : Atomic) : Prop := t.isNumeric → a.isNumeric

namespace AtomicType

theorem isNumeric_of_derivesFrom :
    ∀ a ∈ all, ∀ b ∈ all, a.derivesFrom b → b.isNumeric → a.isNumeric := by
  decide +kernel

theorem mem_all (a : AtomicType) : a ∈ all := by
  cases a <;> simp [all]

theorem common_derivesFrom (a b : AtomicType) (h : (a.common b).isNumeric) :
    a.isNumeric ∧ b.isNumeric := by
  unfold common at h
  cases hc : a.ancestors.find? b.derivesFrom with
  | none =>
    rw [hc] at h
    cases h
  | some c =>
    rw [hc] at h
    have ha : a.derivesFrom c := List.contains_iff_mem.2 (List.mem_of_find?_eq_some hc)
    have hb : b.derivesFrom c := List.find?_some hc
    exact ⟨isNumeric_of_derivesFrom a a.mem_all c c.mem_all ha h,
      isNumeric_of_derivesFrom b b.mem_all c c.mem_all hb h⟩

end AtomicType

namespace ItemType

theorem isNumeric_of_isSubtype {a b : ItemType} (h : a.isSubtype b) (hb : b.isNumeric) :
    a.isNumeric := by
  cases b with
  | atomic t =>
    cases a with
    | atomic s => exact AtomicType.isNumeric_of_derivesFrom s s.mem_all t t.mem_all h hb
    | imported n =>
      obtain rfl : t = .anyAtomicType := of_decide_eq_true h
      cases hb
    | _ => cases h
  | _ => cases hb

/-- A common type is numeric only if both types are. -/
theorem isNumeric_of_common {a b : ItemType} (h : (a.common b).isNumeric) :
    a.isNumeric ∧ b.isNumeric := by
  unfold common at h
  split at h
  · next hs => exact ⟨isNumeric_of_isSubtype hs h, h⟩
  · split at h
    · next hs => exact ⟨h, isNumeric_of_isSubtype hs h⟩
    · split at h
      · exact AtomicType.common_derivesFrom _ _ h
      · cases h
      · split at h <;> cases h

theorem isNumeric_of_foldl_common {ts : List ItemType} {t : ItemType}
    (h : (ts.foldl common t).isNumeric) : t.isNumeric ∧ ∀ s ∈ ts, s.isNumeric := by
  induction ts generalizing t with
  | nil => exact ⟨h, List.forall_mem_nil _⟩
  | cons s ts ih =>
    obtain ⟨hts, hall⟩ := ih h
    obtain ⟨ht, hs⟩ := isNumeric_of_common hts
    exact ⟨ht, List.forall_mem_cons.2 ⟨hs, hall⟩⟩

theorem isNumeric_of_commonOf {ts : List ItemType} (h : (commonOf ts).isNumeric) :
    ∀ t ∈ ts, t.isNumeric := by
  cases ts with
  | nil => exact List.forall_mem_nil _
  | cons t ts => exact List.forall_mem_cons.2 (isNumeric_of_foldl_common h)

/-- A value whose own type is of a numeric type is a number. -/
theorem suits_of_holds {t : ItemType} {w : Forest} {x : Item} (h : t.holds w x) : t.Suits x := by
  intro ht
  cases t with
  | atomic t =>
    cases x with
    | node i => cases h
    | atomic a =>
      have ha : a.type.isNumeric :=
        AtomicType.isNumeric_of_derivesFrom a.type a.type.mem_all t t.mem_all h ht
      cases a <;> first | rfl | cases ha
  | _ => cases ht

end ItemType

/-- A list is of a type, as far as its length and the numbers in it go. -/
structure SequenceType.Admits (t : SequenceType) (xs : List Item) : Prop where
  each : ∀ x ∈ xs, t.item.Suits x
  length : t.cardinality.allows xs.length

theorem SequenceType.admits_of_holds {t : SequenceType} {w : Forest} {xs : List Item} (h : t.holds w xs) :
    t.Admits xs := by
  obtain ⟨hlength, heach⟩ := Bool.and_eq_true_iff.1 h
  exact ⟨fun x hx => ItemType.suits_of_holds (List.all_eq_true.1 heach x hx), hlength⟩

namespace Atomic

theorem bind_ok {α β ε : Type} {r : Except ε α} {g : α → Except ε β} {y : β}
    (h : r >>= g = .ok y) : ∃ x, r = .ok x ∧ g x = .ok y := by
  cases r with
  | error e => cases h
  | ok x => exact ⟨x, rfl, h⟩

theorem map_ok {α β : Type} {r : Except ErrorCode α} {g : α → β} {y : β}
    (h : r.map g = .ok y) : ∃ x, r = .ok x ∧ g x = y := by
  cases r with
  | error e => cases h
  | ok x =>
    cases h
    exact ⟨x, rfl, rfl⟩

theorem isNumeric_decimalArithmetic {op : ArithmeticOp} {a b : Decimal} {v : Atomic}
    (h : decimalArithmetic op a b = .ok v) : v.isNumeric := by
  unfold decimalArithmetic orElse at h
  cases op <;> dsimp only at h <;> (repeat' split at h) <;> cases h <;> rfl

theorem isNumeric_integerArithmetic {op : ArithmeticOp} {a b : Int} {v : Atomic}
    (h : integerArithmetic op a b = .ok v) : v.isNumeric := by
  cases op with
  | divide =>
    obtain ⟨x, _, h⟩ := bind_ok h
    obtain ⟨y, _, h⟩ := bind_ok h
    exact isNumeric_decimalArithmetic h
  | integerDivide =>
    unfold integerArithmetic at h
    dsimp only at h
    split at h <;> cases h
    rfl
  | modulo =>
    unfold integerArithmetic at h
    dsimp only at h
    split at h <;> cases h
    rfl
  | _ => cases h; rfl

theorem isNumeric_arithmetic {op : ArithmeticOp} {a b v : Atomic} (h : arithmetic op a b = .ok v) :
    v.isNumeric := by
  obtain ⟨a, _, h⟩ := bind_ok h
  obtain ⟨b, _, h⟩ := bind_ok h
  obtain ⟨⟨a, b⟩, _, h⟩ := bind_ok h
  split at h
  · exact isNumeric_integerArithmetic h
  · exact isNumeric_decimalArithmetic h
  · obtain ⟨x, _, rfl⟩ := map_ok h
    rfl
  · obtain ⟨x, _, rfl⟩ := map_ok h
    rfl
  · cases h

theorem isNumeric_negate {a v : Atomic} (h : negate a = .ok v) : v.isNumeric := by
  obtain ⟨a, _, h⟩ := bind_ok h
  split at h <;> cases h <;> rfl

theorem isNumeric_plus {a v : Atomic} (h : plus a = .ok v) : v.isNumeric := by
  obtain ⟨a, _, h⟩ := bind_ok h
  split at h
  · next ha =>
    cases h
    exact ha
  · cases h

theorem isNumeric_cast {a v : Atomic} {target : AtomicType} (h : a.cast target = .ok v)
    (ht : target.isNumeric) : v.isNumeric := by
  unfold cast at h
  split at h
  · next heq =>
    cases h
    subst heq
    cases a <;> first | rfl | cases ht
  · split at h
    · cases ht
    · cases ht
    · cases ht
    · obtain ⟨x, _, rfl⟩ := map_ok h
      rfl
    · obtain ⟨x, _, rfl⟩ := map_ok h
      rfl
    · obtain ⟨x, _, rfl⟩ := map_ok h
      rfl
    · cases h
    · cases h
    · cases h
    · split at h
      · obtain ⟨i, _, h⟩ := bind_ok h
        split at h <;> cases h
        rfl
      · cases h

end Atomic

namespace DocumentOrder

theorem length_rankAll (f : Forest) (is : List NodeId) (o : DocumentOrder) :
    (rankAll f is o).1.length = is.length := by
  induction is generalizing o with
  | nil => rfl
  | cons i is ih => simp only [rankAll, List.length_cons, ih]

theorem length_arrange (f : Forest) (is : List NodeId) (o : DocumentOrder) :
    (o.arrange f is).1.length = is.length := by
  unfold arrange
  split
  · rfl
  · simp only [List.length_map, List.length_mergeSort, length_rankAll]

theorem length_dropRepeats : (is : List NodeId) →
    (dropRepeats is).length ≤ is.length ∧ min is.length 1 ≤ (dropRepeats is).length
  | [] => ⟨le_rfl, le_rfl⟩
  | [i] => ⟨le_rfl, le_rfl⟩
  | i :: j :: is => by
    have ih := length_dropRepeats (j :: is)
    rw [dropRepeats]
    split
    · exact ⟨ih.1.trans (Nat.le_succ _), by simpa using ih.2⟩
    · simp only [List.length_cons] at ih ⊢
      omega

theorem length_sort (f : Forest) (is : List NodeId) (o : DocumentOrder) :
    (o.sort f is).1.length ≤ is.length ∧ min is.length 1 ≤ (o.sort f is).1.length := by
  have h := length_dropRepeats (o.arrange f is).1
  rw [length_arrange] at h
  exact h

end DocumentOrder

/-! The bounds of the cardinalities that rows compute. -/
namespace Cardinality

theorem least_pickOne (c : Cardinality) : c.pickOne.least = min c.least 1 := by
  cases c <;> rfl

theorem most_pickOne (c : Cardinality) : c.pickOne.most = min c.most 1 := by
  cases c <;> simp [pickOne, most, bounds]

@[simp] theorem least_orEmpty (c : Cardinality) : c.orEmpty.least = 0 := by
  cases c <;> rfl

@[simp] theorem most_orEmpty (c : Cardinality) : c.orEmpty.most = c.most := by
  cases c <;> rfl

theorem least_product (c d : Cardinality) : (c.product d).least ≤ c.least * d.least := by
  cases c <;> cases d <;> decide

theorem most_product (c d : Cardinality) : c.most * d.most ≤ (c.product d).most := by
  cases c <;> cases d <;> simp [product, most, bounds, ofBounds]

theorem least_join (c d : Cardinality) : (c.join d).least ≤ min c.least d.least := by
  cases c <;> cases d <;> decide

theorem most_join (c d : Cardinality) : c.most ≤ (c.join d).most ∧ d.most ≤ (c.join d).most := by
  cases c <;> cases d <;> simp [join, orEmpty, most, bounds, ofBounds]

theorem least_concat (c d : Cardinality) : (c.concat d).least ≤ c.least + d.least := by
  cases c <;> cases d <;> decide

theorem most_concat (c d : Cardinality) : c.most + d.most ≤ (c.concat d).most := by
  cases c <;> cases d <;> simp [concat, most, bounds, ofBounds]

theorem foldl_concat (is : List StaticInfo) (c : Cardinality) :
    (is.foldl (fun c i => c.concat i.cardinality) c).least ≤
        c.least + (is.map (·.cardinality.least)).sum ∧
      c.most + (is.map (·.cardinality.most)).sum ≤
        (is.foldl (fun c i => c.concat i.cardinality) c).most := by
  induction is generalizing c with
  | nil => simp
  | cons i is ih =>
    obtain ⟨hl, hm⟩ := ih (c.concat i.cardinality)
    rw [List.foldl_cons, List.map_cons, List.map_cons, List.sum_cons, List.sum_cons]
    constructor
    · have := least_concat c i.cardinality
      omega
    · refine le_trans ?_ hm
      rw [← add_assoc]
      exact add_le_add_left (most_concat c i.cardinality) _

theorem least_ofLength (n : ℕ) : (ofLength n).least ≤ n := by
  match n with
  | 0 => exact le_rfl
  | 1 => exact le_rfl
  | n + 2 =>
    have h : ofLength (n + 2) = .oneOrMore := by simp [ofLength, ofBounds]
    rw [h]
    exact Nat.le_add_left 1 (n + 1)

theorem most_ofLength (n : ℕ) : (n : ℕ∞) ≤ (ofLength n).most := by
  match n with
  | 0 => exact le_rfl
  | 1 => exact le_rfl
  | n + 2 =>
    have h : ofLength (n + 2) = .oneOrMore := by simp [ofLength, ofBounds]
    rw [h]
    exact le_top

theorem least_le_one_or (c : Cardinality) : c.least ≤ 1 := by
  cases c <;> decide

end Cardinality

/-! Tests and steps that can fail. -/

section Tests
variable {α β ε : Type} {p : α → Except ε Bool} {xs ys : List α}

/-- What a search finds is one of the things. -/
theorem exists_of_anyM (h : xs.anyM p = .ok true) : ∃ x ∈ xs, p x = .ok true := by
  induction xs with
  | nil => cases h
  | cons x xs ih =>
    rw [List.anyM_cons] at h
    cases hx : p x with
    | error e =>
      rw [hx] at h
      cases h
    | ok b =>
      cases b with
      | true => exact ⟨x, List.mem_cons_self, hx⟩
      | false =>
        rw [hx] at h
        obtain ⟨y, hy, hp⟩ := ih h
        exact ⟨y, List.mem_cons_of_mem x hy, hp⟩

/-- A search that finds nothing fails for none of the things. -/
theorem forall_of_anyM (h : xs.anyM p = .ok false) : ∀ x ∈ xs, p x = .ok false := by
  induction xs with
  | nil => exact nofun
  | cons x xs ih =>
    rw [List.anyM_cons] at h
    cases hx : p x with
    | error e =>
      rw [hx] at h
      cases h
    | ok b =>
      rw [hx] at h
      cases b with
      | true => cases h
      | false => exact List.forall_mem_cons.2 ⟨hx, ih h⟩

theorem anyM_of_forall {t : α → Bool} (h : ∀ x ∈ xs, p x = .ok (t x)) : xs.anyM p = .ok (xs.any t) := by
  induction xs with
  | nil => rfl
  | cons x xs ih =>
    obtain ⟨hx, hxs⟩ := List.forall_mem_cons.1 h
    rw [List.anyM_cons, hx, List.any_cons]
    cases t x with
    | true => rfl
    | false => exact ih hxs

private theorem filterAuxM_of_forall {chosen : α → Bool} (h : ∀ x ∈ xs, p x = .ok (chosen x)) (acc : List α) :
    xs.filterAuxM p acc = .ok ((xs.filter chosen).reverse ++ acc) := by
  induction xs generalizing acc with
  | nil => rfl
  | cons x xs ih =>
    obtain ⟨hx, hxs⟩ := List.forall_mem_cons.1 h
    unfold List.filterAuxM
    rw [hx]
    refine (ih hxs _).trans ?_
    cases hc : chosen x <;> simp [hc, cond]

theorem filterM_of_forall {chosen : α → Bool} (h : ∀ x ∈ xs, p x = .ok (chosen x)) :
    xs.filterM p = .ok (xs.filter chosen) := by
  unfold List.filterM
  rw [filterAuxM_of_forall h]
  exact congrArg Except.ok (by simp)

private theorem forall_of_filterAuxM {acc : List α} (h : xs.filterAuxM p acc = .ok ys) : ∀ x ∈ xs, (p x).isOk := by
  induction xs generalizing acc with
  | nil => exact nofun
  | cons x xs ih =>
    unfold List.filterAuxM at h
    cases hx : p x with
    | error e =>
      rw [hx] at h
      cases h
    | ok b =>
      rw [hx] at h
      exact List.forall_mem_cons.2 ⟨by rw [hx]; rfl, ih h⟩

/-- A filter whose test fails for one of the things fails. -/
theorem filterM_eq_ok : xs.filterM p = .ok ys ↔
    ∃ chosen : α → Bool, (∀ x ∈ xs, p x = .ok (chosen x)) ∧ ys = xs.filter chosen := by
  constructor
  · intro h
    have hall : ∀ x ∈ xs, p x = .ok ((p x).toOption.getD false) := by
      intro x hx
      unfold List.filterM at h
      cases haux : xs.filterAuxM p [] with
      | error e =>
        rw [haux] at h
        cases h
      | ok zs =>
        have hok := forall_of_filterAuxM haux x hx
        cases hp : p x with
        | error e =>
          rw [hp] at hok
          cases hok
        | ok b => rfl
    rw [filterM_of_forall hall] at h
    exact ⟨_, hall, (Except.ok.inj h).symm⟩
  · rintro ⟨chosen, hchosen, rfl⟩
    exact filterM_of_forall hchosen

/-- Two searches, one inside the other, that do not fail. -/
theorem anyM_anyM {p : α → β → Except ε Bool} {ys : List β} {t : Bool}
    (h : (xs.anyM fun x => ys.anyM (p x)) = .ok t) : t = true ↔ ∃ x ∈ xs, ∃ y ∈ ys, p x y = .ok true := by
  cases t with
  | true =>
    obtain ⟨x, hx, h⟩ := exists_of_anyM h
    exact iff_of_true rfl ⟨x, hx, exists_of_anyM h⟩
  | false =>
    refine iff_of_false Bool.false_ne_true fun ⟨x, hx, y, hy, hp⟩ => ?_
    rw [forall_of_anyM (forall_of_anyM h x hx) y hy] at hp
    cases hp

/-- A step that fails for one of some things fails for all. -/
theorem mapM_eq_ok [Inhabited β] {p : α → Except ε β} {ys : List β} : xs.mapM p = .ok ys ↔
    ∃ k : α → β, (∀ x ∈ xs, p x = .ok (k x)) ∧ ys = xs.map k := by
  constructor
  · intro h
    refine ⟨fun x => (p x).toOption.getD default, ?_⟩
    induction xs generalizing ys with
    | nil =>
      cases h
      exact ⟨nofun, rfl⟩
    | cons x xs ih =>
      rw [List.mapM_cons] at h
      obtain ⟨y, hy, h⟩ := Atomic.bind_ok h
      obtain ⟨zs, hzs, h⟩ := Atomic.bind_ok h
      cases h
      obtain ⟨hxs, rfl⟩ := ih hzs
      have hx : (p x).toOption.getD default = y := by rw [hy]; rfl
      exact ⟨List.forall_mem_cons.2 ⟨hy.trans (congrArg Except.ok hx.symm), hxs⟩, by rw [List.map_cons, hx]⟩
  · rintro ⟨k, hk, rfl⟩
    induction xs with
    | nil => rfl
    | cons x xs ih =>
      obtain ⟨hx, hxs⟩ := List.forall_mem_cons.1 hk
      rw [List.mapM_cons, hx, List.map_cons]
      change (xs.mapM p >>= fun zs => pure (k x :: zs)) = _
      rw [ih hxs]
      rfl

end Tests

/-! What an index finds. -/
namespace Index

private theorem pairwise_eraseReps_loop {as : List ℕ} (a : ℕ) (acc : List ℕ)
    (has : (a :: as).Pairwise (· ≤ ·)) (hacc : (a :: acc).Pairwise (· > ·)) :
    (List.eraseRepsBy.loop (· == ·) a as acc).Pairwise (· < ·) := by
  induction as generalizing a acc with
  | nil => exact List.pairwise_reverse.2 hacc
  | cons b as ih =>
    have hle : a ≤ b := List.rel_of_pairwise_cons has List.mem_cons_self
    rw [List.eraseRepsBy.loop]
    split
    · next heq =>
      obtain rfl : a = b := beq_iff_eq.1 heq
      exact ih a acc has.of_cons hacc
    · next hne =>
      have hlt : a < b := lt_of_le_of_ne hle (beq_eq_false_iff_ne.1 hne)
      refine ih b (a :: acc) has.of_cons (List.pairwise_cons.2 ⟨fun c hc => ?_, hacc⟩)
      cases hc with
      | head => exact hlt
      | tail _ hc => exact lt_trans (List.rel_of_pairwise_cons hacc hc) hlt

/-- What is found through texts is found once, in order. -/
theorem pairwise_eraseReps (as : List ℕ) : as.mergeSort.eraseReps.Pairwise (· < ·) := by
  have hsorted : as.mergeSort.Pairwise (· ≤ ·) := by
    refine (List.pairwise_mergeSort (fun a b c hab hbc => ?_) (fun a b => ?_) as).imp of_decide_eq_true
    · exact decide_eq_true ((of_decide_eq_true hab).trans (of_decide_eq_true hbc))
    · simpa using Nat.le_total a b
  unfold List.eraseReps List.eraseRepsBy
  split
  · exact .nil
  · next a as' heq =>
    rw [heq] at hsorted
    exact pairwise_eraseReps_loop a [] hsorted (List.pairwise_singleton _ _)

theorem length_filterMap_getElem? {α : Type} {is : List ℕ} (h : is.Nodup) (xs : Array α) :
    (is.filterMap (xs[·]?)).length ≤ xs.size := by
  have hvalid : (is.filterMap (xs[·]?)).length = (is.filter (· < xs.size)).length := by
    rw [List.length_filterMap_eq_countP, List.countP_eq_length_filter]
    congr 1
    apply List.filter_congr
    intro i _
    by_cases hi : i < xs.size <;> simp [hi]
  have hsub : (is.filter (· < xs.size)).Subperm (List.range xs.size) :=
    (h.filter _).subperm fun i hi => List.mem_range.2 (of_decide_eq_true (List.mem_filter.1 hi).2)
  rw [hvalid]
  exact hsub.length_le.trans_eq List.length_range

/-- The items that are found are items of the index, and no more than there are. -/
theorem lookup_subset {x : Index} {vs : List Atomic} {ys : List Item} (h : x.lookup vs = .ok ys) :
    ys ⊆ x.entries.toList.map (·.1) ∧ ys.length ≤ x.entries.size := by
  unfold lookup at h
  split at h
  · cases h
    refine ⟨List.map_subset _ fun y hy => ?_, ?_⟩
    · obtain ⟨i, _, hi⟩ := List.mem_filterMap.1 hy
      exact Array.mem_toList_iff.2 (Array.mem_of_getElem? hi)
    · rw [List.length_map]
      exact length_filterMap_getElem? ((pairwise_eraseReps _).imp Nat.ne_of_lt) _
  · obtain ⟨zs, hf, hys⟩ := Atomic.bind_ok h
    cases hys
    obtain ⟨chosen, -, rfl⟩ := filterM_eq_ok.1 hf
    refine ⟨List.map_subset _ List.filter_sublist.subset, ?_⟩
    rw [List.length_map]
    exact List.length_filter_le ..

end Index

end XPath
