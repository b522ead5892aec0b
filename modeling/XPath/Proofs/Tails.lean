import XPath.Proofs.Predicates
import XPath.Proofs.Values

/-!
Tails of tails. A value that is put off counts the items to leave out in one machine word, whatever the number of times
its tail has been taken. So there is a tail of a tail exactly if the sum of the counts is one, and then walking through
the items gives the same as evaluating them all at once: all but as many as the counts add up to. Positions that can be
written take two tails, and three can break off.
-/
namespace XPath

namespace Deferred

/-- Walking through the items gives what evaluating them all at once gives, unless the cell has kept other items. -/
theorem source_toList (d : Deferred) {w : World} (h : d.keeps = false → w.cells[d.cell]?.bind (·.kept) = none) :
    (d.source.toList.perform w).1 = (d.toList.perform w).1 := by
  unfold source
  cases hkeeps : d.keeps with
  | true =>
    rw [if_pos rfl, Source.toList_eq]
    refine (congrArg delivered (Source.outcomes_after d.toList id w)).trans ?_
    cases (d.toList.perform w).1 with
    | error e => rfl
    | ok xs => exact delivered_items xs
  | false =>
    have hcell := h hkeeps
    rw [if_neg Bool.false_ne_true, Regime.perform_deferred, hcell, Regime.perform_bind, hkeeps]
    cases d.start.toList.perform w with
    | mk r w' => cases r <;> rfl

end Deferred

namespace Value
variable {v : Value} {d : Deferred} {skip : ℕ} {w : World} {xs : List Item}

/-- An evaluation that is not to keep its items has none kept in its cell. -/
def KeepsOwn (v : Value) (w : World) : Prop :=
  ∀ d skip, v = .deferred d skip → d.keeps = false → w.cells[d.cell]?.bind (·.kept) = none

/-- The tail of the value, the tail of that, and so on. -/
def tails? (v : Value) (ns : List ℕ) : Option Value := ns.foldlM (fun v n => v.tail? n) v

@[simp] theorem tails?_nil (v : Value) : v.tails? [] = some v := rfl

@[simp] theorem tails?_cons (v : Value) (n : ℕ) (ns : List ℕ) :
    v.tails? (n :: ns) = (v.tail? n).bind fun t => t.tails? ns := rfl

theorem tails?_items (xs : List Item) (ns : List ℕ) : (items xs).tails? ns = some (items (xs.drop ns.sum)) := by
  induction ns generalizing xs with
  | nil => rfl
  | cons n ns ih => rw [tails?_cons, tail?, Option.bind_some, ih, List.drop_drop, List.sum_cons]

/-- However many tails are taken, there is one count, and it has to be a machine word in the end. -/
theorem tails?_deferred (d : Deferred) (h : skip < pow2 64) (ns : List ℕ) : (deferred d skip).tails? ns =
    if skip + ns.sum < pow2 64 then some (deferred d (skip + ns.sum)) else none := by
  induction ns generalizing skip with
  | nil => exact (if_pos h).symm
  | cons n ns ih =>
    rw [tails?_cons, tail?, List.sum_cons, ← Nat.add_assoc]
    by_cases hword : skip + n < pow2 64
    · rw [if_pos hword, Option.bind_some, ih hword]
    · rw [if_neg hword, Option.bind_none, if_neg (fun hlt => hword ((Nat.le_add_right _ _).trans_lt hlt))]

/-- There are tails exactly if all the counts together can be skipped. -/
theorem isSome_tails? (hword : v.CanSkip 0) (ns : List ℕ) : (v.tails? ns).isSome ↔ v.CanSkip ns.sum := by
  cases v with
  | items xs =>
    rw [tails?_items]
    exact ⟨fun _ => by rintro _ _ ⟨⟩, fun _ => rfl⟩
  | deferred d skip =>
    have hskip : skip < pow2 64 := hword d skip rfl
    rw [tails?_deferred d hskip]
    constructor
    · rintro h _ _ ⟨⟩
      obtain ⟨t, ht⟩ := Option.isSome_iff_exists.1 h
      exact (Option.ite_none_right_eq_some.1 ht).1
    · intro h
      rw [if_pos (h d skip rfl)]
      rfl

/-- What is left of all items, whichever way they are asked for. -/
theorem evaluates_deferred (hkept : (deferred d skip).KeepsOwn w) (h : (d.toList.perform w).1 = .ok xs) :
    ((deferred d skip).toList.perform w).1 = .ok (xs.drop skip) ∧
      ((deferred d skip).source.toList.perform w).1 = .ok (xs.drop skip) := by
  constructor
  · change ((do return (← d.toList).drop skip : Eval (List Item)).perform w).1 = _
    rw [Regime.perform_bind]
    cases hrun : d.toList.perform w with
    | mk r w' =>
      rw [hrun] at h
      cases h
      rfl
  · have hall : delivered (d.source w).outcomes.1 = .ok xs := by
      rw [← Source.toList_eq, d.source_toList (hkept d skip rfl), h]
    change ((d.source.drop skip).toList.perform w).1 = _
    rw [Source.toList_eq, Source.drop, Pull.outcomes_drop, delivered_eq_ok.1 hall, ← List.map_drop, delivered_items]

theorem exists_of_evaluates (h : ((deferred d skip).toList.perform w).1 = .ok xs) :
    ∃ ys, (d.toList.perform w).1 = .ok ys ∧ xs = ys.drop skip := by
  change ((do return (← d.toList).drop skip : Eval (List Item)).perform w).1 = _ at h
  rw [Regime.perform_bind] at h
  cases hrun : d.toList.perform w with
  | mk r w' =>
    rw [hrun] at h
    cases r with
    | error e => cases h
    | ok ys => exact ⟨ys, rfl, (Except.ok.inj h).symm⟩

/-- The counts that positions can be written with are so small that two of them do not run over. -/
theorem canSkip_pair (h : ∀ d skip, v = .deferred d skip → skip = 0) {ns : List ℕ} (hns : ∀ n ∈ ns, n ≤ 2 ^ 63 - 2)
    (hlength : ns.length ≤ 2) : v.CanSkip ns.sum := by
  have hsum : ns.sum < pow2 64 := by
    have hle := List.sum_le_card_nsmul ns (2 ^ 63 - 2) hns
    have hpow : pow2 64 = 2 * 2 ^ 63 := by decide
    rw [smul_eq_mul] at hle
    rw [hpow]
    have := Nat.mul_le_mul_right (2 ^ 63 - 2) hlength
    omega
  intro d skip hv
  rw [h d skip hv, Nat.zero_add]
  exact hsum

/-- There are tails of a value exactly if their counts add up to a machine word. If the value evaluates to `xs`, they
leave out as many items as the counts add up to, and walking through what is left gives the same as evaluating it at
once. Two tails of a value that nothing has been left out of are always there. -/
theorem tails_add_up (hword : v.CanSkip 0) (hkept : v.KeepsOwn w) (h : (v.toList.perform w).1 = .ok xs) (ns : List ℕ) :
    ((v.tails? ns).isSome ↔ v.CanSkip ns.sum) ∧
      (∀ t, v.tails? ns = some t → (t.toList.perform w).1 = .ok (xs.drop ns.sum) ∧
        (t.source.toList.perform w).1 = .ok (xs.drop ns.sum)) ∧
      ((∀ d skip, v = .deferred d skip → skip = 0) → (∀ n ∈ ns, n ≤ 2 ^ 63 - 2) → ns.length ≤ 2 →
        (v.tails? ns).isSome) := by
  have hsome := isSome_tails? hword ns
  refine ⟨hsome, fun t ht => ?_, fun hfresh hns hlength => hsome.2 (canSkip_pair hfresh hns hlength)⟩
  cases v with
  | items as =>
    cases h
    rw [tails?_items] at ht
    cases ht
    exact ⟨rfl, (Source.toList_eq _ w).trans (by rw [source, Source.outcomes_ofList, delivered_items])⟩
  | deferred d skip =>
    obtain ⟨as, has, rfl⟩ := exists_of_evaluates h
    have hskip : skip < pow2 64 := hword d skip rfl
    rw [tails?_deferred d hskip] at ht
    cases (Option.ite_none_right_eq_some.1 ht).2
    have hkept' : (deferred d (skip + ns.sum)).KeepsOwn w := by
      rintro _ _ ⟨⟩
      exact hkept d skip rfl
    rw [List.drop_drop]
    exact evaluates_deferred hkept' has

/-- Five integers that are put off. -/
def fiveLater : Value := .deferred ⟨0, false, .ofList (Item.integers [1, 2, 3, 4, 5])⟩ 0

theorem tails_add_up_three : let start : World := { forest := {} }
    fiveLater.CanSkip 0 ∧ fiveLater.KeepsOwn start ∧
      (fiveLater.toList.perform start).1 = .ok (Item.integers [1, 2, 3, 4, 5]) ∧
      ∃ t, fiveLater.tails? [2, 1] = some t ∧ (t.toList.perform start).1 = .ok (Item.integers [4, 5]) ∧
        (t.source.toList.perform start).1 = .ok (Item.integers [4, 5]) := by
  intro start
  have hword : fiveLater.CanSkip 0 := by
    rintro _ _ ⟨⟩
    decide
  have hkept : fiveLater.KeepsOwn start := by
    rintro _ _ ⟨⟩ _
    rfl
  obtain ⟨-, hleft, hpair⟩ := tails_add_up hword hkept rfl [2, 1]
  obtain ⟨t, ht⟩ := Option.isSome_iff_exists.1 (hpair (by rintro _ _ ⟨⟩; rfl) (by decide) (by decide))
  obtain ⟨hlist, hsource⟩ := hleft t ht
  exact ⟨hword, hkept, rfl, t, ht, hlist, hsource⟩

/-- Three counts that can be written add up to more than a machine word holds: nothing would be left of five items, but
the third tail breaks off. -/
theorem tails_run_over : let start : World := { forest := {} }
    let ns := [2 ^ 63 - 2, 2 ^ 63 - 2, 4]
    (fiveLater.toList.perform start).1 = .ok (Item.integers [1, 2, 3, 4, 5]) ∧ (∀ n ∈ ns, n ≤ 2 ^ 63 - 2) ∧
      (Item.integers [1, 2, 3, 4, 5]).drop ns.sum = [] ∧ (fiveLater.tails? (ns.take 2)).isSome ∧
      fiveLater.tails? ns = none := by
  refine ⟨rfl, by decide, rfl, rfl, rfl⟩

end Value
end XPath
