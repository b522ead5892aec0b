import XPath.Proofs.Coherence

/-!
What a source gives when it is asked to the end: its results one after the other, with the failures that it goes
on after. Selecting by position asks for some of these results, and passes over those that come before.
-/
namespace XPath

namespace Pull
variable {σ ε α : Type}

/-- All results one after the other, failures too, and the state after the last. -/
def outcomes : Pull σ ε α → List (Except ε α) × σ
  | done s => ([], s)
  | item r s rest =>
    let (rs, s) := outcomes (rest s)
    (r :: rs, s)

@[simp] theorem outcomes_done (s : σ) : (done s : Pull σ ε α).outcomes = ([], s) := rfl

@[simp] theorem outcomes_item (r : Except ε α) (s : σ) (rest : σ → Pull σ ε α) :
    (item r s rest).outcomes = (r :: (rest s).outcomes.1, (rest s).outcomes.2) := rfl

theorem outcomes_mapError (g : ε → ε) (p : Pull σ ε α) :
    (p.mapError g).outcomes = (p.outcomes.1.map (·.mapError g), p.outcomes.2) := by
  induction p with
  | done s => rfl
  | item r s rest ih => rw [mapError, outcomes_item, ih s, outcomes_item, List.map_cons]

theorem outcomes_drop (p : Pull σ ε α) (n : ℕ) : (p.drop n).outcomes = (p.outcomes.1.drop n, p.outcomes.2) := by
  induction p generalizing n with
  | done s => cases n <;> rfl
  | item r s rest ih =>
    cases n with
    | zero => rfl
    | succ n => exact ih s n

/-- No result is asked for after the last that is taken. -/
theorem outcomes_take (src : Source σ ε α) (n : ℕ) (s : σ) :
    (src.take n s).outcomes.1 = (src s).outcomes.1.take n := by
  induction n generalizing src s with
  | zero => rw [List.take_zero]; rfl
  | succ n ih =>
    unfold Source.take
    cases src s with
    | done s => rfl
    | item r s rest => rw [outcomes_item, outcomes_item, ih, List.take_succ_cons]

end Pull

theorem ok_of_map {ε α β : Type} {g : α → β} {r : Except ε α} {y : β} (h : r.map g = .ok y) :
    ∃ x, r = .ok x ∧ g x = y := by
  cases r with
  | error e => cases h
  | ok x => exact ⟨x, rfl, Except.ok.inj h⟩

theorem ok_of_mapError {ε ε' α : Type} {g : ε → ε'} {r : Except ε α} {x : α} (h : r.mapError g = .ok x) :
    r = .ok x := by
  cases r with
  | error e => cases h
  | ok y => exact congrArg Except.ok (Except.ok.inj h)

/-- The items of some results, or the first failure among them. -/
def delivered {ε α : Type} (rs : List (Except ε α)) : Except ε (List α) := rs.mapM id

section Delivered
variable {ε α : Type} {rs : List (Except ε α)}

@[simp] theorem delivered_nil : delivered ([] : List (Except ε α)) = .ok [] := rfl

@[simp] theorem delivered_error (e : ε) (rs : List (Except ε α)) : delivered (.error e :: rs) = .error e := rfl

@[simp] theorem delivered_ok (x : α) (rs : List (Except ε α)) :
    delivered (.ok x :: rs) = (delivered rs).map (x :: ·) := by
  rw [delivered, List.mapM_cons]
  change (delivered rs >>= fun xs => pure (x :: xs)) = _
  cases delivered rs <;> rfl

theorem delivered_items (xs : List α) : delivered (xs.map .ok : List (Except ε α)) = .ok xs := by
  induction xs with
  | nil => rfl
  | cons x xs ih => rw [List.map_cons, delivered_ok, ih]; rfl

/-- All is delivered if nothing fails. -/
theorem delivered_eq_ok {xs : List α} : delivered rs = .ok xs ↔ rs = xs.map .ok := by
  refine ⟨fun h => ?_, fun h => h ▸ delivered_items xs⟩
  induction rs generalizing xs with
  | nil =>
    cases h
    rfl
  | cons r rs ih =>
    cases r with
    | error e => cases h
    | ok x =>
      rw [delivered_ok] at h
      cases hrs : delivered rs with
      | error e =>
        rw [hrs] at h
        cases h
      | ok ys =>
        rw [hrs] at h
        cases h
        rw [ih hrs, List.map_cons]

theorem exists_items (h : ∀ e, .error e ∉ rs) : ∃ xs : List α, rs = xs.map .ok := by
  induction rs with
  | nil => exact ⟨[], rfl⟩
  | cons r rs ih =>
    obtain ⟨xs, rfl⟩ := ih fun e he => h e (List.mem_cons_of_mem r he)
    cases r with
    | error e => exact absurd List.mem_cons_self (h e)
    | ok x => exact ⟨x :: xs, rfl⟩

theorem delivered_map_error (g : ε → ε) (rs : List (Except ε α)) :
    delivered (rs.map (·.mapError g)) = (delivered rs).mapError g := by
  induction rs with
  | nil => rfl
  | cons r rs ih =>
    cases r with
    | error e => rfl
    | ok x =>
      change delivered (.ok x :: rs.map _) = _
      rw [delivered_ok, delivered_ok, ih]
      cases delivered rs <;> rfl

/-- Where nothing fails among the first results, they do not count for the others. -/
theorem delivered_drop {n : ℕ} (h : ∀ r ∈ rs.take n, r.isOk) :
    delivered (rs.drop n) = (delivered rs).map (·.drop n) := by
  induction n generalizing rs with
  | zero =>
    rw [List.drop_zero]
    cases delivered rs <;> rfl
  | succ n ih =>
    match rs with
    | [] => rfl
    | .error e :: rs => cases (List.forall_mem_cons.1 h).1
    | .ok x :: rs =>
      rw [delivered_ok, List.drop_succ_cons, ih (List.forall_mem_cons.1 h).2]
      cases delivered rs <;> rfl

end Delivered

theorem Pull.collect_eq {σ ε α : Type} (p : Pull σ ε α) (met : List α) :
    (p.collect met).1 = (delivered p.outcomes.1).map (met.reverse ++ ·) := by
  induction p generalizing met with
  | done s => simp [collect, Except.map]
  | item r s rest ih =>
    cases r with
    | error e => rfl
    | ok x =>
      rw [collect, ih s (x :: met), outcomes_item, delivered_ok]
      cases delivered (rest s).outcomes.1 with
      | error e => rfl
      | ok xs => simp [Except.map]

namespace Source
variable {α β : Type}

theorem outcomes_ofList {σ ε : Type} (xs : List α) (s : σ) :
    (ofList xs s : Pull σ ε α).outcomes = (xs.map .ok, s) := by
  induction xs with
  | nil => rfl
  | cons x xs ih => rw [ofList, Pull.outcomes_item, ih, List.map_cons]

/-- Items that are made of what a step gives. -/
theorem outcomes_after (a : Eval β) (g : β → List α) (w : World) :
    ((after do return ofList (g (← a))) w).outcomes.1 = match (a.perform w).1 with
      | .ok b => (g b).map .ok
      | .error e => [.error e] := by
  unfold after
  rw [Regime.perform_bind]
  cases a.perform w with
  | mk r w' =>
    cases r with
    | error e => rfl
    | ok b => exact congrArg Prod.fst (outcomes_ofList (g b) w')

/-- Asking for all items comes to asking for all results up to the first failure. -/
theorem toList_eq (src : Source World Failure α) (w : World) :
    (src.toList.perform w).1 = delivered (src w).outcomes.1 := by
  rw [perform_toList, Pull.collect_eq]
  cases delivered (src w).outcomes.1 <;> rfl

theorem get?_eq (src : Source World Failure α) (n : ℕ) (w : World) :
    ((src.get? n).perform w).1 = (src w).outcomes.1[n]?.elim (.ok none) (·.map some) := by
  have hdrop := congrArg Prod.fst ((src w).outcomes_drop n)
  have hhead : (src w).outcomes.1[n]? = ((src w).drop n).outcomes.1.head? := by
    rw [hdrop, List.head?_drop]
  rw [hhead]
  change (((src w).drop n).head?).1 = _
  cases (src w).drop n with
  | done w => rfl
  | item r w rest => cases r <;> rfl

end Source

/-- The results of the items in a world, one after the other. -/
def Ways.outcomes (a : Ways) (f : Frame) (w : World) : List (Except Failure Item) := (a.items f w).outcomes.1

/-- What evaluating to all items gives in a world. -/
def Expr.result (c : DynamicContext) (e : Expr) (f : Frame) (w : World) : Except Failure (List Item) :=
  (((e.meaning c).toList f).perform w).1

end XPath
