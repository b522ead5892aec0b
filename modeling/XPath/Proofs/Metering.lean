import XPath.Proofs.Values

/-!
How often what is put off is started. A meter reads it off a cell. An evaluation adds so much to the reading at most,
and a source adds so much from the next item on, whatever else is added in between. What is evaluated one after the
other adds up; what is done for every item adds nothing, or else there is no bound.
-/
namespace XPath

/-- Tells how often the evaluation in a cell has been started. -/
structure Meter where
  cell : ℕ

namespace Meter
variable {M : Meter} {α β : Type} {P : α → Prop} {Q : β → Prop} {a b c m n t : ℕ∞}

/-- There is the cell, and its evaluation has been started so many times at most. -/
def Reads (M : Meter) (n : ℕ∞) (w : World) : Prop := ∃ cell, w.cells[M.cell]? = some cell ∧ (cell.starts : ℕ∞) ≤ n

/-- An evaluation adds so many starts at most. -/
def Runs (M : Meter) (b : ℕ∞) (p : Eval α) (P : α → Prop) : Prop :=
  ∀ n w, M.Reads n w → M.Reads (n + b) (p.perform w).2 ∧ ∀ x, (p.perform w).1 = .ok x → P x

/-- The reading is so much at most, now and as long as nothing but the source adds to it. What may still be added
after an item does not depend on what is added before the next one is asked for. -/
inductive Gives (M : Meter) {α : Type} : ℕ∞ → Pull World Failure α → Prop where
  | done {t w} : M.Reads t w → Gives M t (.done w)
  | item {t m b r w rest} : M.Reads m w → m + b ≤ t → (∀ n w, M.Reads n w → Gives M (n + b) (rest w)) →
      Gives M t (.item r w rest)

/-- A source adds so many starts at most. -/
def Yields (M : Meter) (b : ℕ∞) (src : Source World Failure α) : Prop := ∀ n w, M.Reads n w → M.Gives (n + b) (src w)

theorem Reads.of_le {w : World} (h : M.Reads m w) (hle : m ≤ n) : M.Reads n w :=
  h.imp fun _ hcell => ⟨hcell.1, hcell.2.trans hle⟩

theorem Reads.of_cells {w w' : World} (h : M.Reads n w) (hcells : w'.cells = w.cells) : M.Reads n w' := by
  rw [Reads, hcells]
  exact h

/-! What is done for every item. -/

theorem le_top_mul (b : ℕ∞) : b ≤ ⊤ * b := le_mul_of_one_le_left' le_top

theorem top_mul_add_self (b : ℕ∞) : ⊤ * b + ⊤ * b = ⊤ * b := by
  rw [← add_mul, top_add]

/-- Between two items nothing is left of what is done for the first one: it adds nothing or has no bound. -/
theorem loop_le (h : m + b ≤ t) : m + ⊤ * c + (b + ⊤ * c) ≤ t + ⊤ * c :=
  calc m + ⊤ * c + (b + ⊤ * c) = m + b + (⊤ * c + ⊤ * c) := add_add_add_comm ..
    _ = m + b + ⊤ * c := by rw [top_mul_add_self]
    _ ≤ t + ⊤ * c := by gcongr

/-! Evaluations. -/

section Runs
variable {p : Eval α} {f : α → Eval β} {g : α → β}

theorem Runs.of_le (h : M.Runs b p P) (hle : b ≤ c) : M.Runs c p P :=
  fun n w hw => ⟨(h n w hw).1.of_le (by gcongr), (h n w hw).2⟩

/-- An evaluation that leaves the cells as they are adds nothing. -/
theorem runs_of_cells (h : ∀ w, (p.perform w).2.cells = w.cells) : M.Runs b p fun _ => True :=
  fun _ w hw => ⟨(hw.of_cells (h w)).of_le le_self_add, fun _ _ => trivial⟩

theorem runs_pure {x : α} (h : P x) : M.Runs b (pure x) P :=
  fun _ _ hw => ⟨hw.of_le le_self_add, fun _ hx => by cases hx; exact h⟩

theorem runs_fail (code : ErrorCode) : M.Runs b (Eval.fail code) P := fun _ _ hw => ⟨hw.of_le le_self_add, nofun⟩

theorem Runs.bind (hp : M.Runs a p P) (hf : ∀ x, P x → M.Runs b (f x) Q) : M.Runs (a + b) (p >>= f) Q := by
  intro n w hw
  obtain ⟨hw', hx⟩ := hp n w hw
  rw [Regime.perform_bind]
  generalize p.perform w = r at hw' hx ⊢
  obtain ⟨r, w'⟩ := r
  cases r with
  | error e => exact ⟨hw'.of_le (by rw [← add_assoc]; exact le_self_add), nofun⟩
  | ok x =>
    rw [← add_assoc]
    exact hf x (hx x rfl) _ _ hw'

/-- The rest adds nothing. -/
theorem Runs.then (hp : M.Runs a p P) (hf : ∀ x, P x → M.Runs 0 (f x) Q) : M.Runs a (p >>= f) Q :=
  (hp.bind hf).of_le (add_zero a).le

/-- The first step adds nothing. -/
theorem Runs.first (hp : M.Runs 0 p P) (hf : ∀ x, P x → M.Runs b (f x) Q) : M.Runs b (p >>= f) Q :=
  (hp.bind hf).of_le (zero_add b).le

theorem Runs.gives (hp : M.Runs a p P) (hg : ∀ x, P x → Q (g x)) : M.Runs a (do return g (← p)) Q :=
  hp.then fun x hx => runs_pure (hg x hx)

theorem Runs.map (hp : M.Runs a p P) (hg : ∀ x, P x → Q (g x)) : M.Runs a (g <$> p) Q := by
  rw [← bind_pure_comp]
  exact hp.gives hg

theorem runs_ofExcept (r : Except ErrorCode α) : M.Runs b (Eval.ofExcept r) fun _ => True := by
  cases r with
  | ok x => exact runs_pure trivial
  | error code => exact runs_fail code

theorem runs_require {o : Option α} {code : ErrorCode} (h : ∀ x, o = some x → P x) :
    M.Runs b (Eval.require code o) P := by
  cases o with
  | some x => exact runs_pure (h x rfl)
  | none => exact runs_fail code

theorem runs_require_any (o : Option α) (code : ErrorCode) : M.Runs b (Eval.require code o) fun _ => True :=
  runs_require fun _ _ => trivial

theorem Runs.mapError (hp : M.Runs b p P) (g : Failure → Failure) : M.Runs b (p.mapError g) P := by
  intro n w hw
  obtain ⟨hw', hx⟩ := hp n w hw
  rw [Regime.perform_mapError]
  refine ⟨hw', fun x hok => hx x ?_⟩
  generalize (p.perform w).1 = r at hok ⊢
  cases r with
  | ok y => exact hok
  | error e => cases hok

theorem Runs.orAt (hp : M.Runs b p P) (l : LocationId) : M.Runs b (p.orAt l) P := hp.mapError _

theorem runs_forest : M.Runs b Eval.forest fun _ => True := runs_of_cells fun _ => rfl

theorem runs_ordering (g : Forest → DocumentOrder → α × DocumentOrder) :
    M.Runs b (Eval.ordering g) fun _ => True := runs_of_cells fun _ => rfl

theorem runs_modifyForest (g : Forest → α × Forest) : M.Runs b (Eval.modifyForest g) fun _ => True :=
  runs_of_cells fun _ => rfl

theorem runs_value (x : Item) : M.Runs b (Eval.value x) fun _ => True := runs_of_cells fun _ => rfl

theorem Runs.optionMapM {o : Option α} (hf : ∀ x, M.Runs b (f x) fun _ => True) :
    M.Runs b (o.mapM f) fun _ => True := by
  cases o with
  | none => exact runs_pure trivial
  | some x => exact (hf x).map fun _ _ => trivial

/-- What is done for every element of a list. -/
theorem Runs.listMapM {xs : List α} (hf : ∀ x ∈ xs, M.Runs b (f x) fun _ => True) :
    M.Runs (⊤ * b) (xs.mapM f) fun _ => True := by
  induction xs with
  | nil => exact runs_pure trivial
  | cons x xs ih =>
    obtain ⟨hx, hxs⟩ := List.forall_mem_cons.1 hf
    rw [List.mapM_cons]
    refine ((hx.of_le (le_top_mul b)).bind fun y _ => (ih hxs).gives fun _ _ => trivial).of_le ?_
    rw [top_mul_add_self]

/-- What is done once with every one of several things. -/
theorem Runs.listMapM_sum {xs : List α} {bs : List ℕ∞}
    (hf : List.Forall₂ (fun b x => M.Runs b (f x) fun _ => True) bs xs) :
    M.Runs bs.sum (xs.mapM f) fun _ => True := by
  induction hf with
  | nil => exact runs_pure trivial
  | cons hx _ ih =>
    rw [List.mapM_cons, List.sum_cons]
    exact hx.bind fun y _ => ih.gives fun _ _ => trivial

end Runs

/-! Sources. -/

section Yields
variable {p : Pull World Failure α} {src second : Source World Failure α}

theorem Gives.of_le (h : M.Gives t p) (hle : t ≤ n) : M.Gives n p := by
  cases h with
  | done hw => exact .done (hw.of_le hle)
  | item hw hb hrest => exact .item hw (hb.trans hle) hrest

theorem Yields.of_le (h : M.Yields a src) (hle : a ≤ b) : M.Yields b src :=
  fun n w hw => (h n w hw).of_le (by gcongr)

theorem yields_empty : M.Yields b (.empty : Source World Failure α) := fun _ _ hw => .done (hw.of_le le_self_add)

theorem yields_fail (e : Failure) : M.Yields b (.fail e : Source World Failure α) :=
  fun _ _ hw => .item hw le_rfl yields_empty

theorem yields_ofList (xs : List α) : M.Yields b (.ofList xs : Source World Failure α) := by
  induction xs with
  | nil => exact yields_empty
  | cons x xs ih => exact fun _ _ hw => .item hw le_rfl ih

theorem yields_after {p : Eval (Source World Failure α)} (h : M.Runs a p (M.Yields b)) :
    M.Yields (a + b) (.after p) := by
  intro n w hw
  obtain ⟨hw', hsrc⟩ := h n w hw
  rw [← add_assoc]
  unfold Source.after
  generalize p.perform w = r at hw' hsrc ⊢
  obtain ⟨r, w'⟩ := r
  cases r with
  | ok src => exact hsrc src rfl _ _ hw'
  | error e => exact .item hw' le_rfl yields_empty

/-- Something is evaluated first, and then the items of a list made of it are given. -/
theorem yields_list {p : Eval α} {g : α → List β} (h : M.Runs b p fun _ => True) :
    M.Yields b (.after (return .ofList (g (← p)))) :=
  (yields_after (b := 0) (h.gives fun _ _ => yields_ofList _)).of_le (add_zero b).le

theorem Gives.append (h : M.Gives t p) (hs : M.Yields b second) : M.Gives (t + b) (p.append second) := by
  induction h with
  | done hw => exact hs _ _ hw
  | @item t m c r w rest hw hle _ ih =>
    refine .item (b := c + b) hw (by rw [← add_assoc]; gcongr) fun n w hw => ?_
    rw [← add_assoc]
    exact ih n w hw

theorem yields_concat {srcs : List (Source World Failure α)} {bs : List ℕ∞} (h : List.Forall₂ M.Yields bs srcs) :
    M.Yields bs.sum (.concat srcs) := by
  induction h with
  | nil => exact yields_empty
  | cons hsrc _ ih =>
    intro n w hw
    rw [List.sum_cons, ← add_assoc]
    exact (hsrc n w hw).append ih

theorem Gives.mapError (h : M.Gives t p) (g : Failure → Failure) : M.Gives t (p.mapError g) := by
  induction h with
  | done hw => exact .done hw
  | item hw hle _ ih => exact .item hw hle ih

theorem Yields.mapError (h : M.Yields b src) (g : Failure → Failure) : M.Yields b (src.mapError g) :=
  fun n w hw => (h n w hw).mapError g

theorem Gives.mapM {f : α → Eval β} (h : M.Gives t p) (hf : ∀ x, M.Runs (⊤ * c) (f x) Q) :
    M.Gives (t + ⊤ * c) (p.mapM f) := by
  induction h with
  | done hw => exact .done (hw.of_le le_self_add)
  | @item t m b r w rest hw hle _ ih =>
    have hnext : ∀ n w, M.Reads n w → M.Gives (n + (b + ⊤ * c)) ((rest w).mapM f) := fun n w hw => by
      rw [← add_assoc]
      exact ih n w hw
    cases r with
    | error e => exact .item hw ((add_le_add le_self_add le_rfl).trans (loop_le hle)) hnext
    | ok x => exact .item (hf x m w hw).1 (loop_le hle) hnext

theorem Yields.mapM {f : α → Eval β} (h : M.Yields a src) (hf : ∀ x, M.Runs c (f x) Q) :
    M.Yields (a + ⊤ * c) (src.mapM f) := by
  intro n w hw
  rw [← add_assoc]
  exact (h n w hw).mapM fun x => (hf x).of_le (le_top_mul c)

/-- What is read off every item adds nothing. -/
theorem Yields.reads {f : α → Eval β} (h : M.Yields a src) (hf : ∀ x, M.Runs 0 (f x) Q) : M.Yields a (src.mapM f) :=
  (h.mapM hf).of_le (by rw [mul_zero, add_zero])

theorem Gives.filterM {f : ℕ → α → Eval Bool} (h : M.Gives t p) (hf : ∀ n x, M.Runs (⊤ * c) (f n x) fun _ => True)
    (i : ℕ) : M.Gives (t + ⊤ * c) (p.filterM f i) := by
  induction h generalizing i with
  | done hw => exact .done (hw.of_le le_self_add)
  | @item t m b r w rest hw hle _ ih =>
    have hnext (i : ℕ) : ∀ n w, M.Reads n w → M.Gives (n + (b + ⊤ * c)) ((rest w).filterM f i) := fun n w hw => by
      rw [← add_assoc]
      exact ih n w hw i
    cases r with
    | error e => exact .item hw ((add_le_add le_self_add le_rfl).trans (loop_le hle)) (hnext _)
    | ok x =>
      have hw' := (hf i x m w hw).1
      unfold Pull.filterM
      generalize (f i x).perform w = r at hw' ⊢
      obtain ⟨r, w'⟩ := r
      cases r with
      | error e => exact .item hw' (loop_le hle) (hnext _)
      | ok holds =>
        cases holds with
        | true => exact .item hw' (loop_le hle) (hnext _)
        | false => exact (hnext _ _ _ hw').of_le (loop_le hle)

theorem Yields.filterM {f : ℕ → α → Eval Bool} (h : M.Yields a src) (hf : ∀ n x, M.Runs c (f n x) fun _ => True) :
    M.Yields (a + ⊤ * c) (src.filterM f) := by
  intro n w hw
  rw [← add_assoc]
  exact (h n w hw).filterM (fun i x => (hf i x).of_le (le_top_mul c)) 1

theorem Gives.bind {f : ℕ → α → Source World Failure β} (h : M.Gives t p) (hf : ∀ n x, M.Yields (⊤ * c) (f n x))
    (i : ℕ) : M.Gives (t + ⊤ * c) (p.bind f i) := by
  induction h generalizing i with
  | done hw => exact .done (hw.of_le le_self_add)
  | @item t m b r w rest hw hle _ ih =>
    have hnext (i : ℕ) : M.Yields (b + ⊤ * c) fun w => (rest w).bind f i := fun n w hw => by
      rw [← add_assoc]
      exact ih n w hw i
    cases r with
    | error e => exact .item hw ((add_le_add le_self_add le_rfl).trans (loop_le hle)) (hnext _)
    | ok x =>
      rw [Regime.bind_item]
      exact ((hf i x m w hw).append (hnext (i + 1))).of_le (loop_le hle)

theorem Yields.bind {f : ℕ → α → Source World Failure β} (h : M.Yields a src) (hf : ∀ n x, M.Yields c (f n x)) :
    M.Yields (a + ⊤ * c) (src.bind f) := by
  intro n w hw
  rw [← add_assoc]
  exact (h n w hw).bind (fun i x => (hf i x).of_le (le_top_mul c)) 1

theorem Gives.drop (h : M.Gives t p) (k : ℕ) : M.Gives t (p.drop k) := by
  induction h generalizing k with
  | done hw => cases k <;> exact .done hw
  | item hw hle hrest ih =>
    cases k with
    | zero => exact .item hw hle hrest
    | succ k => exact (ih _ _ hw k).of_le hle

theorem Yields.drop (h : M.Yields b src) (k : ℕ) : M.Yields b (src.drop k) := fun n w hw => (h n w hw).drop k

theorem Yields.take (h : M.Yields b src) (k : ℕ) : M.Yields b (src.take k) := by
  induction k generalizing src b with
  | zero => exact yields_empty
  | succ k ih =>
    intro n w hw
    have hg := h n w hw
    unfold Source.take
    generalize src w = p at hg ⊢
    cases hg with
    | done hw => exact .done hw
    | item hw hle hrest => exact .item hw hle (ih hrest)

/-! What is made of the items. -/

theorem Gives.forIn {f : β → α → Eval (ForInStep β)} (h : M.Gives t p)
    (hf : ∀ b x, M.Runs (⊤ * c) (f b x) fun _ => True) (s : β) : M.Reads (t + ⊤ * c) (p.forIn s f).2 := by
  induction h generalizing s with
  | done hw => exact hw.of_le le_self_add
  | @item t m b r w rest hw hle _ ih =>
    have hstop : m + ⊤ * c ≤ t + ⊤ * c := le_self_add.trans (loop_le hle)
    cases r with
    | error e => exact hw.of_le (le_self_add.trans hstop)
    | ok x =>
      have hw' := (hf s x m w hw).1
      unfold Pull.forIn
      generalize (f s x).perform w = r at hw' ⊢
      obtain ⟨r, w'⟩ := r
      cases r with
      | error e => exact hw'.of_le hstop
      | ok step =>
        cases step with
        | done s => exact hw'.of_le hstop
        | yield s =>
          refine (ih _ _ hw' s).of_le ?_
          rw [add_assoc]
          exact loop_le hle

theorem Yields.forIn {f : β → α → Eval (ForInStep β)} (h : M.Yields a src)
    (hf : ∀ b x, M.Runs c (f b x) fun _ => True) (s : β) : M.Runs (a + ⊤ * c) (src.forIn s f) fun _ => True := by
  intro n w hw
  rw [← add_assoc]
  exact ⟨(h n w hw).forIn (fun b x => (hf b x).of_le (le_top_mul c)) s, fun _ _ => trivial⟩

/-- A loop of which no step adds anything. -/
theorem Yields.folds {f : β → α → Eval (ForInStep β)} (h : M.Yields a src)
    (hf : ∀ b x, M.Runs 0 (f b x) fun _ => True) (s : β) : M.Runs a (src.forIn s f) fun _ => True :=
  (h.forIn hf s).of_le (by rw [mul_zero, add_zero])

theorem Gives.collect (h : M.Gives t p) (met : List α) : M.Reads t (p.collect met).2 := by
  induction h generalizing met with
  | done hw => exact hw
  | @item t m b r w rest hw hle _ ih =>
    cases r with
    | error e => exact hw.of_le (le_self_add.trans hle)
    | ok x => exact (ih _ _ hw (x :: met)).of_le hle

theorem Yields.toList (h : M.Yields b src) : M.Runs b src.toList fun _ => True :=
  fun n w hw => ⟨(h n w hw).collect [], fun _ _ => trivial⟩

theorem Gives.head? (h : M.Gives t p) : M.Reads t p.head?.2 := by
  cases h with
  | done hw => exact hw
  | @item _ m b r w rest hw hle _ => cases r <;> exact hw.of_le (le_self_add.trans hle)

theorem Yields.head? (h : M.Yields b src) : M.Runs b src.head? fun _ => True :=
  fun n w hw => ⟨(h n w hw).head?, fun _ _ => trivial⟩

theorem Yields.get? (h : M.Yields b src) (k : ℕ) : M.Runs b (src.get? k) fun _ => True :=
  fun n w hw => ⟨((h n w hw).drop k).head?, fun _ _ => trivial⟩

theorem Gives.only? (h : M.Gives t p) (many : Failure) : M.Reads t (p.only? many).2 := by
  cases h with
  | done hw => exact hw
  | @item _ m b r w rest hw hle hrest =>
    cases r with
    | error e => exact hw.of_le (le_self_add.trans hle)
    | ok x =>
      have hg := (hrest _ _ hw).of_le hle
      unfold Pull.only?
      dsimp only
      generalize rest w = q at hg ⊢
      cases hg with
      | done hw => exact hw
      | @item _ _ _ r _ _ hw hle _ => cases r <;> exact hw.of_le (le_self_add.trans hle)

theorem Yields.only? (h : M.Yields b src) (many : Failure) : M.Runs b (src.only? many) fun _ => True :=
  fun n w hw => ⟨(h n w hw).only? many, fun _ _ => trivial⟩

theorem Yields.truth {src : Items} (h : M.Yields b src) (one : Atomic → Bool) :
    M.Runs b (src.truth one) fun _ => True := by
  intro n w hw
  have hg := h n w hw
  refine ⟨?_, fun _ _ => trivial⟩
  rw [Regime.perform_truth]
  generalize src w = p at hg ⊢
  cases hg with
  | done hw => exact hw
  | @item _ m b r w rest hw hle hrest =>
    cases r with
    | error e => exact hw.of_le (le_self_add.trans hle)
    | ok x =>
      cases x with
      | node i => exact hw.of_le (le_self_add.trans hle)
      | atomic a =>
        have hg := (hrest _ _ hw).of_le hle
        dsimp only
        generalize rest w = q at hg ⊢
        cases hg with
        | done hw => exact hw
        | @item _ _ _ r _ _ hw hle _ => cases r <;> exact hw.of_le (le_self_add.trans hle)

end Yields

/-! What is put off. -/

section Deferred
variable {d : Deferred} {src : Items} {w : World}

/-- A cell is written to, and the evaluation in it has been started so many times more at most. -/
theorem Reads.modify (h : M.Reads n w) (i : ℕ) {g : Cell → Cell} {k : ℕ}
    (hg : ∀ cell, (g cell).starts ≤ cell.starts + k) :
    M.Reads (n + if i = M.cell then (k : ℕ∞) else 0) { w with cells := w.cells.modify i g } := by
  obtain ⟨cell, hcell, hle⟩ := h
  by_cases hi : i = M.cell
  · rw [if_pos hi]
    refine ⟨g cell, by simp only [Array.getElem?_modify, hi, if_true, hcell, Option.map_some], ?_⟩
    calc ((g cell).starts : ℕ∞) ≤ (cell.starts + k : ℕ) := Nat.cast_le.2 (hg cell)
      _ ≤ n + k := by rw [Nat.cast_add]; gcongr
  · exact ⟨cell, by simp only [Array.getElem?_modify, hi, if_false, hcell], hle.trans le_self_add⟩

/-- What starting it adds: one if it is in this cell, and what its items add. -/
theorem yields_start (h : M.Yields b d.items) : M.Yields ((if d.cell = M.cell then 1 else 0) + b) d.start := by
  intro n w hw
  rw [← add_assoc]
  exact h _ _ (hw.modify (k := 1) d.cell fun _ => le_rfl)

theorem runs_deferred (h : M.Yields b d.start) : M.Runs b d.toList fun _ => True := by
  intro n w hw
  rw [Regime.perform_deferred]
  cases hcell : w.cells[d.cell]?.bind (·.kept) with
  | some xs => exact runs_pure trivial n w hw
  | none =>
    refine (h.toList.then fun xs _ => ?_) n w hw
    split
    · intro n w hw
      have hkeep := hw.modify (k := 0) (g := fun c => { c with kept := c.kept <|> some xs }) d.cell fun _ => le_rfl
      rw [Nat.cast_zero, ite_self] at hkeep
      exact ⟨hkeep, fun _ _ => trivial⟩
    · exact runs_pure trivial

theorem yields_deferred (h : M.Yields b d.start) : M.Yields b d.source := by
  unfold Deferred.source
  split
  · exact yields_list (g := id) (runs_deferred h)
  · exact h

/-- A new evaluation is in another cell. -/
theorem runs_create (keeps : Bool) (h : M.Yields b src) :
    M.Runs 0 (Deferred.create keeps src) fun d => M.Yields b d.start := by
  rintro n w ⟨cell, hcell, hle⟩
  have hlt : M.cell < w.cells.size := (Array.getElem?_eq_some_iff.1 hcell).1
  refine ⟨⟨cell, ?_, hle.trans le_self_add⟩, fun d hd => ?_⟩
  · exact (Array.getElem?_push_lt hlt).trans ((Array.getElem?_eq_getElem hlt).symm.trans hcell)
  · cases hd
    have hstart := yields_start (M := M) (d := ⟨w.cells.size, keeps, src⟩) h
    rwa [if_neg hlt.ne', zero_add] at hstart

end Deferred
end Meter
end XPath
