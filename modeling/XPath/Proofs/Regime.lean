import XPath.Evaluation.World
import Mathlib

/-!
What evaluations keep. A regime says which worlds are good at a stage of what has been learnt; an
evaluation that is started in a good world leaves a good one, at a later stage. Of a source it is said
what its items are and how many there may be, whenever it is asked for the next one.
-/
namespace XPath

structure Regime where
  Stage : Type
  le : Stage → Stage → Prop
  refl : ∀ k, le k k
  trans : ∀ {k l m}, le k l → le l m → le k m
  good : Stage → World → Prop
  /-- What has been found out about document order does not matter. -/
  reordered : ∀ {k w} (o : DocumentOrder), good k w → good k { w with order := o }

namespace Regime

/-- What is known at a stage, and is still known later. -/
structure Known (R : Regime) (α : Type) where
  holds : R.Stage → α → Prop
  later : ∀ {k l x}, R.le k l → holds k x → holds l x

variable {R : Regime} {α β : Type}

namespace Known

/-- What does not depend on the stage. -/
def always (R : Regime) (p : α → Prop) : R.Known α := ⟨fun _ => p, fun _ => id⟩

/-- Nothing. -/
def any (R : Regime) (α : Type) : R.Known α := always R fun _ => True

end Known

/-- Items of a kind, and how many there may be. -/
structure Fits (P : R.Known α) (least : ℕ) (most : ℕ∞) (k : R.Stage) (xs : List α) : Prop where
  each : ∀ x ∈ xs, P.holds k x
  least : least ≤ xs.length
  most : xs.length ≤ most

theorem Fits.later {P : R.Known α} {least : ℕ} {most : ℕ∞} {k l : R.Stage} {xs : List α}
    (h : Fits P least most k xs) (hl : R.le k l) : Fits P least most l xs :=
  ⟨fun x hx => P.later hl (h.each x hx), h.least, h.most⟩

theorem Fits.imp {P Q : R.Known α} {least least' : ℕ} {most most' : ℕ∞} {k : R.Stage} {xs : List α}
    (h : Fits P least most k xs) (hPQ : ∀ x, P.holds k x → Q.holds k x) (hl : least' ≤ least)
    (hm : most ≤ most') : Fits Q least' most' k xs :=
  ⟨fun x hx => hPQ x (h.each x hx), hl.trans h.least, h.most.trans hm⟩

theorem Fits.append {P : R.Known α} {least least' : ℕ} {most most' : ℕ∞} {k : R.Stage} {xs ys : List α}
    (h : Fits P least most k xs) (h' : Fits P least' most' k ys) :
    Fits P (least + least') (most + most') k (xs ++ ys) where
  each x hx := (List.mem_append.1 hx).elim (h.each x) (h'.each x)
  least := by
    rw [List.length_append]
    exact Nat.add_le_add h.least h'.least
  most := by
    rw [List.length_append, Nat.cast_add]
    exact add_le_add h.most h'.most

/-- The world that is left is good, and what is given is as promised. -/
def Ends (k : R.Stage) (r : Except Failure α × World) (Q : R.Stage → α → Prop) : Prop :=
  ∃ l, R.le k l ∧ R.good l r.2 ∧ ∀ x, r.1 = .ok x → Q l x

/-- A step that ends well, whenever it is taken. -/
def Runs (k : R.Stage) (a : Eval α) (Q : R.Stage → α → Prop) : Prop :=
  ∀ l w, R.le k l → R.good l w → Ends l (a.perform w) Q

section Runs
variable {k l : R.Stage} {Q Q' : R.Stage → α → Prop} {S : R.Stage → β → Prop}

theorem Runs.later {a : Eval α} (h : Runs k a Q) (hl : R.le k l) : Runs l a Q :=
  fun m w hm hw => h m w (R.trans hl hm) hw

theorem Runs.imp {a : Eval α} (h : Runs k a Q) (hq : ∀ m x, R.le k m → Q m x → Q' m x) :
    Runs k a Q' := by
  intro l w hl hw
  obtain ⟨m, hm, hw', hx⟩ := h l w hl hw
  exact ⟨m, hm, hw', fun x hok => hq m x (R.trans hl hm) (hx x hok)⟩

theorem runs_pure {x : α} (h : ∀ m, R.le k m → Q m x) : Runs k (pure x) Q := by
  intro l w hl hw
  refine ⟨l, R.refl l, hw, fun y hy => ?_⟩
  cases hy
  exact h l hl

theorem runs_fail (code : ErrorCode) : Runs k (Eval.fail code : Eval α) Q :=
  fun l _ _ hw => ⟨l, R.refl l, hw, nofun⟩

theorem perform_bind (a : Eval α) (f : α → Eval β) (w : World) :
    (a >>= f).perform w = match a.perform w with
      | (.ok x, w) => (f x).perform w
      | (.error e, w) => (.error e, w) := by
  change (ExceptT.bind a f) w = _
  simp only [ExceptT.bind, ExceptT.mk, bind, StateT.bind, Action.perform]
  cases a w with
  | mk r w' => cases r <;> rfl

theorem Runs.bind {a : Eval α} {f : α → Eval β} (ha : Runs k a Q)
    (hf : ∀ m x, R.le k m → Q m x → Runs m (f x) S) : Runs k (a >>= f) S := by
  intro l w hl hw
  obtain ⟨m, hm, hw', hx⟩ := ha l w hl hw
  rw [perform_bind]
  cases ha' : a.perform w with
  | mk r w₁ =>
    rw [ha'] at hw' hx
    cases r with
    | error e => exact ⟨m, hm, hw', nofun⟩
    | ok x =>
      obtain ⟨n, hn, hw'', hy⟩ := hf m x (R.trans hl hm) (hx x rfl) m w₁ (R.refl m) hw'
      exact ⟨n, R.trans hm hn, hw'', hy⟩

theorem Runs.map {a : Eval α} {g : α → β} (ha : Runs k a Q)
    (hg : ∀ m x, R.le k m → Q m x → S m (g x)) : Runs k (g <$> a) S := by
  intro l w hl hw
  obtain ⟨m, hm, hw', hx⟩ := ha l w hl hw
  rw [← bind_pure_comp, perform_bind]
  cases ha' : a.perform w with
  | mk r w₁ =>
    rw [ha'] at hw' hx
    cases r with
    | error e => exact ⟨m, hm, hw', nofun⟩
    | ok x =>
      refine ⟨m, hm, hw', fun y hy => ?_⟩
      cases hy
      exact hg m x (R.trans hl hm) (hx x rfl)

theorem runs_ofExcept {r : Except ErrorCode α} (h : ∀ m x, R.le k m → r = .ok x → Q m x) :
    Runs k (Eval.ofExcept r) Q := by
  cases r with
  | ok x => exact runs_pure fun m hm => h m x hm rfl
  | error code => exact runs_fail code

theorem runs_require {o : Option α} {code : ErrorCode} (h : ∀ m x, R.le k m → o = some x → Q m x) :
    Runs k (Eval.require code o) Q := by
  cases o with
  | some x => exact runs_pure fun m hm => h m x hm rfl
  | none => exact runs_fail code

theorem runs_ofExcept_any (r : Except ErrorCode α) : Runs k (Eval.ofExcept r) fun _ _ => True :=
  runs_ofExcept fun _ _ _ _ => trivial

theorem runs_require_any (o : Option α) (code : ErrorCode) :
    Runs k (Eval.require code o) fun _ _ => True :=
  runs_require fun _ _ _ _ => trivial

/-- What is made of a value of which nothing is said. -/
theorem Runs.gives {a : Eval α} {g : α → β} (ha : Runs k a fun _ _ => True) (hg : ∀ m x, S m (g x)) :
    Runs k (do return g (← a)) S :=
  ha.bind fun _ x _ _ => runs_pure fun m _ => hg m x

theorem perform_mapError (a : Eval α) (g : Failure → Failure) (w : World) :
    (a.mapError g).perform w = ((a.perform w).1.mapError g, (a.perform w).2) := by
  simp only [Action.mapError, Action.of, Action.perform]
  cases a w with
  | mk r w' => cases r <;> rfl

theorem Runs.mapError {a : Eval α} (ha : Runs k a Q) (g : Failure → Failure) :
    Runs k (a.mapError g) Q := by
  intro l w hl hw
  obtain ⟨m, hm, hw', hx⟩ := ha l w hl hw
  rw [perform_mapError]
  refine ⟨m, hm, hw', fun x hok => hx x ?_⟩
  cases hr : (a.perform w).1 with
  | ok y =>
    rw [hr] at hok
    exact hok
  | error e =>
    rw [hr] at hok
    cases hok

theorem Runs.orAt {a : Eval α} (ha : Runs k a Q) (at' : LocationId) : Runs k (a.orAt at') Q :=
  ha.mapError _

/-- Reading the trees tells what they are in a good world. -/
theorem runs_forest : Runs k Eval.forest fun m t => ∃ w, R.good m w ∧ w.forest = t := by
  intro l w hl hw
  refine ⟨l, R.refl l, hw, fun t ht => ⟨w, hw, ?_⟩⟩
  cases ht
  rfl

theorem runs_ordering (g : Forest → DocumentOrder → α × DocumentOrder) (h : ∀ m t o, Q m (g t o).1) :
    Runs k (Eval.ordering g) Q := by
  intro l w hl hw
  refine ⟨l, R.refl l, R.reordered (g w.forest w.order).2 hw, fun x hx => ?_⟩
  cases hx
  exact h l w.forest w.order

theorem runs_ordering_any (g : Forest → DocumentOrder → α × DocumentOrder) :
    Runs k (Eval.ordering g) fun _ _ => True :=
  runs_ordering g fun _ _ _ => trivial

theorem runs_value (x : Item) : Runs k (Eval.value x) fun _ _ => True :=
  runs_forest.bind fun _ _ _ _ => runs_pure fun _ _ => trivial

theorem Runs.optionMapM {o : Option α} {f : α → Eval β} (hf : ∀ x, o = some x → Runs k (f x) S)
    {T : R.Stage → Option β → Prop} (hnone : ∀ m, R.le k m → o = none → T m none)
    (hsome : ∀ m x y, R.le k m → o = some x → S m y → T m (some y)) : Runs k (o.mapM f) T := by
  cases o with
  | none => exact runs_pure fun m hm => hnone m hm rfl
  | some x => exact (hf x rfl).map fun m y hm hy => hsome m x y hm rfl hy

/-- A step for every element, of which what is given stays true. -/
theorem Runs.listMapM {xs : List α} {f : α → Eval β} {P : R.Known β}
    (hf : ∀ x ∈ xs, Runs k (f x) P.holds) :
    Runs k (xs.mapM f) fun m ys => ys.length = xs.length ∧ ∀ y ∈ ys, P.holds m y := by
  induction xs generalizing k with
  | nil => exact runs_pure fun m _ => ⟨rfl, nofun⟩
  | cons x xs ih =>
    rw [List.mapM_cons]
    apply (hf x List.mem_cons_self).bind
    intro m y hm hy
    refine (ih fun z hz => (hf z (List.mem_cons_of_mem x hz)).later hm).bind fun n ys hn hys => ?_
    refine runs_pure fun o ho => ⟨congrArg (· + 1) hys.1, ?_⟩
    exact List.forall_mem_cons.2
      ⟨P.later (R.trans hn ho) hy, fun z hz => P.later ho (hys.2 z hz)⟩

end Runs

/-- What there still is in a source that has been asked. A failure ends the promise of a least number. -/
inductive Gives (P : R.Known α) : ℕ → ℕ∞ → R.Stage → Pull World Failure α → Prop where
  | done {most k l w} : R.le k l → R.good l w → Gives P 0 most k (.done w)
  | ok {least most i j k l w x rest} : R.le k l → R.good l w → P.holds l x → least ≤ i + 1 →
      j + 1 ≤ most → (∀ m w', R.le l m → R.good m w' → Gives P i j m (rest w')) →
      Gives P least most k (.item (.ok x) w rest)
  | error {least most k l w e rest} : R.le k l → R.good l w →
      (∀ m w', R.le l m → R.good m w' → Gives P 0 most m (rest w')) →
      Gives P least most k (.item (.error e) w rest)

/-- What a source gives, whenever it is started. -/
def Yields (P : R.Known α) (least : ℕ) (most : ℕ∞) (k : R.Stage) (src : Source World Failure α) : Prop :=
  ∀ l w, R.le k l → R.good l w → Gives P least most l (src w)

section Gives
variable {P P' : R.Known α} {S : R.Known β} {least least' : ℕ} {most most' : ℕ∞} {k l : R.Stage}

theorem Gives.earlier {p : Pull World Failure α} (h : Gives P least most l p) (hl : R.le k l) :
    Gives P least most k p := by
  cases h with
  | done hm hw => exact .done (R.trans hl hm) hw
  | ok hm hw hx hle hmo hr => exact .ok (R.trans hl hm) hw hx hle hmo hr
  | error hm hw hr => exact .error (R.trans hl hm) hw hr

theorem Gives.imp {p : Pull World Failure α} (h : Gives P least most k p)
    (hP : ∀ m x, R.le k m → P.holds m x → P'.holds m x) (hl : least' ≤ least) (hm : most ≤ most') :
    Gives P' least' most' k p := by
  induction h generalizing least' most' with
  | done hk hw =>
    obtain rfl := Nat.le_zero.1 hl
    exact .done hk hw
  | ok hk hw hx hle hmo _ ih =>
    refine .ok hk hw (hP _ _ hk hx) (hl.trans hle) (hmo.trans hm) fun m w' hm' hw' => ?_
    exact ih m w' hm' hw' (fun n y hn hy => hP n y (R.trans hk (R.trans hm' hn)) hy) le_rfl le_rfl
  | error hk hw _ ih =>
    refine .error hk hw fun m w' hm' hw' => ?_
    exact ih m w' hm' hw' (fun n y hn hy => hP n y (R.trans hk (R.trans hm' hn)) hy) le_rfl hm

/-- Of items that there are none of anything can be said. -/
theorem Gives.of_none {p : Pull World Failure α} (h : Gives P least 0 k p) (P' : R.Known α) :
    Gives P' least 0 k p := by
  generalize hm : (0 : ℕ∞) = most at h
  induction h with
  | done hk hw => exact .done hk hw
  | ok hk hw hx hle hmo _ _ =>
    subst hm
    exact absurd (le_add_self.trans hmo) (by simp)
  | error hk hw _ ih => exact .error hk hw fun m w' hm' hw' => ih m w' hm' hw' hm

theorem Yields.of_none {src : Source World Failure α} (h : Yields P least 0 k src) (P' : R.Known α) :
    Yields P' least 0 k src :=
  fun l w hl hw => (h l w hl hw).of_none P'

theorem Yields.later {src : Source World Failure α} (h : Yields P least most k src) (hl : R.le k l) :
    Yields P least most l src :=
  fun m w hm hw => h m w (R.trans hl hm) hw

theorem Yields.imp {src : Source World Failure α} (h : Yields P least most k src)
    (hP : ∀ m x, R.le k m → P.holds m x → P'.holds m x) (hl : least' ≤ least) (hm : most ≤ most') :
    Yields P' least' most' k src :=
  fun m w hm' hw => (h m w hm' hw).imp (fun n x hn hx => hP n x (R.trans hm' hn) hx) hl hm

theorem yields_empty : Yields P 0 most k .empty :=
  fun l _ _ hw => .done (R.refl l) hw

theorem yields_fail (e : Failure) : Yields P least most k (.fail e) :=
  fun l _ _ hw => .error (R.refl l) hw fun m _ _ hw' => .done (R.refl m) hw'

theorem yields_ofList {xs : List α} (h : Fits P least most k xs) : Yields P least most k (.ofList xs) := by
  induction xs generalizing least most k with
  | nil =>
    obtain rfl := Nat.le_zero.1 h.least
    exact yields_empty
  | cons x xs ih =>
    intro l w hl hw
    have hx := P.later hl (h.each x List.mem_cons_self)
    have hxs : Fits P xs.length xs.length l xs :=
      ⟨fun y hy => P.later hl (h.each y (List.mem_cons_of_mem x hy)), le_rfl, le_rfl⟩
    refine .ok (R.refl l) hw hx h.least ?_ fun m w' hm hw' => ih hxs m w' hm hw'
    exact_mod_cast h.most

theorem yields_after {a : Eval (Source World Failure α)}
    (h : Runs k a fun m src => Yields P least most m src) : Yields P least most k (.after a) := by
  intro l w hl hw
  obtain ⟨m, hm, hw', hx⟩ := h l w hl hw
  unfold Source.after
  cases ha : a.perform w with
  | mk r w₁ =>
    rw [ha] at hw' hx
    cases r with
    | error e => exact .error hm hw' fun n w'' _ hw'' => .done (R.refl n) hw''
    | ok src => exact (hx src rfl m w₁ (R.refl m) hw').earlier hm

/-! One after the other, item by item, and some of the items. -/

theorem Gives.append {p : Pull World Failure α} {second : Source World Failure α}
    (h : Gives P least most k p) (h₂ : Yields P least' most' k second) :
    Gives P (least + least') (most + most') k (p.append second) := by
  induction h with
  | done hk hw =>
    have hs := (h₂ _ _ hk hw).earlier hk
    exact hs.imp (fun _ _ _ => id) (Nat.zero_add _).le le_add_self
  | @ok least₁ most₁ least₂ most₂ _ _ _ _ _ hk hw hx hle hmo _ ih =>
    refine .ok (i := least₂ + least') (j := most₂ + most') hk hw hx (by omega) ?_
      fun m w' hm hw' => ih m w' hm hw' (h₂.later (R.trans hk hm))
    calc most₂ + most' + 1 = most₂ + 1 + most' := add_right_comm _ _ _
      _ ≤ most₁ + most' := add_le_add_left hmo _
  | error hk hw _ ih =>
    exact .error hk hw fun m w' hm hw' => (ih m w' hm hw' (h₂.later (R.trans hk hm))).imp
      (fun _ _ _ => id) (Nat.zero_le _) le_rfl

theorem Yields.append {first second : Source World Failure α} (h : Yields P least most k first)
    (h₂ : Yields P least' most' k second) :
    Yields P (least + least') (most + most') k (first.append second) :=
  fun l w hl hw => (h l w hl hw).append (h₂.later hl)

theorem Gives.mapError {p : Pull World Failure α} (h : Gives P least most k p)
    (g : Failure → Failure) : Gives P least most k (p.mapError g) := by
  induction h with
  | done hk hw => exact .done hk hw
  | ok hk hw hx hle hmo _ ih => exact .ok hk hw hx hle hmo ih
  | error hk hw _ ih => exact .error hk hw ih

theorem Yields.mapError {src : Source World Failure α} (h : Yields P least most k src)
    (g : Failure → Failure) : Yields P least most k (src.mapError g) :=
  fun l w hl hw => (h l w hl hw).mapError g

theorem Gives.mapM {f : α → Eval β} {p : Pull World Failure α} (h : Gives P least most k p)
    (hf : ∀ l x, R.le k l → P.holds l x → Runs l (f x) S.holds) :
    Gives S least most k (p.mapM f) := by
  induction h with
  | done hk hw => exact .done hk hw
  | @ok _ _ _ _ _ l w x rest hk hw hx hle hmo _ ih =>
    obtain ⟨m, hm, hw', hy⟩ := hf l x hk hx l w (R.refl l) hw
    have hrest n w₂ (hn : R.le m n) (hw₂ : R.good n w₂) := ih n w₂ (R.trans hm hn) hw₂
      fun o y ho => hf o y (R.trans hk (R.trans hm (R.trans hn ho)))
    unfold Pull.mapM
    cases hr : (f x).perform w with
    | mk r w₁ =>
      rw [hr] at hw' hy
      cases r with
      | ok y => exact .ok (R.trans hk hm) hw' (hy y rfl) hle hmo hrest
      | error e =>
        exact .error (R.trans hk hm) hw' fun n w₂ hn hw₂ => (hrest n w₂ hn hw₂).imp
          (fun _ _ _ => id) (Nat.zero_le _) (le_self_add.trans hmo)
  | error hk hw _ ih =>
    exact .error hk hw fun m w' hm hw' =>
      ih m w' hm hw' fun o y ho => hf o y (R.trans hk (R.trans hm ho))

theorem Yields.mapM {f : α → Eval β} {src : Source World Failure α} (h : Yields P least most k src)
    (hf : ∀ l x, R.le k l → P.holds l x → Runs l (f x) S.holds) :
    Yields S least most k (src.mapM f) :=
  fun l w hl hw => (h l w hl hw).mapM fun m x hm => hf m x (R.trans hl hm)

theorem Gives.filterM {f : ℕ → α → Eval Bool} {p : Pull World Failure α}
    (h : Gives P least most k p)
    (hf : ∀ l n x, R.le k l → P.holds l x → Runs l (f n x) fun _ _ => True) (n : ℕ) :
    Gives P 0 most k (p.filterM f n) := by
  induction h generalizing n with
  | done hk hw => exact .done hk hw
  | @ok _ most₁ _ most₂ _ l w x rest hk hw hx _ hmo _ ih =>
    obtain ⟨m, hm, hw', _⟩ := hf l n x hk hx l w (R.refl l) hw
    have hrest o w₂ (ho : R.le m o) (hw₂ : R.good o w₂) := ih o w₂ (R.trans hm ho) hw₂
      (fun p i y hp => hf p i y (R.trans hk (R.trans hm (R.trans ho hp)))) (n + 1)
    have hmost : most₂ ≤ most₁ := le_self_add.trans hmo
    unfold Pull.filterM
    cases hr : (f n x).perform w with
    | mk r w₁ =>
      rw [hr] at hw'
      cases r with
      | ok b =>
        cases b with
        | true => exact .ok (R.trans hk hm) hw' (P.later hm hx) (Nat.zero_le _) hmo hrest
        | false =>
          exact ((hrest m w₁ (R.refl m) hw').earlier (R.trans hk hm)).imp (fun _ _ _ => id) le_rfl hmost
      | error e =>
        exact .error (R.trans hk hm) hw' fun o w₂ ho hw₂ => (hrest o w₂ ho hw₂).imp
          (fun _ _ _ => id) le_rfl hmost
  | error hk hw _ ih =>
    exact .error hk hw fun m w' hm hw' =>
      ih m w' hm hw' (fun o i y ho => hf o i y (R.trans hk (R.trans hm ho))) (n + 1)

theorem Yields.filterM {f : ℕ → α → Eval Bool} {src : Source World Failure α}
    (h : Yields P least most k src)
    (hf : ∀ l n x, R.le k l → P.holds l x → Runs l (f n x) fun _ _ => True) :
    Yields P 0 most k (src.filterM f) :=
  fun l w hl hw => (h l w hl hw).filterM (fun m n x hm => hf m n x (R.trans hl hm)) 1

theorem bind_item (f : ℕ → α → Source World Failure β) (n : ℕ) (x : α) (w : World)
    (rest : World → Pull World Failure α) :
    Pull.bind f n (.item (.ok x) w rest) =
      (f n x w).append fun w => Pull.bind f (n + 1) (rest w) := by
  rw [Pull.bind]
  cases f n x w <;> rfl

theorem Gives.bind {f : ℕ → α → Source World Failure β} {p : Pull World Failure α}
    (h : Gives P least most k p)
    (hf : ∀ l n x, R.le k l → P.holds l x → Yields S least' most' l (f n x)) (n : ℕ) :
    Gives S (least * least') (most * most') k (p.bind f n) := by
  induction h generalizing n with
  | done hk hw =>
    rw [Nat.zero_mul]
    exact .done hk hw
  | @ok least₁ most₁ least₂ most₂ _ m w x rest hk hw hx hle hmo _ ih =>
    rw [bind_item]
    have hrest : Yields S (least₂ * least') (most₂ * most') m
        fun w => Pull.bind f (n + 1) (rest w) := fun o w₂ ho hw₂ =>
      ih o w₂ ho hw₂ (fun p i y hp => hf p i y (R.trans hk (R.trans ho hp))) (n + 1)
    refine (((hf m n x hk hx m w (R.refl m) hw).append hrest).earlier hk).imp (fun _ _ _ => id) ?_ ?_
    · calc least₁ * least' ≤ (least₂ + 1) * least' := Nat.mul_le_mul_right _ hle
        _ = least' + least₂ * least' := by rw [Nat.succ_mul, Nat.add_comm]
    · calc most' + most₂ * most' = (most₂ + 1) * most' := by rw [add_mul, one_mul, add_comm]
        _ ≤ most₁ * most' := mul_le_mul_left hmo _
  | error hk hw _ ih =>
    refine .error hk hw fun m w' hm hw' => ?_
    exact (ih m w' hm hw' (fun o i y ho => hf o i y (R.trans hk (R.trans hm ho))) (n + 1)).imp
      (fun _ _ _ => id) (Nat.zero_le _) le_rfl

theorem Yields.bind {f : ℕ → α → Source World Failure β} {src : Source World Failure α}
    (h : Yields P least most k src)
    (hf : ∀ l n x, R.le k l → P.holds l x → Yields S least' most' l (f n x)) :
    Yields S (least * least') (most * most') k (src.bind f) :=
  fun l w hl hw => (h l w hl hw).bind (fun m n x hm => hf m n x (R.trans hl hm)) 1

theorem Gives.drop {p : Pull World Failure α} (h : Gives P least most k p) (n : ℕ) :
    Gives P 0 most k (p.drop n) := by
  induction h generalizing n with
  | done hk hw => cases n <;> exact .done hk hw
  | @ok _ most₁ _ most₂ _ l w x rest hk hw hx hle hmo hr ih =>
    cases n with
    | zero => exact (Gives.ok hk hw hx hle hmo hr).imp (fun _ _ _ => id) (Nat.zero_le _) le_rfl
    | succ n =>
      exact ((ih l w (R.refl l) hw n).earlier hk).imp (fun _ _ _ => id) le_rfl (le_self_add.trans hmo)
  | @error _ _ _ l w e rest hk hw hr ih =>
    cases n with
    | zero => exact .error hk hw hr
    | succ n => exact (ih l w (R.refl l) hw n).earlier hk

theorem Yields.drop {src : Source World Failure α} (h : Yields P least most k src) (n : ℕ) :
    Yields P 0 most k (src.drop n) :=
  fun l w hl hw => (h l w hl hw).drop n

theorem Yields.take {src : Source World Failure α} (h : Yields P least most k src) (n : ℕ) :
    Yields P 0 (min n most) k (src.take n) := by
  induction n generalizing src least most k with
  | zero => exact yields_empty
  | succ n ih =>
    intro l w hl hw
    have hg := h l w hl hw
    unfold Source.take
    generalize src w = p at hg
    cases hg with
    | done hk hw => exact .done hk hw
    | @ok _ _ least₂ most₂ _ _ _ _ _ hk hw hx _ hmo hr =>
      refine .ok hk hw hx (Nat.zero_le _) ?_ (ih hr)
      refine le_min ?_ ((add_le_add_left (min_le_right _ _) 1).trans hmo)
      exact_mod_cast add_le_add_left (min_le_left (n : ℕ∞) most₂) 1
    | error hk hw hr =>
      refine .error hk hw fun m w' hm hw' => (ih hr m w' hm hw').imp (fun _ _ _ => id) le_rfl ?_
      exact min_le_min_right most (by exact_mod_cast Nat.le_succ n)

theorem Yields.concat {ι : Type} {xs : List ι} {src : ι → Source World Failure α} {lo : ι → ℕ}
    {hi : ι → ℕ∞} (h : ∀ x ∈ xs, Yields P (lo x) (hi x) k (src x)) :
    Yields P (xs.map lo).sum (xs.map hi).sum k (Source.concat (xs.map src)) := by
  induction xs with
  | nil => exact yields_empty
  | cons x xs ih =>
    rw [List.map_cons, List.sum_cons, List.map_cons, List.sum_cons]
    exact (h x List.mem_cons_self).append (ih fun y hy => h y (List.mem_cons_of_mem x hy))

/-! What is made of the items. -/

private theorem one_le_of_succ_le {m n : ℕ∞} (h : m + 1 ≤ n) : 1 ≤ n := le_add_self.trans h

/-- A loop keeps what is said of the state, given how many items there are still to come. -/
theorem Gives.forIn {p : Pull World Failure α} (I : ℕ → R.Known β) {Q : R.Stage → β → Prop}
    {f : β → α → Eval (ForInStep β)} (h : Gives P least most k p) {b : β} (hb : (I least).holds k b)
    (hstep : ∀ l m n b x, R.le k l → (I m).holds l b → P.holds l x → m ≤ n + 1 →
      1 ≤ most → Runs l (f b x) fun o r => match r with
        | .yield b => (I n).holds o b
        | .done b => Q o b)
    (hend : ∀ l b, R.le k l → (I 0).holds l b → Q l b) : Ends k (p.forIn b f) Q := by
  induction h generalizing b with
  | @done _ k l w hk hw =>
    refine ⟨l, hk, hw, fun x hx => ?_⟩
    cases hx
    exact hend l b hk ((I 0).later hk hb)
  | @ok least₁ _ least₂ _ k l w x rest hk hw hx hle hmo _ ih =>
    obtain ⟨m, hm, hw', hr⟩ := hstep l least₁ least₂ b x hk ((I _).later hk hb) hx hle
      (one_le_of_succ_le hmo) l w (R.refl l) hw
    unfold Pull.forIn
    cases hrun : (f b x).perform w with
    | mk r w₁ =>
      rw [hrun] at hw' hr
      cases r with
      | error e => exact ⟨m, R.trans hk hm, hw', nofun⟩
      | ok step =>
        cases step with
        | done b' =>
          refine ⟨m, R.trans hk hm, hw', fun y hy => ?_⟩
          cases hy
          exact hr _ rfl
        | yield b' =>
          have hkm := R.trans hk hm
          obtain ⟨n, hn, hend'⟩ := ih m w₁ hm hw' (hr _ rfl)
            (fun o i j c y ho hc hy hij hone => hstep o i j c y (R.trans hkm ho) hc hy hij
              (hone.trans (le_self_add.trans hmo)))
            (fun o c ho => hend o c (R.trans hkm ho))
          exact ⟨n, R.trans hkm hn, hend'⟩
  | @error _ _ _ l w e rest hk hw _ _ => exact ⟨l, hk, hw, nofun⟩

theorem Yields.forIn {src : Source World Failure α} (I : ℕ → R.Known β) {Q : R.Stage → β → Prop}
    {f : β → α → Eval (ForInStep β)} (h : Yields P least most k src) {b : β}
    (hb : (I least).holds k b)
    (hstep : ∀ l m n b x, R.le k l → (I m).holds l b → P.holds l x → m ≤ n + 1 →
      1 ≤ most → Runs l (f b x) fun o r => match r with
        | .yield b => (I n).holds o b
        | .done b => Q o b)
    (hend : ∀ l b, R.le k l → (I 0).holds l b → Q l b) : Runs k (src.forIn b f) Q := fun l w hl hw =>
  (h l w hl hw).forIn I ((I least).later hl hb) (fun m i j c y hm => hstep m i j c y (R.trans hl hm))
    fun m c hm => hend m c (R.trans hl hm)

/-- A loop of which nothing is said but that its steps end well. -/
theorem Yields.forIn_any {src : Source World Failure α} {f : β → α → Eval (ForInStep β)}
    (h : Yields P least most k src) (b : β)
    (hf : ∀ l b x, R.le k l → P.holds l x → Runs l (f b x) fun _ _ => True) :
    Runs k (src.forIn b f) fun _ _ => True := by
  refine h.forIn (fun _ => .any R β) trivial (fun l _ _ b x hl _ hx _ _ => ?_) fun _ _ _ => id
  apply (hf l b x hl hx).imp
  intro m r _ _
  cases r <;> trivial

theorem Gives.collect {p : Pull World Failure α} (h : Gives P least most k p) (met : List α) :
    Ends k (p.collect met) fun l ys => ∃ xs, ys = met.reverse ++ xs ∧ Fits P least most l xs := by
  induction h generalizing met with
  | @done most k l w hk hw =>
    refine ⟨l, hk, hw, fun ys hys => ?_⟩
    cases hys
    exact ⟨[], (List.append_nil _).symm, nofun, le_rfl, zero_le⟩
  | @ok least₁ most₁ least₂ most₂ _ l w x rest hk hw hx hle hmo _ ih =>
    obtain ⟨m, hm, hw', hy⟩ := ih l w (R.refl l) hw (x :: met)
    refine ⟨m, R.trans hk hm, hw', fun ys hys => ?_⟩
    obtain ⟨xs, rfl, hfit⟩ := hy ys hys
    refine ⟨x :: xs, by simp, ?_, ?_, ?_⟩
    · exact List.forall_mem_cons.2 ⟨P.later hm hx, hfit.each⟩
    · have := hfit.least
      simp only [List.length_cons]
      omega
    · simp only [List.length_cons, Nat.cast_add, Nat.cast_one]
      exact (add_le_add_left hfit.most 1).trans hmo
  | @error _ _ _ l w e rest hk hw _ _ => exact ⟨l, hk, hw, nofun⟩

theorem Yields.toList {src : Source World Failure α} (h : Yields P least most k src) :
    Runs k src.toList (Fits P least most) := by
  intro l w hl hw
  obtain ⟨m, hm, hw', hx⟩ := (h l w hl hw).collect []
  refine ⟨m, hm, hw', fun ys hys => ?_⟩
  obtain ⟨xs, rfl, hfit⟩ := hx ys hys
  exact hfit

private theorem fits_one {x : α} {m : R.Stage} (hx : P.holds m x) (hl : least ≤ 1) (hm : 1 ≤ most) :
    Fits P least most m (some x).toList :=
  ⟨List.forall_mem_singleton.2 hx, hl, by exact_mod_cast hm⟩

private theorem fits_none {m : R.Stage} : Fits P 0 most m (none : Option α).toList :=
  ⟨nofun, le_rfl, zero_le⟩

theorem Gives.head? {p : Pull World Failure α} (h : Gives P least most k p) :
    Ends k p.head? fun l o => Fits P (min least 1) most l o.toList := by
  cases h with
  | done hk hw =>
    refine ⟨_, hk, hw, fun o ho => ?_⟩
    cases ho
    exact fits_none
  | ok hk hw hx _ hmo _ =>
    refine ⟨_, hk, hw, fun o ho => ?_⟩
    cases ho
    exact fits_one hx (min_le_right _ _) (one_le_of_succ_le hmo)
  | error hk hw _ => exact ⟨_, hk, hw, nofun⟩

theorem Yields.head? {src : Source World Failure α} (h : Yields P least most k src) :
    Runs k src.head? fun l o => Fits P (min least 1) most l o.toList :=
  fun l w hl hw => (h l w hl hw).head?

/-- An item by its place, of which the items before it, and whether they fail, say nothing. -/
theorem Yields.get? {src : Source World Failure α} (h : Yields P least most k src) (n : ℕ) :
    Runs k (src.get? n) fun l o => Fits P 0 most l o.toList :=
  fun l w hl hw => ((h l w hl hw).drop n).head?

theorem Gives.only? {p : Pull World Failure α} (h : Gives P least most k p) (many : Failure) :
    Ends k (p.only? many) fun l o => Fits P least most l o.toList := by
  cases h with
  | done hk hw =>
    refine ⟨_, hk, hw, fun o ho => ?_⟩
    cases ho
    exact fits_none
  | @ok _ _ least₂ most₂ _ l w x rest hk hw hx hle hmo hr =>
    have hg := hr l w (R.refl l) hw
    unfold Pull.only?
    dsimp only
    generalize rest w = q at hg ⊢
    cases hg with
    | done hm hw' =>
      refine ⟨_, R.trans hk hm, hw', fun o ho => ?_⟩
      cases ho
      exact fits_one (P.later hm hx) hle (one_le_of_succ_le hmo)
    | ok hm hw' => exact ⟨_, R.trans hk hm, hw', nofun⟩
    | error hm hw' => exact ⟨_, R.trans hk hm, hw', nofun⟩
  | error hk hw _ => exact ⟨_, hk, hw, nofun⟩

theorem Yields.only? {src : Source World Failure α} (h : Yields P least most k src) (many : Failure) :
    Runs k (src.only? many) fun l o => Fits P least most l o.toList :=
  fun l w hl hw => (h l w hl hw).only? many

end Gives

theorem perform_truth (xs : Items) (one : Atomic → Bool) (w : World) :
    (xs.truth one).perform w = match xs w with
      | .done w => (.ok false, w)
      | .item (.error e) w _ => (.error e, w)
      | .item (.ok (.node _)) w _ => (.ok true, w)
      | .item (.ok (.atomic a)) w rest => match rest w with
        | .done w => (.ok (one a), w)
        | .item (.error e) w _ => (.error e, w)
        | .item (.ok _) w _ => (.error { code := .invalidArgument }, w) := rfl

theorem Yields.truth {P : R.Known Item} {least : ℕ} {most : ℕ∞} {k : R.Stage} {xs : Items}
    (h : Yields P least most k xs) (one : Atomic → Bool) : Runs k (xs.truth one) fun _ _ => True := by
  intro l w hl hw
  have hg := h l w hl hw
  rw [perform_truth]
  generalize xs w = p at hg ⊢
  cases hg with
  | done hk hw => exact ⟨_, hk, hw, fun _ _ => trivial⟩
  | @ok _ _ _ _ _ l w x rest hk hw _ _ _ hr =>
    cases x with
    | node i => exact ⟨_, hk, hw, fun _ _ => trivial⟩
    | atomic a =>
      have hg := hr l w (R.refl l) hw
      dsimp only
      generalize rest w = q at hg ⊢
      cases hg with
      | done hm hw' => exact ⟨_, R.trans hk hm, hw', fun _ _ => trivial⟩
      | ok hm hw' => exact ⟨_, R.trans hk hm, hw', fun _ _ => trivial⟩
      | error hm hw' => exact ⟨_, R.trans hk hm, hw', fun _ _ => trivial⟩
  | error hk hw _ => exact ⟨_, hk, hw, fun _ _ => trivial⟩

end Regime
end XPath
