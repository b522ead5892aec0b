import XPath.Proofs.Regime

/-!
Worlds in place of others. Where evaluations answer the same in any two worlds that are taken to be alike, and
leave worlds that are alike, so does whatever is put together from them; and a source that gives the same items,
whenever it is asked for the next one, still does so when something is made of its items.
-/
namespace XPath

/-- Which worlds may stand for each other. -/
structure Likeness where
  alike : World → World → Prop

namespace Likeness
variable {L : Likeness} {α β : Type} {P Q : α → Prop} {S : β → Prop}

/-- The same answer, in worlds that are alike. -/
inductive Answers (L : Likeness) (Q : α → Prop) :
    Except Failure α × World → Except Failure α × World → Prop where
  | ok {x w w'} : Q x → L.alike w w' → Answers L Q (.ok x, w) (.ok x, w')
  | error {e w w'} : L.alike w w' → Answers L Q (.error e, w) (.error e, w')

/-- An evaluation does the same in worlds that are alike. -/
def Runs (L : Likeness) (p : Eval α) (Q : α → Prop) : Prop :=
  ∀ w w', L.alike w w' → L.Answers Q (p.perform w) (p.perform w')

/-- The same items, whenever they are asked for. What goes on after an item carries what it came from, so it
need not be one function for both worlds. -/
inductive Gives (L : Likeness) (Q : α → Prop) : Pull World Failure α → Pull World Failure α → Prop where
  | done {w w'} : L.alike w w' → Gives L Q (.done w) (.done w')
  | ok {x w w' rest rest'} : Q x → L.alike w w' → (∀ w w', L.alike w w' → Gives L Q (rest w) (rest' w')) →
      Gives L Q (.item (.ok x) w rest) (.item (.ok x) w' rest')
  | error {e w w' rest rest'} : L.alike w w' → (∀ w w', L.alike w w' → Gives L Q (rest w) (rest' w')) →
      Gives L Q (.item (.error e) w rest) (.item (.error e) w' rest')

/-- A source gives the same in worlds that are alike. -/
def Yields (L : Likeness) (src : Source World Failure α) (Q : α → Prop) : Prop :=
  ∀ w w', L.alike w w' → L.Gives Q (src w) (src w')

/-! Evaluations. -/

section Runs

theorem Answers.imp {r r' : Except Failure α × World} (h : L.Answers P r r') (hQ : ∀ x, P x → Q x) :
    L.Answers Q r r' := by
  cases h with
  | ok hx hw => exact .ok (hQ _ hx) hw
  | error hw => exact .error hw

theorem Runs.imp {p : Eval α} (h : L.Runs p P) (hQ : ∀ x, P x → Q x) : L.Runs p Q :=
  fun w w' hw => (h w w' hw).imp hQ

theorem runs_pure {x : α} (h : Q x) : L.Runs (pure x) Q := fun _ _ hw => .ok h hw

theorem runs_fail (code : ErrorCode) : L.Runs (Eval.fail code) Q := fun _ _ hw => .error hw

theorem Runs.bind {p : Eval α} {f : α → Eval β} (hp : L.Runs p Q) (hf : ∀ x, Q x → L.Runs (f x) S) :
    L.Runs (p >>= f) S := by
  intro w w' hw
  rw [Regime.perform_bind, Regime.perform_bind]
  have h := hp w w' hw
  generalize p.perform w = r, p.perform w' = r' at h ⊢
  cases h with
  | ok hx hw => exact hf _ hx _ _ hw
  | error hw => exact .error hw

/-- What is made of the answer. -/
theorem Runs.gives {p : Eval α} {g : α → β} (hp : L.Runs p Q) (hg : ∀ x, Q x → S (g x)) :
    L.Runs (do return g (← p)) S :=
  hp.bind fun x hx => runs_pure (hg x hx)

theorem Runs.map {p : Eval α} {g : α → β} (hp : L.Runs p Q) (hg : ∀ x, Q x → S (g x)) :
    L.Runs (g <$> p) S := by
  rw [← bind_pure_comp]
  exact hp.gives hg

theorem runs_ofExcept {r : Except ErrorCode α} (h : ∀ x, r = .ok x → Q x) : L.Runs (Eval.ofExcept r) Q := by
  cases r with
  | ok x => exact runs_pure (h x rfl)
  | error code => exact runs_fail code

theorem runs_require {o : Option α} {code : ErrorCode} (h : ∀ x, o = some x → Q x) :
    L.Runs (Eval.require code o) Q := by
  cases o with
  | some x => exact runs_pure (h x rfl)
  | none => exact runs_fail code

theorem runs_ofExcept_any (r : Except ErrorCode α) : L.Runs (Eval.ofExcept r) fun _ => True :=
  runs_ofExcept fun _ _ => trivial

theorem runs_require_any (o : Option α) (code : ErrorCode) : L.Runs (Eval.require code o) fun _ => True :=
  runs_require fun _ _ => trivial

theorem Runs.mapError {p : Eval α} (hp : L.Runs p Q) (g : Failure → Failure) : L.Runs (p.mapError g) Q := by
  intro w w' hw
  rw [Regime.perform_mapError, Regime.perform_mapError]
  have h := hp w w' hw
  generalize p.perform w = r, p.perform w' = r' at h ⊢
  cases h with
  | ok hx hw => exact .ok hx hw
  | error hw => exact .error hw

theorem Runs.orAt {p : Eval α} (hp : L.Runs p Q) (l : LocationId) : L.Runs (p.orAt l) Q := hp.mapError _

theorem Runs.optionMapM {o : Option α} {f : α → Eval β} (hf : ∀ x, o = some x → L.Runs (f x) S) :
    L.Runs (o.mapM f) fun o => ∀ y, o = some y → S y := by
  cases o with
  | none => exact runs_pure nofun
  | some x => exact (hf x rfl).map fun y hy z hz => Option.some.inj hz ▸ hy

theorem Runs.listMapM {xs : List α} {f : α → Eval β} (hf : ∀ x ∈ xs, L.Runs (f x) S) :
    L.Runs (xs.mapM f) fun ys => ∀ y ∈ ys, S y := by
  induction xs with
  | nil => exact runs_pure nofun
  | cons x xs ih =>
    obtain ⟨hx, hxs⟩ := List.forall_mem_cons.1 hf
    rw [List.mapM_cons]
    refine hx.bind fun y hy => (ih hxs).bind fun ys hys => runs_pure ?_
    exact List.forall_mem_cons.2 ⟨hy, hys⟩

end Runs

/-! Sources. -/

section Yields
variable {p p' : Pull World Failure α} {src : Source World Failure α}

theorem yields_empty : L.Yields .empty Q := fun _ _ hw => .done hw

theorem yields_fail (e : Failure) : L.Yields (.fail e) Q := fun _ _ hw => .error hw fun _ _ hw => .done hw

theorem yields_ofList {xs : List α} (h : ∀ x ∈ xs, Q x) : L.Yields (.ofList xs) Q := by
  induction xs with
  | nil => exact yields_empty
  | cons x xs ih =>
    obtain ⟨hx, hxs⟩ := List.forall_mem_cons.1 h
    exact fun _ _ hw => .ok hx hw (ih hxs)

theorem yields_after {a : Eval (Source World Failure α)} (h : L.Runs a (L.Yields · Q)) :
    L.Yields (.after a) Q := by
  intro w w' hw
  unfold Source.after
  have ha := h w w' hw
  generalize a.perform w = r, a.perform w' = r' at ha ⊢
  cases ha with
  | ok hsrc hw => exact hsrc _ _ hw
  | error hw => exact .error hw fun _ _ hw => .done hw

/-- A list is evaluated first, and then its items are given. -/
theorem yields_list {a : Eval (List α)} (h : L.Runs a (∀ x ∈ ·, Q x)) :
    L.Yields (.after (return .ofList (← a))) Q :=
  yields_after (h.gives fun _ => yields_ofList)

theorem Gives.append (h : L.Gives Q p p') {second second' : Source World Failure α}
    (hs : ∀ w w', L.alike w w' → L.Gives Q (second w) (second' w')) :
    L.Gives Q (p.append second) (p'.append second') := by
  induction h with
  | done hw => exact hs _ _ hw
  | ok hx hw _ ih => exact .ok hx hw ih
  | error hw _ ih => exact .error hw ih

theorem yields_concat {srcs : List (Source World Failure α)} (h : ∀ src ∈ srcs, L.Yields src Q) :
    L.Yields (.concat srcs) Q := by
  induction srcs with
  | nil => exact yields_empty
  | cons src srcs ih =>
    obtain ⟨hsrc, hsrcs⟩ := List.forall_mem_cons.1 h
    exact fun w w' hw => (hsrc w w' hw).append (ih hsrcs)

theorem Gives.mapError (h : L.Gives Q p p') (g : Failure → Failure) :
    L.Gives Q (p.mapError g) (p'.mapError g) := by
  induction h with
  | done hw => exact .done hw
  | ok hx hw _ ih => exact .ok hx hw ih
  | error hw _ ih => exact .error hw ih

theorem Yields.mapError (h : L.Yields src Q) (g : Failure → Failure) : L.Yields (src.mapError g) Q :=
  fun w w' hw => (h w w' hw).mapError g

theorem Gives.mapM {f : α → Eval β} (h : L.Gives Q p p') (hf : ∀ x, Q x → L.Runs (f x) S) :
    L.Gives S (p.mapM f) (p'.mapM f) := by
  induction h with
  | done hw => exact .done hw
  | @ok x w w' _ _ hx hw _ ih =>
    unfold Pull.mapM
    have ha := hf x hx w w' hw
    generalize (f x).perform w = r, (f x).perform w' = r' at ha ⊢
    cases ha with
    | ok hy hw => exact .ok hy hw ih
    | error hw => exact .error hw ih
  | error hw _ ih => exact .error hw ih

theorem Yields.mapM {f : α → Eval β} (h : L.Yields src Q) (hf : ∀ x, Q x → L.Runs (f x) S) :
    L.Yields (src.mapM f) S :=
  fun w w' hw => (h w w' hw).mapM hf

theorem Gives.filterM {f : ℕ → α → Eval Bool} (h : L.Gives Q p p')
    (hf : ∀ n x, Q x → L.Runs (f n x) fun _ => True) (n : ℕ) : L.Gives Q (p.filterM f n) (p'.filterM f n) := by
  induction h generalizing n with
  | done hw => exact .done hw
  | @ok x w w' _ _ hx hw _ ih =>
    unfold Pull.filterM
    have ha := hf n x hx w w' hw
    generalize (f n x).perform w = r, (f n x).perform w' = r' at ha ⊢
    cases ha with
    | @ok b _ _ _ hw =>
      cases b with
      | true => exact .ok hx hw fun w w' hw => ih w w' hw (n + 1)
      | false => exact ih _ _ hw (n + 1)
    | error hw => exact .error hw fun w w' hw => ih w w' hw (n + 1)
  | error hw _ ih => exact .error hw fun w w' hw => ih w w' hw (n + 1)

theorem Yields.filterM {f : ℕ → α → Eval Bool} (h : L.Yields src Q)
    (hf : ∀ n x, Q x → L.Runs (f n x) fun _ => True) : L.Yields (src.filterM f) Q :=
  fun w w' hw => (h w w' hw).filterM hf 1

theorem Gives.bind {f : ℕ → α → Source World Failure β} (h : L.Gives Q p p')
    (hf : ∀ n x, Q x → L.Yields (f n x) S) (n : ℕ) : L.Gives S (p.bind f n) (p'.bind f n) := by
  induction h generalizing n with
  | done hw => exact .done hw
  | @ok x w w' _ _ hx hw _ ih =>
    rw [Regime.bind_item, Regime.bind_item]
    exact (hf n x hx w w' hw).append fun w w' hw => ih w w' hw (n + 1)
  | error hw _ ih => exact .error hw fun w w' hw => ih w w' hw (n + 1)

theorem Yields.bind {f : ℕ → α → Source World Failure β} (h : L.Yields src Q)
    (hf : ∀ n x, Q x → L.Yields (f n x) S) : L.Yields (src.bind f) S :=
  fun w w' hw => (h w w' hw).bind hf 1

theorem Gives.drop (h : L.Gives Q p p') (n : ℕ) : L.Gives Q (p.drop n) (p'.drop n) := by
  induction h generalizing n with
  | done hw => cases n <;> exact .done hw
  | ok hx hw hrest ih =>
    cases n with
    | zero => exact .ok hx hw hrest
    | succ n => exact ih _ _ hw n
  | error hw hrest ih =>
    cases n with
    | zero => exact .error hw hrest
    | succ n => exact ih _ _ hw n

theorem Yields.drop (h : L.Yields src Q) (n : ℕ) : L.Yields (src.drop n) Q := fun w w' hw => (h w w' hw).drop n

private theorem gives_take {src' : Source World Failure α}
    (h : ∀ w w', L.alike w w' → L.Gives Q (src w) (src' w')) (n : ℕ) :
    ∀ w w', L.alike w w' → L.Gives Q (src.take n w) (src'.take n w') := by
  induction n generalizing src src' with
  | zero => exact yields_empty
  | succ n ih =>
    intro w w' hw
    have hg := h w w' hw
    unfold Source.take
    generalize src w = p, src' w' = p' at hg ⊢
    cases hg with
    | done hw => exact .done hw
    | ok hx hw hrest => exact .ok hx hw (ih hrest)
    | error hw hrest => exact .error hw (ih hrest)

theorem Yields.take (h : L.Yields src Q) (n : ℕ) : L.Yields (src.take n) Q := gives_take h n

/-! What is made of the items. -/

/-- A loop keeps what is said of its state. -/
theorem Gives.forIn (I : β → Prop) {f : β → α → Eval (ForInStep β)} (h : L.Gives Q p p') {b : β} (hb : I b)
    (hf : ∀ b x, I b → Q x → L.Runs (f b x) fun r => I r.value) :
    L.Answers I (p.forIn b f) (p'.forIn b f) := by
  induction h generalizing b with
  | done hw => exact .ok hb hw
  | @ok x w w' _ _ hx hw _ ih =>
    unfold Pull.forIn
    have ha := hf b x hb hx w w' hw
    generalize (f b x).perform w = r, (f b x).perform w' = r' at ha ⊢
    cases ha with
    | @ok step _ _ hstep hw =>
      cases step with
      | done b => exact .ok hstep hw
      | yield b => exact ih _ _ hw hstep
    | error hw => exact .error hw
  | error hw _ _ => exact .error hw

theorem Yields.forIn (I : β → Prop) {f : β → α → Eval (ForInStep β)} (h : L.Yields src Q) {b : β}
    (hb : I b) (hf : ∀ b x, I b → Q x → L.Runs (f b x) fun r => I r.value) : L.Runs (src.forIn b f) I :=
  fun w w' hw => (h w w' hw).forIn I hb hf

/-- A loop of which nothing is said. -/
theorem Yields.forIn_any {f : β → α → Eval (ForInStep β)} (h : L.Yields src Q) (b : β)
    (hf : ∀ b x, Q x → L.Runs (f b x) fun _ => True) : L.Runs (src.forIn b f) fun _ => True :=
  h.forIn (fun _ => True) trivial fun b x _ => hf b x

theorem Gives.collect (h : L.Gives Q p p') {met : List α} (hmet : ∀ x ∈ met, Q x) :
    L.Answers (∀ x ∈ ·, Q x) (p.collect met) (p'.collect met) := by
  induction h generalizing met with
  | done hw => exact .ok (fun x hx => hmet x (List.mem_reverse.1 hx)) hw
  | ok hx hw _ ih => exact ih _ _ hw (List.forall_mem_cons.2 ⟨hx, hmet⟩)
  | error hw _ _ => exact .error hw

theorem Yields.toList (h : L.Yields src Q) : L.Runs src.toList (∀ x ∈ ·, Q x) :=
  fun w w' hw => (h w w' hw).collect nofun

theorem Gives.head? (h : L.Gives Q p p') : L.Answers (∀ x, · = some x → Q x) p.head? p'.head? := by
  cases h with
  | done hw => exact .ok nofun hw
  | ok hx hw _ => exact .ok (fun y hy => Option.some.inj hy ▸ hx) hw
  | error hw _ => exact .error hw

theorem Yields.head? (h : L.Yields src Q) : L.Runs src.head? (∀ x, · = some x → Q x) :=
  fun w w' hw => (h w w' hw).head?

theorem Yields.get? (h : L.Yields src Q) (n : ℕ) : L.Runs (src.get? n) (∀ x, · = some x → Q x) :=
  fun w w' hw => ((h w w' hw).drop n).head?

theorem Yields.only? (h : L.Yields src Q) (many : Failure) :
    L.Runs (src.only? many) (∀ x, · = some x → Q x) := by
  intro w w' hw
  have hg := h w w' hw
  change L.Answers _ ((src w).only? many) ((src w').only? many)
  generalize src w = p, src w' = p' at hg ⊢
  cases hg with
  | done hw => exact .ok nofun hw
  | @ok x w w' rest rest' hx hw hrest =>
    have hg := hrest _ _ hw
    unfold Pull.only?
    dsimp only
    generalize rest w = q, rest' w' = q' at hg ⊢
    cases hg with
    | done hw => exact .ok (fun y hy => Option.some.inj hy ▸ hx) hw
    | ok _ hw _ => exact .error hw
    | error hw _ => exact .error hw
  | error hw _ => exact .error hw

theorem Yields.truth {src : Items} {Q : Item → Prop} (h : L.Yields src Q) (one : Atomic → Bool) :
    L.Runs (src.truth one) fun _ => True := by
  intro w w' hw
  have hg := h w w' hw
  rw [Regime.perform_truth, Regime.perform_truth]
  generalize src w = p, src w' = p' at hg ⊢
  cases hg with
  | done hw => exact .ok trivial hw
  | @ok x w w' rest rest' _ hw hrest =>
    cases x with
    | node i => exact .ok trivial hw
    | atomic a =>
      have hg := hrest _ _ hw
      dsimp only
      generalize rest w = q, rest' w' = q' at hg ⊢
      cases hg with
      | done hw => exact .ok trivial hw
      | ok _ hw _ => exact .error hw
      | error hw _ => exact .error hw
  | error hw _ => exact .error hw

end Yields
end Likeness
end XPath
