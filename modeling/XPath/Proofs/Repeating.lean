import XPath.Proofs.Relabeling
import XPath.Proofs.Balance

/-!
Readings that repeat others. Where a text is read again with a right brace and anything else behind it, every parser
that has succeeded succeeds again and gives the same, up to locations and slots. The brace shows only where the first
reading is at its end, and there nothing waits for a brace.
-/
namespace XPath

/-- How a second reading goes along with a first. The new slots of the two readings count from different numbers, and
the labels take them to the same slots. -/
structure Pairing where
  label : Slot → Slot
  label' : Slot → Slot
  start : ℕ
  start' : ℕ
  agree i : label (start + i) = label' (start' + i)
  /-- The tokens behind the brace, with their texts. -/
  rest : List (Token × List Char)

namespace ParseState

/-- The tokens that are left, with their texts. -/
def written (s : ParseState) : List (Token × List Char) := s.tokens.lexemes.map fun l => (l.token, l.text)

def nth (s : ParseState) (n : ℕ) : Option Token := s.tokens.lexemes[n]?.map (·.token)

theorem lt_of_nth {s : ParseState} {n : ℕ} {k : Token} (h : s.nth n = some k) : n < s.tokens.lexemes.length := by
  obtain ⟨_, hl, -⟩ := Option.map_eq_some_iff.1 h
  exact (List.getElem?_eq_some_iff.1 hl).1

theorem next_ne_nil {s : ParseState} {k : Token} (h : s.nth 1 = some k) : s.tokens.next.lexemes ≠ [] :=
  List.ne_nil_of_length_pos (by simpa [TokenStream.next] using lt_of_nth h)

theorem ne_nil {s : ParseState} {k : Token} (h : s.nth 0 = some k) : s.tokens.lexemes ≠ [] :=
  List.ne_nil_of_length_pos (lt_of_nth h)

/-- In the second state a right brace and more tokens follow. -/
structure Beside (m : Pairing) (s t : ParseState) : Prop where
  written : t.written = s.written ++ (.symbol .rightBrace, ['\x7d']) :: m.rest
  bindings : ∃ i, s.unit.bindings.size = m.start + i ∧ t.unit.bindings.size = m.start' + i
  scope : List.Forall₂ (fun v w => v.1 = w.1 ∧ m.label v.2 = m.label' w.2) s.unit.scope t.unit.scope

namespace Beside
variable {m : Pairing} {s t : ParseState} {n : ℕ} {k : Token}

theorem nth (h : s.Beside m t) (hn : n ≤ s.tokens.lexemes.length) :
    (∃ k, s.nth n = some k ∧ t.nth n = some k) ∨ s.nth n = none ∧ t.nth n = some (.symbol .rightBrace) := by
  have hnth (u : ParseState) : u.nth n = u.written[n]?.map (·.1) := by
    unfold ParseState.nth ParseState.written
    rw [List.getElem?_map, Option.map_map]
    rfl
  have hlength : s.written.length = s.tokens.lexemes.length := List.length_map _
  rw [hnth s, hnth t, h.written]
  obtain hlt | rfl := Nat.lt_or_eq_of_le hn
  · rw [← hlength] at hlt
    rw [List.getElem?_append_left hlt, List.getElem?_eq_getElem hlt]
    exact .inl ⟨_, rfl, rfl⟩
  · exact .inr (by simp [← hlength])

theorem nth_of_nil (h : s.Beside m t) (hs : s.tokens.lexemes = []) : t.nth 0 = some (.symbol .rightBrace) := by
  obtain ⟨_, hk, -⟩ | ⟨-, ht⟩ := h.nth (Nat.zero_le _)
  · exact absurd hs (ne_nil hk)
  · exact ht

/-- The two readings give the same answer to every question but the one for a right brace. -/
theorem any_nth {P : Token → Bool} (h : s.Beside m t) (hn : n ≤ s.tokens.lexemes.length)
    (hP : P (.symbol .rightBrace) = false) : (t.nth n).any P = (s.nth n).any P := by
  obtain ⟨k, hs, ht⟩ | ⟨hs, ht⟩ := h.nth hn
  · rw [hs, ht]
  · rw [hs, ht]
    exact hP

theorem beq_nth (h : s.Beside m t) (hn : n ≤ s.tokens.lexemes.length) (hk : k ≠ .symbol .rightBrace) :
    (t.nth n == some k) = (s.nth n == some k) := by
  obtain ⟨_, hs, ht⟩ | ⟨hs, ht⟩ := h.nth hn
  · rw [hs, ht]
  · rw [hs, ht]
    exact beq_eq_false_iff_ne.2 fun heq => hk (Option.some.inj heq).symm

theorem next (h : s.Beside m t) (hs : s.tokens.lexemes ≠ []) :
    Beside m { s with tokens := s.tokens.next } { t with tokens := t.tokens.next } := by
  refine ⟨?_, h.bindings, h.scope⟩
  have hwritten := congrArg List.tail h.written
  unfold ParseState.written at hwritten ⊢
  obtain ⟨l, ls, hls⟩ := List.exists_cons_of_ne_nil hs
  simpa [TokenStream.next, hls] using hwritten

theorem lookup (h : s.Beside m t) (name : QName) : s.unit.lookup name = none ∧ t.unit.lookup name = none ∨
    ∃ slot slot', s.unit.lookup name = some slot ∧ t.unit.lookup name = some slot' ∧
      m.label slot = m.label' slot' := by
  have hscope := h.scope
  unfold CompileUnit.lookup
  generalize s.unit.scope = vs, t.unit.scope = ws at hscope
  induction hscope with
  | nil => exact .inl ⟨rfl, rfl⟩
  | @cons v w vs ws hvw _ ih =>
    obtain ⟨n, slot⟩ := v
    obtain ⟨n', slot'⟩ := w
    obtain ⟨rfl, hslot⟩ : n = n' ∧ m.label slot = m.label' slot' := hvw
    rw [List.find?_cons, List.find?_cons]
    dsimp only
    cases n.toName == name.toName with
    | true => exact .inr ⟨slot, slot', rfl, rfl, hslot⟩
    | false => exact ih

end Beside
end ParseState

/-- The trees are the same under the labels. -/
def Pairing.Alike (m : Pairing) (e e' : Expr) : Prop := e.relabel m.label = e'.relabel m.label'

def Pairing.AllAlike (m : Pairing) (es es' : List Expr) : Prop :=
  es.map (Expr.relabel m.label) = es'.map (Expr.relabel m.label')

namespace Pairing
variable {m : Pairing} {e e' : Expr} {es es' : List Expr}

theorem Alike.cons (h : m.Alike e e') (hs : m.AllAlike es es') : m.AllAlike (e :: es) (e' :: es') := by
  unfold AllAlike
  rw [List.map_cons, List.map_cons, h, hs]

theorem AllAlike.mkNary (h : m.AllAlike es es') (op : NaryOp) (at₁ at₂ : LocationId) :
    m.Alike (.mkNary op es at₁) (.mkNary op es' at₂) := by
  unfold Alike
  rw [Expr.relabel_mkNary, Expr.relabel_mkNary, h]

theorem Alike.mkUnary (op : UnaryOp) (h : m.Alike e e') (at₁ at₂ : LocationId) :
    m.Alike (.mkUnary op e at₁) (.mkUnary op e' at₂) := by
  unfold Alike
  rw [Expr.relabel_mkUnary, Expr.relabel_mkUnary, h]

end Pairing

namespace Parser
variable {α β γ δ : Type} {m : Pairing} {c : ParseContext} {s t s' t' : ParseState} {p p' : Parser α}
  {q q' : Parser β} {f : α → Parser γ} {g : β → Parser δ} {R : α → β → Prop} {S : γ → δ → Prop} {k k' : Token}

/-- Whenever the first parser succeeds in the first state, the second one does in the second, and what they give is
related. -/
def RepeatsFrom (m : Pairing) (s t : ParseState) (R : α → β → Prop) (p : Parser α) (q : Parser β) : Prop :=
  ∀ c, s.Beside m t → Ensures c p s fun a s' => ∃ b t', ((q c).run).run t = (.ok b, t') ∧ R a b ∧ s'.Beside m t'

def Repeats (m : Pairing) (R : α → β → Prop) (p : Parser α) (q : Parser β) : Prop := ∀ s t, RepeatsFrom m s t R p q

namespace RepeatsFrom

theorem pure {a : α} {b : β} (h : R a b) : RepeatsFrom m s t R (pure a) (pure b) := fun _ hbeside =>
  .pure ⟨b, t, rfl, h, hbeside⟩

theorem bind (hp : RepeatsFrom m s t R p q) (hf : ∀ a b, R a b → Repeats m S (f a) (g b)) :
    RepeatsFrom m s t S (p >>= f) (q >>= g) := fun c hbeside =>
  .bind ((hp c hbeside).imp fun a s' ⟨b, t', hrun, hab, h'⟩ =>
    (hf a b hab s' t' c h').imp fun x _ ⟨y, t'', hrun', hrest⟩ =>
      ⟨y, t'', by rw [run_bind, hrun]; exact hrun', hrest⟩)

/-- The rule for first parsers that give the same. -/
theorem next {p q : Parser α} {f : α → Parser γ} {g : α → Parser δ} (hp : RepeatsFrom m s t Eq p q)
    (hf : ∀ a, Repeats m S (f a) (g a)) : RepeatsFrom m s t S (p >>= f) (q >>= g) :=
  hp.bind fun a _ h => h ▸ hf a

theorem fails (h : Fails p) : RepeatsFrom m s t R p q := fun _ _ => h.ensures

theorem fails_bind (h : Fails p) : RepeatsFrom m s t S (p >>= f) (q >>= g) :=
  bind (R := fun _ _ => False) (fails h) fun _ _ hfalse => hfalse.elim

/-- There is nothing to repeat where the first parser does not succeed. -/
theorem never (h : ∀ c, Ensures c p s fun _ _ => False) : RepeatsFrom m s t R p q := fun c _ =>
  (h c).imp fun _ _ hfalse => hfalse.elim

theorem ite {b : Prop} [Decidable b] (hp : b → RepeatsFrom m s t R p q) (hq : ¬ b → RepeatsFrom m s t R p' q') :
    RepeatsFrom m s t R (if b then p else p') (if b then q else q') := by
  split
  · next h => exact hp h
  · next h => exact hq h

/-- The states are known when something is shown of what they allow. -/
theorem given (h : s.Beside m t → RepeatsFrom m s t R p q) : RepeatsFrom m s t R p q :=
  fun c hbeside => h hbeside c hbeside

/-- Two parsers that only look. -/
theorem look {a : α} {b : β} (hp : ∀ c, ((p c).run).run s = (.ok a, s)) (hq : ∀ c, ((q c).run).run t = (.ok b, t))
    (hf : RepeatsFrom m s t S (f a) (g b)) : RepeatsFrom m s t S (p >>= f) (q >>= g) := by
  intro c hbeside x s' hrun
  rw [run_bind, hp] at hrun
  obtain ⟨y, t', hrun', hrest⟩ := hf c hbeside x s' hrun
  exact ⟨y, t', by rw [run_bind, hq]; exact hrun', hrest⟩

/-- The second parser looks at what is behind the end of the first reading. -/
theorem lookRight {b : β} (hq : ∀ c, ((q c).run).run t = (.ok b, t)) {p : Parser γ} (hf : RepeatsFrom m s t S p (g b)) :
    RepeatsFrom m s t S p (q >>= g) := by
  intro c hbeside x s' hrun
  obtain ⟨y, t', hrun', hrest⟩ := hf c hbeside x s' hrun
  exact ⟨y, t', by rw [run_bind, hq]; exact hrun', hrest⟩

/-- A parser that only looks finds something out. -/
theorem learn {P : α → Prop} {p : Parser α} {f : α → Parser γ} {g : α → Parser δ} (hlooks : Looks p)
    (hp : RepeatsFrom m s t (fun a b => a = b ∧ P a) p p) (hf : ∀ a, P a → RepeatsFrom m s t S (f a) (g a)) :
    RepeatsFrom m s t S (p >>= f) (p >>= g) := by
  refine fun c hbeside => .bind fun a s' hrun => ?_
  obtain ⟨_, t', hrun', ⟨rfl, ha⟩, -⟩ := hp c hbeside a s' hrun
  obtain rfl : s = s' := by have := hlooks c s; rwa [hrun] at this
  obtain rfl : t = t' := by have := hlooks c t; rwa [hrun'] at this
  exact (hf a ha c hbeside).imp fun x _ ⟨y, t'', hrun'', hrest⟩ =>
    ⟨y, t'', by rw [run_bind, hrun']; exact hrun'', hrest⟩

end RepeatsFrom

namespace Repeats

theorem pure {a : α} {b : β} (h : R a b) : Repeats m R (pure a) (pure b) := fun _ _ => .pure h

theorem bind (hp : Repeats m R p q) (hf : ∀ a b, R a b → Repeats m S (f a) (g b)) :
    Repeats m S (p >>= f) (q >>= g) := fun s t => (hp s t).bind hf

theorem fails (h : Fails p) : Repeats m R p q := fun _ _ => .fails h

theorem ite {b : Prop} [Decidable b] (hp : Repeats m R p q) (hq : Repeats m R p' q') :
    Repeats m R (if b then p else p') (if b then q else q') := fun s t => .ite (fun _ => hp s t) fun _ => hq s t

theorem next {p q : Parser α} {f : α → Parser γ} {g : α → Parser δ} (hp : Repeats m Eq p q)
    (hf : ∀ a, Repeats m S (f a) (g a)) : Repeats m S (p >>= f) (q >>= g) := fun s t => (hp s t).next hf

theorem map {p : Parser α} {q : Parser α} (hp : Repeats m Eq p q) (h : α → γ) : Repeats m Eq (h <$> p) (h <$> q) := by
  rw [← bind_pure_comp, ← bind_pure_comp]
  exact hp.next fun a => pure rfl

/-- Both readings change the unit in the end, and stay beside each other. -/
theorem unwinding {g g' : CompileUnit → CompileUnit} (h : Repeats m R p q) (hg : ∀ s t : ParseState,
      s.Beside m t → ParseState.Beside m { s with unit := g s.unit } { t with unit := g' t.unit }) :
    Repeats m R (unwinding g p) (unwinding g' q) := fun s t c hbeside =>
  .unwinding ((h s t c hbeside).imp fun a s' ⟨b, t', hrun, hab, h'⟩ =>
    ⟨b, _, by rw [run_unwinding, hrun], hab, hg s' t' h'⟩)

theorem inScope (h : Repeats m R p q) : Repeats m R (inScope p) (inScope q) := by
  intro s t c hbeside a s' hrun
  rw [run_inScope] at hrun
  rw [run_inScope, ← hbeside.scope.length_eq]
  refine unwinding h (fun s₁ t₁ h₁ => ⟨h₁.written, h₁.bindings, ?_⟩) s t c hbeside a s' hrun
  change List.Forall₂ _ (s₁.unit.scope.drop _) (t₁.unit.scope.drop _)
  rw [← h₁.scope.length_eq]
  exact List.forall₂_drop _ h₁.scope

theorem popping (h : Repeats m R p q) : Repeats m R (popping p) (popping q) := by
  have hpop (u : CompileUnit) : u.pop.2 = { u with scope := u.scope.drop 1 } := by
    obtain ⟨locations, bindings, scope⟩ := u
    cases scope <;> rfl
  refine unwinding h fun s t hbeside => ?_
  rw [hpop, hpop]
  exact ⟨hbeside.written, hbeside.bindings, List.forall₂_drop 1 hbeside.scope⟩

end Repeats

/-! Looking at tokens. -/

theorem run_peek (c : ParseContext) (s : ParseState) : ((peek c).run).run s = (.ok (s.nth 0), s) := by
  unfold ParseState.nth
  rw [← List.head?_eq_getElem?]
  rfl

theorem run_check (k : Token) (c : ParseContext) (s : ParseState) :
    ((check k c).run).run s = (.ok (s.nth 0 == some k), s) := by
  unfold check
  rw [run_bind, run_peek]
  rfl

theorem run_checkQName (c : ParseContext) (s : ParseState) :
    ((checkQName c).run).run s = (.ok ((s.nth 0).any Token.isQName), s) := by
  unfold checkQName
  rw [run_bind, run_peek]
  rfl

theorem run_location (c : ParseContext) (s : ParseState) : ∃ l, ((location c).run).run s =
    (.ok (s.unit.allocateLocation l).1, { s with unit := (s.unit.allocateLocation l).2 }) := by
  obtain ⟨l, hl⟩ : ∃ l, ((currentLocation c).run).run s = (.ok l, s) := by
    unfold currentLocation
    rw [run_bind, show (((get : Parser ParseState) c).run).run s = (.ok s, s) from rfl]
    dsimp only
    cases s.tokens.peek with
    | none => exact ⟨_, rfl⟩
    | some l => exact ⟨_, rfl⟩
  refine ⟨l, ?_⟩
  unfold location
  rw [run_bind, hl]
  rfl

namespace RepeatsFrom
variable {n : ℕ} {f : Bool → Parser γ} {g : Bool → Parser δ}

theorem peek {f : Option Token → Parser γ} {g : Option Token → Parser δ}
    (hsome : ∀ k, s.nth 0 = some k → RepeatsFrom m s t S (f (some k)) (g (some k)))
    (hnone : s.nth 0 = none → RepeatsFrom m s t S (f none) (g (some (.symbol .rightBrace)))) :
    RepeatsFrom m s t S (Parser.peek >>= f) (Parser.peek >>= g) := by
  refine .given fun h => .look (fun c => run_peek c s) (fun c => run_peek c t) ?_
  obtain ⟨k, hs, ht⟩ | ⟨hs, ht⟩ := h.nth (Nat.zero_le _)
  · rw [hs, ht]
    exact hsome k hs
  · rw [hs, ht]
    exact hnone hs

/-- What the first parser does is all that counts where it finds nothing. -/
theorem peekLexeme {f : Option Lexeme → Parser γ} {g : Option Lexeme → Parser δ}
    (hsome : ∀ l l', s.nth 0 = some l.token → l'.token = l.token → l'.text = l.text →
      RepeatsFrom m s t S (f (some l)) (g (some l')))
    (hnone : Fails (f none)) : RepeatsFrom m s t S (Parser.peekLexeme >>= f) (Parser.peekLexeme >>= g) := by
  refine .given fun h => .look (fun c => rfl) (fun c => rfl) ?_
  have hwritten := h.written
  unfold ParseState.written at hwritten
  unfold TokenStream.peek
  rcases hs : s.tokens.lexemes with _ | ⟨l, ls⟩
  · exact .fails hnone
  · rcases ht : t.tokens.lexemes with _ | ⟨l', ls'⟩
    · simp [hs, ht] at hwritten
    · simp only [hs, ht, List.map_cons, List.cons_append, List.cons.injEq, Prod.mk.injEq] at hwritten
      exact hsome l l' (by simp [ParseState.nth, hs]) hwritten.1.1 hwritten.1.2

theorem check (hk : k ≠ .symbol .rightBrace)
    (hf : ∀ b, (b = true → s.nth 0 = some k) → RepeatsFrom m s t S (f b) (g b)) :
    RepeatsFrom m s t S (Parser.check k >>= f) (Parser.check k >>= g) := by
  refine .given fun h => .look (fun c => run_check k c s) (fun c => run_check k c t) ?_
  rw [h.beq_nth (Nat.zero_le _) hk]
  exact hf _ eq_of_beq

theorem checkNth (hn : n ≤ s.tokens.lexemes.length) (hk : k ≠ .symbol .rightBrace)
    (hf : ∀ b, (b = true → s.nth n = some k) → RepeatsFrom m s t S (f b) (g b)) :
    RepeatsFrom m s t S (Parser.checkNth n k >>= f) (Parser.checkNth n k >>= g) := by
  refine .given fun h => .look (fun c => rfl) (fun c => rfl) ?_
  change RepeatsFrom m s t S (f (s.nth n == some k)) (g (t.nth n == some k))
  rw [h.beq_nth hn hk]
  exact hf _ eq_of_beq

theorem checkQName (hf : ∀ b, (b = true → s.nth 0 ≠ none) → RepeatsFrom m s t S (f b) (g b)) :
    RepeatsFrom m s t S (Parser.checkQName >>= f) (Parser.checkQName >>= g) := by
  refine .given fun h => .look (fun c => run_checkQName c s) (fun c => run_checkQName c t) ?_
  rw [h.any_nth (Nat.zero_le _) rfl]
  refine hf _ fun hany hnone => ?_
  rw [hnone] at hany
  cases hany

theorem checkNthQName (hn : n ≤ s.tokens.lexemes.length)
    (hf : ∀ b, (b = true → s.nth n ≠ none) → RepeatsFrom m s t S (f b) (g b)) :
    RepeatsFrom m s t S (Parser.checkNthQName n >>= f) (Parser.checkNthQName n >>= g) := by
  refine .given fun h => .look (fun c => rfl) (fun c => rfl) ?_
  change RepeatsFrom m s t S (f ((s.nth n).any Token.isQName)) (g ((t.nth n).any Token.isQName))
  rw [h.any_nth hn rfl]
  refine hf _ fun hany hnone => ?_
  rw [hnone] at hany
  cases hany

theorem static {f : StaticContext → Parser γ} {g : StaticContext → Parser δ}
    (hf : ∀ x, RepeatsFrom m s t S (f x) (g x)) : RepeatsFrom m s t S (Parser.static >>= f) (Parser.static >>= g) :=
  fun c hbeside x s' hrun => hf c.static c hbeside x s' hrun

/-- Two questions about the next tokens. -/
theorem both {p p' : Parser α} {q q' : Parser β} (hk : k ≠ .symbol .rightBrace) (hk' : k' ≠ .symbol .rightBrace)
    (hyes : s.nth 0 = some k → s.nth 1 = some k' → RepeatsFrom m s t R p q) (hno : RepeatsFrom m s t R p' q') :
    RepeatsFrom m s t R
      (Parser.check k >>= fun a => Parser.checkNth 1 k' >>= fun b => if (a && b) = true then p else p')
      (Parser.check k >>= fun a => Parser.checkNth 1 k' >>= fun b => if (a && b) = true then q else q') := by
  refine .given fun h => .check hk fun a ha => ?_
  cases a with
  | false => exact .look (fun c => rfl) (fun c => rfl) hno
  | true =>
    refine .checkNth (ParseState.lt_of_nth (ha rfl)) hk' fun b hb => .ite (fun hboth => ?_) fun _ => hno
    exact hyes (ha rfl) (hb hboth)

/-! Reading on. -/

theorem advance {f : PUnit → Parser γ} {g : PUnit → Parser δ} (hs : s.tokens.lexemes ≠ [])
    (hf : ∀ s' t', s'.tokens = s.tokens.next → RepeatsFrom m s' t' S (f ⟨⟩) (g ⟨⟩)) :
    RepeatsFrom m s t S (Parser.advance >>= f) (Parser.advance >>= g) := by
  intro c hbeside x s' hrun
  exact hf { s with tokens := s.tokens.next } { t with tokens := t.tokens.next } rfl c (hbeside.next hs) x s' hrun

theorem location {f : LocationId → Parser γ} {g : LocationId → Parser δ}
    (hf : ∀ at₁ at₂ s' t', s'.tokens = s.tokens → RepeatsFrom m s' t' S (f at₁) (g at₂)) :
    RepeatsFrom m s t S (Parser.location >>= f) (Parser.location >>= g) := by
  intro c hbeside x s' hx
  obtain ⟨l, hl⟩ := run_location c s
  obtain ⟨l', hl'⟩ := run_location c t
  obtain ⟨-, hbindings, hscope, -⟩ := allocateLocation_spec s.unit l
  obtain ⟨-, hbindings', hscope', -⟩ := allocateLocation_spec t.unit l'
  rw [run_bind, hl] at hx
  rw [run_bind, hl']
  refine hf _ _ { s with unit := (s.unit.allocateLocation l).2 } { t with unit := (t.unit.allocateLocation l').2 } rfl c
    ⟨hbeside.written, ?_, ?_⟩ x s' hx
  · rw [hbindings, hbindings']
    exact hbeside.bindings
  · rw [hscope, hscope']
    exact hbeside.scope

theorem eat (hk : k = .symbol .rightBrace → s.tokens.lexemes ≠ [])
    (hyes : ∀ s' t', s.nth 0 = some k → s'.tokens = s.tokens.next → RepeatsFrom m s' t' S (f true) (g true))
    (hno : RepeatsFrom m s t S (f false) (g false)) :
    RepeatsFrom m s t S (Parser.eat k >>= f) (Parser.eat k >>= g) := by
  refine .given fun h => ?_
  have hfound : (t.nth 0 == some k) = (s.nth 0 == some k) := by
    obtain ⟨_, hs, ht⟩ | ⟨hs, ht⟩ := h.nth (Nat.zero_le _)
    · rw [hs, ht]
    · refine h.beq_nth (Nat.zero_le _) fun hbrace => hk hbrace ?_
      simpa [ParseState.nth] using hs
  unfold Parser.eat
  rw [bind_assoc, bind_assoc]
  refine .look (fun c => run_check k c s) (fun c => run_check k c t) ?_
  rw [hfound]
  cases hb : s.nth 0 == some k with
  | false => exact hno
  | true =>
    have hfirst : s.nth 0 = some k := eq_of_beq hb
    change RepeatsFrom m s t S (Parser.advance >>= fun _ => f true) (Parser.advance >>= fun _ => g true)
    exact .advance (ParseState.ne_nil hfirst) fun s' t' hnext => hyes s' t' hfirst hnext

end RepeatsFrom

theorem repeats_location : Repeats m (fun _ _ => True) location location := fun s t => by
  rw [← bind_pure location]
  exact .location fun _ _ _ _ _ => .pure trivial

theorem repeats_eat (hk : k ≠ .symbol .rightBrace) : Repeats m Eq (eat k) (eat k) := fun s t => by
  rw [← bind_pure (eat k)]
  exact .eat (fun h => absurd h hk) (fun _ _ _ _ => .pure rfl) (.pure rfl)

theorem repeats_eatSymbol {x : Symbol} (hx : x ≠ .rightBrace) : Repeats m Eq (eatSymbol x) (eatSymbol x) :=
  repeats_eat fun h => hx (Token.symbol.inj h)

theorem repeats_eatName (name : String) : Repeats m Eq (eatName name) (eatName name) := repeats_eat (by simp)

/-- Where a symbol has to come, also a brace. -/
theorem repeats_expectSymbol (x : Symbol) : Repeats m Eq (expectSymbol x) (expectSymbol x) := by
  intro s t
  by_cases hs : s.tokens.lexemes = []
  · refine .never fun c => (ensures_expectSymbol x).imp fun _ s' h => ?_
    obtain ⟨-, l, hl, -⟩ := h
    rw [hs] at hl
    cases hl
  · exact .eat (fun _ => hs) (fun _ _ _ _ => .pure rfl) (.fails (fails_expected _))

theorem repeats_expectName (name : String) : Repeats m Eq (expectName name) (expectName name) :=
  (repeats_eatName name).next fun _ => .ite (.pure rfl) (.fails (fails_expected _))

/-! Names and types. -/

theorem repeats_resolvePrefix (pfx : String) (l l' : Lexeme) :
    Repeats m Eq (resolvePrefix pfx l) (resolvePrefix pfx l') := by
  refine fun s t => .static fun x => ?_
  split
  · exact .pure rfl
  · exact .fails (fails_failAt _ _ _)

theorem repeats_qname (default : NameDefault) :
    Repeats m (fun r r' => r.1 = r'.1) (qname default) (qname default) := by
  intro s t
  refine .peekLexeme (fun l l' hl htoken _ => .static fun x => ?_) (fails_expected _)
  have hs := ParseState.ne_nil hl
  dsimp only
  rw [htoken]
  split
  · exact .advance hs fun s' t' _ => .pure rfl
  · next pfx name _ =>
    exact .advance hs fun s' t' _ => .next (repeats_resolvePrefix pfx l l' s' t') fun uri => .pure rfl
  · exact .advance hs fun s' t' _ => .pure rfl
  · exact .fails (fails_expected _)

theorem repeats_resolveBuiltinType (n : QName) (l l' : Lexeme) :
    Repeats m Eq (resolveBuiltinType n l) (resolveBuiltinType n l') := by
  intro s t
  unfold resolveBuiltinType
  split
  · exact .fails (fails_failAt _ _ _)
  · exact .static fun x => .ite (fun _ => .pure rfl) fun _ => .fails (fails_failAt _ _ _)

theorem repeats_resolveAtomicType (n : QName) (l l' : Lexeme) :
    Repeats m Eq (resolveAtomicType n l) (resolveAtomicType n l') := by
  unfold resolveAtomicType
  split
  · exact .fails (fails_failAt _ _ _)
  · refine .ite ((repeats_resolveBuiltinType n l l').next fun type => ?_) (.ite (.pure rfl) fun s t => ?_)
    · exact .ite (.pure rfl) (.fails (fails_failAt _ _ _))
    · exact .static fun x => .ite (fun _ => .pure rfl) fun _ => .fails (fails_failAt _ _ _)

theorem repeats_resolveCastTarget (n : QName) (l l' : Lexeme) :
    Repeats m Eq (resolveCastTarget n l) (resolveCastTarget n l') := by
  refine .ite ((repeats_resolveBuiltinType n l l').next fun type => ?_) ?_
  · exact .ite (.fails (fails_failAt _ _ _)) (.ite (.fails (fails_failAt _ _ _)) (.pure rfl))
  · exact (repeats_resolveAtomicType n l l').next fun _ => .fails (fails_failAt _ _ _)

/-- A kind test has a name and a parenthesis. -/
theorem RepeatsFrom.checkKindTest {f : Bool → Parser γ} {g : Bool → Parser δ}
    (hf : ∀ b, (b = true → s.tokens.lexemes ≠ []) → RepeatsFrom m s t S (f b) (g b)) :
    RepeatsFrom m s t S (Parser.checkKindTest >>= f) (Parser.checkKindTest >>= g) := by
  refine .learn looks_checkKindTest (.peek (fun k hk => ?_) fun _ => .pure ⟨rfl, nofun⟩) hf
  have hs := ParseState.lt_of_nth hk
  split
  · exact .checkNth hs (by simp) fun _ _ => .pure ⟨rfl, fun _ => List.ne_nil_of_length_pos hs⟩
  · exact .pure ⟨rfl, nofun⟩

theorem repeats_nameAndType (default : NameDefault) : Repeats m Eq (nameAndType default) (nameAndType default) := by
  intro s t
  refine .check (by simp) fun _ _ => .ite (fun _ => .pure rfl) fun _ => ?_
  refine .next (repeats_eatSymbol (x := .asterisk) (by decide) s t) fun _ => .ite
    ((Repeats.pure (R := Eq) rfl).next fun name => ?_)
    ((repeats_qname _).bind fun r r' hr => (Repeats.pure (R := Eq) (by rw [hr])).next fun name => ?_)
  all_goals
    refine (repeats_eatSymbol (x := .comma) (by simp)).next fun _ => .ite ?_ (.pure rfl)
    refine (repeats_qname _).bind fun r r' hr => (repeats_eatSymbol (x := .question) (by simp)).next fun _ => ?_
    exact .pure (by rw [hr])

theorem repeats_processingInstructionTarget :
    Repeats m Eq processingInstructionTarget processingInstructionTarget := by
  intro s t
  refine .peek (fun k hk => ?_) fun _ => .pure rfl
  have hs := ParseState.ne_nil hk
  split
  · exact .advance hs fun _ _ _ => .pure rfl
  · exact .advance hs fun _ _ _ => .pure rfl
  · exact .pure rfl

theorem repeats_kindTest : Repeats m Eq kindTest kindTest := by
  intro s t
  refine .peekLexeme (fun l l' hl _ htext => ?_) (fails_expected _)
  refine .advance (ParseState.ne_nil hl) fun s t _ => ?_
  refine (repeats_expectSymbol .leftParen).next (fun _ => ?_) s t
  have hclose (test : KindTest) : Repeats m Eq (expectSymbol .rightParen >>= fun _ => pure test)
      (expectSymbol .rightParen >>= fun _ => pure test) := (repeats_expectSymbol _).next fun _ => .pure rfl
  dsimp only
  rw [htext]
  split
  · exact hclose _
  · exact hclose _
  · exact hclose _
  · exact hclose _
  · exact ((repeats_nameAndType _).map _).next hclose
  · exact ((repeats_nameAndType _).map _).next hclose
  · refine (repeats_eatName _).next fun _ => .ite ((repeats_expectSymbol _).next fun _ => ?_) (hclose _)
    exact (repeats_nameAndType _).next fun _ => (repeats_expectSymbol _).next fun _ => hclose _
  · exact (repeats_processingInstructionTarget.map _).next hclose
  · exact (Repeats.fails (R := Eq) (fails_failAt _ _ _)).next hclose

theorem repeats_emptyParens (name : String) (a : α) (hp : Repeats m Eq p p) : Repeats m Eq (do
      if (← checkName name) && (← checkNthSymbol 1 .leftParen) then
        advance
        advance
        expectSymbol .rightParen
        return a
      p) (do
      if (← checkName name) && (← checkNthSymbol 1 .leftParen) then
        advance
        advance
        expectSymbol .rightParen
        return a
      p) := by
  intro s t
  refine .both (by simp) (by simp) (fun hfirst hsecond => ?_) (hp s t)
  refine .advance (ParseState.ne_nil hfirst) fun s' t' hnext => ?_
  refine .advance (hnext ▸ ParseState.next_ne_nil hsecond) fun s'' t'' _ => ?_
  exact .next (repeats_expectSymbol _ s'' t'') fun _ => .pure rfl

theorem repeats_itemType : Repeats m Eq itemType itemType := by
  intro s t
  refine .checkKindTest fun _ _ => .ite (fun _ => .next (repeats_kindTest s t) fun _ => .pure rfl) fun _ => ?_
  refine repeats_emptyParens "item" _ (fun s t => ?_) s t
  have hrest : Repeats m Eq (qname .element >>= fun r => resolveAtomicType r.1 r.2)
      (qname .element >>= fun r => resolveAtomicType r.1 r.2) :=
    (repeats_qname _).bind fun r r' hr => hr ▸ repeats_resolveAtomicType r.1 r.2 r'.2
  refine .checkQName fun found hfound => .ite (fun hyes => ?_) fun _ => .fails_bind (fails_expected _)
  obtain ⟨k, hk⟩ := Option.ne_none_iff_exists'.1 (hfound hyes)
  refine .checkNth (ParseState.lt_of_nth hk) (by simp) fun _ _ => .ite (fun _ => ?_) fun _ => hrest s t
  exact .fails_bind (fails_fail _ _)

theorem repeats_occurrence : Repeats m Eq occurrence occurrence := by
  refine (repeats_eatSymbol (x := .question) (by simp)).next fun _ => .ite (.pure rfl) ?_
  refine (repeats_eatSymbol (x := .asterisk) (by simp)).next fun _ => .ite (.pure rfl) ?_
  exact (repeats_eatSymbol (x := .plus) (by simp)).next fun _ => .ite (.pure rfl) (.pure rfl)

theorem repeats_sequenceType : Repeats m Eq sequenceType sequenceType :=
  repeats_emptyParens "empty-sequence" _
    (repeats_itemType.next fun _ => repeats_occurrence.next fun _ => .pure rfl)

theorem repeats_singleType : Repeats m Eq singleType singleType := by
  refine (repeats_qname _).bind fun r r' hr => ?_
  dsimp only
  rw [hr]
  refine (repeats_resolveCastTarget _ _ _).next fun type => ?_
  exact (repeats_eatSymbol (x := .question) (by simp)).next fun _ => .pure rfl

/-! Steps, signs and functions. -/

theorem repeats_nodeTest (axis : Axis) : Repeats m Eq (nodeTest axis) (nodeTest axis) := by
  intro s t
  refine .checkKindTest fun _ _ => .ite (fun _ => .next (repeats_kindTest s t) fun _ => .pure rfl) fun _ => ?_
  refine .peekLexeme (fun l l' hl htoken _ => ?_) (fails_expected _)
  have hs := ParseState.ne_nil hl
  dsimp only
  rw [htoken]
  split
  · exact .advance hs fun _ _ _ => .pure rfl
  · next pfx _ => exact .advance hs fun s' t' _ => .next (repeats_resolvePrefix pfx l l' s' t') fun _ => .pure rfl
  · exact .advance hs fun _ _ _ => .pure rfl
  · exact .advance hs fun _ _ _ => .pure rfl
  · exact (repeats_qname _ s t).bind fun r r' hr => .pure (by rw [hr])

theorem never_nodeTest (axis : Axis) (hs : s.tokens.lexemes = []) :
    Ensures c (nodeTest axis) s fun _ _ => False := by
  have hnone : s.tokens.first = none := by rw [TokenStream.first, hs]; rfl
  refine .bind (ensures_checkKindTest.imp fun b s₁ h => .ite (fun hb => ?_) fun _ => ?_)
  · obtain ⟨_, hname⟩ := h.2 hb
    cases hnone.symm.trans hname
  · refine .bind (ensures_peekLexeme.imp fun o s₂ h' => ?_)
    rw [h'.2, h.1, hs]
    exact (fails_expected _).ensures

theorem repeats_axisAndTest : Repeats m Eq (axisAndTest nodeTest) (axisAndTest nodeTest) := by
  refine (repeats_eatSymbol (x := .atSign) (by simp)).next fun _ =>
    .ite ((repeats_nodeTest _).next fun _ => .pure rfl) ?_
  refine (repeats_eatSymbol (x := .dotDot) (by simp)).next fun _ => .ite (.pure rfl) fun s t => ?_
  by_cases hs : s.tokens.lexemes = []
  · -- At its end the first reading finds no test, whatever the second one finds behind the brace.
    refine .never fun c => .bind ((ensures_checkSecond _).imp fun b s₁ h => .ite (fun hb => ?_) fun _ => ?_)
    · have hsecond := h.2 hb
      rw [TokenStream.first_next, hs] at hsecond
      cases hsecond
    · exact .bind ((never_nodeTest _ (h.1 ▸ hs)).imp fun _ _ hfalse => hfalse.elim)
  refine .checkNth (List.length_pos_iff.2 hs) (by simp) fun b hb => .ite (fun hcolon => ?_) fun _ => ?_
  · refine .peek (fun k hk => ?_) fun hnone => ?_
    · dsimp only
      split
      · exact .fails_bind (fails_expected _)
      · refine .advance hs fun s₁ t₁ hnext => .advance (hnext ▸ ParseState.next_ne_nil (hb hcolon)) fun s₂ t₂ _ => ?_
        exact .next (repeats_nodeTest _ s₂ t₂) fun _ => .pure rfl
    · exact .fails_bind (fails_expected _)
  · refine .next (repeats_nodeTest _ s t) fun x => ?_
    split <;> exact .pure rfl

theorem repeats_startsStep : Repeats m Eq startsStep startsStep := fun _ _ =>
  .peek (fun _ _ => .pure rfl) fun _ => .pure rfl

theorem repeats_startsAxisStep : Repeats m Eq startsAxisStep startsAxisStep := by
  intro s t
  refine .peek (fun k hk => ?_) fun _ => .pure rfl
  have hs := ParseState.lt_of_nth hk
  have hname : RepeatsFrom m s t Eq (do return !(← checkNthSymbol 1 .leftParen) || (← checkKindTest))
      (do return !(← checkNthSymbol 1 .leftParen) || (← checkKindTest)) :=
    .checkNth hs (by simp) fun _ _ => .checkKindTest fun _ _ => .pure rfl
  split
  all_goals first | exact .pure rfl | exact hname | skip
  refine .checkNth hs (by simp) fun _ _ => .ite (fun _ => .pure rfl) fun _ => ?_
  refine .checkNthQName hs fun _ _ => .ite (fun _ => .pure rfl) fun _ => ?_
  exact .checkNth hs (by simp) fun _ _ => .ite (fun _ => .pure rfl) fun _ => hname

/-- A variable in scope has slots with the same label. -/
theorem repeats_variableRef : Repeats m m.Alike variableRef variableRef := by
  refine repeats_location.bind fun at₁ at₂ _ => (repeats_expectSymbol _).next fun _ => ?_
  refine (repeats_qname _).bind fun r r' hr s t => ?_
  obtain ⟨n, l⟩ := r
  obtain ⟨n', l'⟩ := r'
  obtain rfl : n = n' := hr
  refine .given fun h => .look (fun c => rfl) (fun c => rfl) ?_
  obtain ⟨hs, ht⟩ | ⟨slot, slot', hs, ht, hslot⟩ := h.lookup n
  · rw [hs, ht]
    exact .static fun x => .ite (fun _ => .pure rfl) fun _ => .fails (fails_failAt _ _ _)
  · rw [hs, ht]
    exact .pure (congrArg (fun slot => Expr.mkLeaf (.variable (.range slot)) 0) hslot)

theorem repeats_unknownFunction (n : QName) (arity : ℕ) (l l' : Lexeme) :
    Repeats m Eq (unknownFunction n arity l) (unknownFunction n arity l') := by
  refine fun s t => .static fun x => .ite (fun _ => ?_) fun _ => .fails (fails_failAt _ _ _)
  intro c hbeside y s' hrun
  cases hrun
  exact ⟨_, _, rfl, rfl, hbeside.written, hbeside.bindings, hbeside.scope⟩

theorem repeats_resolveFunction (n : QName) (arity : ℕ) (l l' : Lexeme) :
    Repeats m Eq (resolveFunction n arity l) (resolveFunction n arity l') := by
  unfold resolveFunction
  dsimp only
  split
  · exact .pure rfl
  · exact repeats_unknownFunction n arity l l'

theorem repeats_applyFunction (n : QName) (l l' : Lexeme) {args args' : List Expr} (h : m.AllAlike args args')
    (at₁ at₂ : LocationId) : Repeats m m.Alike (applyFunction n l args at₁) (applyFunction n l' args' at₂) := by
  have hlength : args.length = args'.length := by simpa using congrArg List.length h
  have hcall : Repeats m m.Alike (resolveFunction n args.length l >>= fun f => pure (.mkNary (.call f) args at₁))
      (resolveFunction n args'.length l' >>= fun f => pure (.mkNary (.call f) args' at₂)) := by
    rw [hlength]
    exact (repeats_resolveFunction n _ l l').next fun f => .pure (h.mkNary _ _ _)
  unfold applyFunction
  rcases args with _ | ⟨e, _ | ⟨e₁, es⟩⟩ <;> rcases args' with _ | ⟨e', _ | ⟨e₁', es'⟩⟩ <;> try cases hlength
  · exact hcall
  · refine .ite ((repeats_resolveCastTarget n l l').next fun type => .pure ?_) hcall
    exact Pairing.Alike.mkUnary _ (List.cons.inj h).1 _ _
  · exact hcall

theorem repeats_typeOperator {first second : String} {type : Parser UnaryOp} {e e' : Expr}
    (htype : Repeats m Eq type type) (he : m.Alike e e') :
    Repeats m m.Alike (typeOperator first second type e) (typeOperator first second type e') := by
  refine fun s t => .given fun h => ?_
  by_cases hs : s.tokens.lexemes = []
  · -- The first reading is at its end, and the second one sees that the brace is no operator.
    have hsecond : s.nth 1 = none := by simp [ParseState.nth, hs]
    have hbrace := h.nth_of_nil hs
    refine .look (a := s.nth 1) (b := t.nth 1) (fun c => rfl) (fun c => rfl) ?_
    rw [hsecond]
    dsimp only
    split
    · refine .lookRight (fun c => run_check _ c t) ?_
      rw [hbrace]
      exact .pure he
    · exact .pure he
  · refine .look (a := s.nth 1) (b := t.nth 1) (fun c => rfl) (fun c => rfl) ?_
    obtain ⟨k, hk, hk'⟩ | ⟨hk, hk'⟩ := h.nth (List.length_pos_iff.2 hs)
    · rw [hk, hk']
      split
      · refine .check (by simp) fun b hb => .ite (fun hboth => ?_) fun _ => .pure he
        refine .location fun at₁ at₂ s₁ t₁ hsame => .advance (hsame ▸ hs) fun s₂ t₂ hnext => ?_
        refine .advance ?_ fun s₃ t₃ _ => .next (htype s₃ t₃) fun op => .pure (he.mkUnary op _ _)
        rw [hnext, hsame]
        exact ParseState.next_ne_nil hk
      · exact .pure he
    · rw [hk, hk']
      exact .pure he

theorem repeats_typeOperators {e e' : Expr} (he : m.Alike e e') :
    Repeats m m.Alike (typeOperators e) (typeOperators e') := by
  have hsingle (op : AtomicType × Bool → UnaryOp) : Repeats m Eq (singleType >>= fun t => pure (op t))
      (singleType >>= fun t => pure (op t)) := repeats_singleType.next fun _ => .pure rfl
  have hsequence (op : SequenceType → UnaryOp) : Repeats m Eq (sequenceType >>= fun t => pure (op t))
      (sequenceType >>= fun t => pure (op t)) := repeats_sequenceType.next fun _ => .pure rfl
  refine (repeats_typeOperator (hsingle _) he).bind fun e e' he => ?_
  refine (repeats_typeOperator (hsingle _) he).bind fun e e' he => ?_
  refine (repeats_typeOperator (hsequence _) he).bind fun e e' he => ?_
  exact repeats_typeOperator (hsequence _) he

theorem run_eat_not (h : s.nth 0 ≠ some k) (c : ParseContext) : ((eat k c).run).run s = (.ok false, s) := by
  unfold eat
  rw [run_bind, run_check, beq_eq_false_iff_ne.2 h]
  rfl

/-- Enough fuel for the signs that are left is as good as more. -/
theorem repeats_signs {n n' : ℕ} (hn : s.tokens.lexemes.length ≤ n) (hn' : n ≤ n') (signed negative : Bool) :
    RepeatsFrom m s t Eq (signs n signed negative) (signs n' signed negative) := by
  have hshorter {n : ℕ} {s s' : ParseState} (hn : s.tokens.lexemes.length ≤ n + 1)
      (hnext : s'.tokens = s.tokens.next) : s'.tokens.lexemes.length ≤ n := by
    rw [hnext, TokenStream.next, List.length_tail]
    omega
  induction n generalizing n' s t signed negative with
  | zero =>
    refine .given fun h => ?_
    have hbrace := h.nth_of_nil (List.length_eq_zero_iff.1 (Nat.le_zero.1 hn))
    cases n' with
    | zero => exact .pure rfl
    | succ n' =>
      refine .lookRight (run_eat_not (by simp [hbrace])) ?_
      exact .lookRight (run_eat_not (by simp [hbrace])) (.pure rfl)
  | succ n ih =>
    obtain _ | n' := n'
    · omega
    refine .eat (by simp) (fun s' t' _ hnext => ih (hshorter hn hnext) (by omega) _ _) ?_
    exact .eat (by simp) (fun s' t' _ hnext => ih (hshorter hn hnext) (by omega) _ _) (.pure rfl)

/-- The new variables have slots with the same label. -/
theorem repeats_declare (n : QName) (type : Option SequenceType) :
    Repeats m (fun a b => m.label a = m.label' b) (declare n type) (declare n type) := by
  intro s t c hbeside a s' hrun
  cases hrun
  obtain ⟨i, hs, ht⟩ := hbeside.bindings
  have hslot : m.label s.unit.bindings.size = m.label' t.unit.bindings.size := by rw [hs, ht, m.agree]
  refine ⟨_, _, rfl, hslot, hbeside.written, ⟨i + 1, ?_, ?_⟩, .cons ⟨rfl, hslot⟩ hbeside.scope⟩
  · simp [CompileUnit.push, hs, Nat.add_assoc]
  · simp [CompileUnit.push, ht, Nat.add_assoc]

theorem repeats_clauseHead (k : BindingKeyword) : Repeats m Eq (clauseHead k) (clauseHead k) := by
  refine (repeats_expectSymbol _).next fun _ => (repeats_qname _).bind fun r r' hr => ?_
  obtain ⟨n, l⟩ := r
  obtain ⟨n', l'⟩ := r'
  obtain rfl : n = n' := hr
  have hword (type : Option SequenceType) : Repeats m Eq
      (if k = .let then expectSymbol .colonEqual >>= fun _ => pure (n, type)
        else expectName "in" >>= fun _ => pure (n, type))
      (if k = .let then expectSymbol .colonEqual >>= fun _ => pure (n, type)
        else expectName "in" >>= fun _ => pure (n, type)) :=
    .ite ((repeats_expectSymbol _).next fun _ => .pure rfl) ((repeats_expectName _).next fun _ => .pure rfl)
  dsimp only
  split
  · refine (repeats_eatName "as").next fun typed => .ite ((repeats_sequenceType.map _).next hword) ?_
    exact (Repeats.pure (R := Eq) rfl).next hword
  · refine (Repeats.pure (R := Eq) rfl).next fun typed => .ite ((repeats_sequenceType.map _).next hword) ?_
    exact (Repeats.pure (R := Eq) rfl).next hword

end Parser
end XPath
