import XPath.Proofs.Reading

/-!
What parsers do where it is known which tokens come next. A parser that takes such tokens succeeds, stops at a known
place and leaves the variables in scope as they are; one that breaks there fails with a known code.
-/
namespace XPath

/-- The tokens that are left. -/
def ParseState.upcoming (s : ParseState) : List Token := s.tokens.lexemes.map (·.token)

namespace Parser
variable {α β : Type} {c : ParseContext} {scope : Scope} {ts ts' ts'' : List Token} {p : Parser α} {f : α → Parser β}
  {Q Q' : α → Prop} {R : β → Prop} {a : α} {t : Token} {code : ErrorCode}

/-- Where the tokens `ts` come next, the parser gives something of which `Q` holds and stops before the tokens `ts'`. -/
def Takes (c : ParseContext) (scope : Scope) (ts : List Token) (p : Parser α) (Q : α → Prop) (ts' : List Token) : Prop :=
  ∀ s : ParseState, s.upcoming = ts → s.unit.scope = scope → ∃ a s', ((p c).run).run s = (.ok a, s') ∧ Q a ∧
    s'.upcoming = ts' ∧ s'.unit.scope = scope

/-- Where these tokens come next, the parser fails with this code. -/
def Breaks (c : ParseContext) (scope : Scope) (ts : List Token) (p : Parser α) (code : ErrorCode) : Prop :=
  ∀ s : ParseState, s.upcoming = ts → s.unit.scope = scope → ∃ e s', ((p c).run).run s = (.error e, s') ∧ e.code = code

namespace Takes

theorem imp (h : Takes c scope ts p Q ts') (hQ : ∀ a, Q a → Q' a) : Takes c scope ts p Q' ts' := by
  intro s htokens hscope
  obtain ⟨a, s', hrun, ha, hrest⟩ := h s htokens hscope
  exact ⟨a, s', hrun, hQ a ha, hrest⟩

theorem pure (h : Q a) : Takes c scope ts (pure a) Q ts :=
  fun s htokens hscope => ⟨a, s, rfl, h, htokens, hscope⟩

theorem bind (h : Takes c scope ts p Q ts') (hf : ∀ a, Q a → Takes c scope ts' (f a) R ts'') :
    Takes c scope ts (p >>= f) R ts'' := by
  intro s htokens hscope
  obtain ⟨a, s', hrun, ha, htokens', hscope'⟩ := h s htokens hscope
  obtain ⟨b, s'', hrun', hrest⟩ := hf a ha s' htokens' hscope'
  exact ⟨b, s'', by rw [run_bind, hrun]; exact hrun', hrest⟩

/-- The rule for a first parser of which it is known what it gives. -/
theorem next (h : Takes c scope ts p (· = a) ts') (hf : Takes c scope ts' (f a) R ts'') :
    Takes c scope ts (p >>= f) R ts'' :=
  h.bind fun _ ha => ha ▸ hf

theorem breaks (h : Takes c scope ts p Q ts') (hf : ∀ a, Q a → Breaks c scope ts' (f a) code) :
    Breaks c scope ts (p >>= f) code := by
  intro s htokens hscope
  obtain ⟨a, s', hrun, ha, htokens', hscope'⟩ := h s htokens hscope
  obtain ⟨e, s'', hrun', hcode⟩ := hf a ha s' htokens' hscope'
  exact ⟨e, s'', by rw [run_bind, hrun]; exact hrun', hcode⟩

theorem next_breaks (h : Takes c scope ts p (· = a) ts') (hf : Breaks c scope ts' (f a) code) :
    Breaks c scope ts (p >>= f) code :=
  h.breaks fun _ ha => ha ▸ hf

end Takes

theorem Breaks.bind (h : Breaks c scope ts p code) : Breaks c scope ts (p >>= f) code := by
  intro s htokens hscope
  obtain ⟨e, s', hrun, hcode⟩ := h s htokens hscope
  exact ⟨e, s', by rw [run_bind, hrun], hcode⟩

/-! Parsers that look at the next tokens. -/

theorem takes_get : Takes c scope ts (get : Parser ParseState) (fun s => s.upcoming = ts ∧ s.unit.scope = scope) ts :=
  fun s htokens hscope => ⟨s, s, rfl, ⟨htokens, hscope⟩, htokens, hscope⟩

theorem takes_static : Takes c scope ts static (· = c.static) ts :=
  fun s htokens hscope => ⟨c.static, s, rfl, rfl, htokens, hscope⟩

theorem takes_peekLexeme : Takes c scope ts peekLexeme (·.map (·.token) = ts.head?) ts := by
  refine takes_get.bind fun s ⟨hs, _⟩ => .pure ?_
  rw [← hs, ParseState.upcoming, List.head?_map]
  rfl

theorem takes_peek : Takes c scope ts peek (· = ts.head?) ts :=
  takes_peekLexeme.bind fun _ ho => .pure ho

theorem takes_peekNth (n : ℕ) : Takes c scope ts (peekNth n) (· = ts[n]?) ts := by
  refine takes_get.bind fun s ⟨hs, _⟩ => .pure ?_
  rw [← hs, ParseState.upcoming, List.getElem?_map]
  rfl

theorem takes_check (t : Token) : Takes c scope ts (check t) (· = (ts.head? == some t)) ts :=
  takes_peek.next (.pure rfl)

theorem takes_checkNth (n : ℕ) (t : Token) : Takes c scope ts (checkNth n t) (· = (ts[n]? == some t)) ts :=
  (takes_peekNth n).next (.pure rfl)

theorem takes_checkQName : Takes c scope ts checkQName (· = ts.head?.any Token.isQName) ts := takes_peek.next (.pure rfl)

theorem takes_checkNthQName (n : ℕ) : Takes c scope ts (checkNthQName n) (· = ts[n]?.any Token.isQName) ts :=
  (takes_peekNth n).next (.pure rfl)

theorem takes_checkKindTest : Takes c scope ts checkKindTest (fun b => ts[1]? ≠ some (.symbol .leftParen) → b = false) ts := by
  refine takes_peek.next ?_
  split
  · refine (takes_checkNth 1 _).next (.pure fun h => ?_)
    rw [beq_eq_false_iff_ne.2 h, Bool.and_false]
  · exact .pure fun _ => rfl

theorem takes_fuel : Takes c scope ts fuel (· = 40 * (ts.length + 2)) ts := by
  refine takes_get.bind fun s ⟨hs, _⟩ => .pure ?_
  rw [← hs, ParseState.upcoming, List.length_map]

theorem takes_currentLocation : Takes c scope ts currentLocation (fun _ => True) ts := by
  refine takes_get.bind fun s _ => ?_
  split <;> exact .pure trivial

theorem takes_location : Takes c scope ts location (fun _ => True) ts := by
  refine takes_currentLocation.bind fun l _ s htokens hscope => ⟨_, _, rfl, trivial, htokens, ?_⟩
  obtain ⟨-, -, hkept, -⟩ := allocateLocation_spec s.unit l
  exact hkept.trans hscope

/-! Parsers that read on. -/

theorem takes_advance : Takes c scope (t :: ts) advance (fun _ => True) ts := by
  intro s htokens hscope
  refine ⟨_, _, rfl, trivial, ?_, hscope⟩
  rw [ParseState.upcoming] at htokens ⊢
  simp [TokenStream.next, htokens]

theorem takes_eat : Takes c scope (t :: ts) (eat t) (· = true) ts := by
  refine (takes_check t).next ?_
  rw [List.head?_cons, beq_self_eq_true]
  exact takes_advance.bind fun _ _ => .pure rfl

theorem takes_eat_not (h : ts.head? ≠ some t) : Takes c scope ts (eat t) (· = false) ts := by
  refine (takes_check t).next ?_
  rw [beq_eq_false_iff_ne.2 h]
  exact .pure rfl

theorem takes_expectSymbol (x : Symbol) : Takes c scope (.symbol x :: ts) (expectSymbol x) (fun _ => True) ts :=
  takes_eat.next (.pure trivial)

theorem takes_lexeme : Takes c scope (t :: ts) peekLexeme (fun o => ∃ l, o = some l ∧ l.token = t) (t :: ts) :=
  takes_peekLexeme.imp fun _ ho => Option.map_eq_some_iff.1 ho

/-- An unprefixed name is in the default namespace for elements. -/
theorem takes_elementName (s : String) : Takes c scope (.name s :: ts) (qname .element)
    (·.1 = (QName.unprefixed s).withDefault c.static.namespaces.element) ts := by
  refine takes_lexeme.bind fun o ⟨l, ho, hl⟩ => ?_
  subst ho
  refine takes_static.next ?_
  dsimp only
  rw [hl]
  exact takes_advance.bind fun _ _ => .pure rfl

theorem takes_variableName {n : QName} (h : t.variableName? c.static.namespaces = some n) :
    Takes c scope (t :: ts) (qname .none) (·.1 = n) ts := by
  refine takes_lexeme.bind fun o ⟨l, ho, hl⟩ => ?_
  subst ho
  refine takes_static.next ?_
  dsimp only
  rw [hl]
  unfold Token.variableName? at h
  split at h
  · exact takes_advance.bind fun _ _ => .pure (Option.some.inj h)
  · next pfx name _ =>
    obtain ⟨uri, huri, hn⟩ := Option.map_eq_some_iff.1 h
    have hpfx (l : Lexeme) : Takes c scope ts (resolvePrefix pfx l) (· = uri) ts := by
      refine takes_static.next ?_
      rw [huri]
      exact .pure rfl
    exact takes_advance.bind fun _ _ => (hpfx l).next (.pure hn)
  · exact takes_advance.bind fun _ _ => .pure (Option.some.inj h)
  · cases h

theorem takes_expectTerminator : Takes c scope [] (expectTerminator .endOfInput) (fun _ => True) [] :=
  takes_peek.next (.pure trivial)

theorem breaks_expected (what : String) : Breaks c scope ts (expected what : Parser α) c.kind.syntaxCode := by
  have hdescribe : Takes c scope ts describeCurrent (fun _ => True) ts := by
    refine takes_peekLexeme.bind fun o _ => ?_
    split <;> exact .pure trivial
  refine hdescribe.breaks fun text _ => ?_
  have hread : Takes c scope ts (read : Parser ParseContext) (· = c) ts :=
    fun s htokens hscope => ⟨c, s, rfl, rfl, htokens, hscope⟩
  refine hread.next_breaks (takes_currentLocation.breaks fun l _ => ?_)
  exact fun s _ _ => ⟨_, s, rfl, rfl⟩

end Parser
end XPath
