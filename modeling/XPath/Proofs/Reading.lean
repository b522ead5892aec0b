import XPath.Proofs.Resolution

/-!
What a parser gives and what it leaves behind. Reading uses up tokens, records locations and allocates
variables. Most parsers do not touch the variables at all, also when they fail; those that do have read an
expression in which the references are resolved and all binders are new.
-/
namespace XPath

/-- Nothing is dropped where the scope is as it was. -/
theorem CompileUnit.restore_of_scope_eq {u v : CompileUnit} (h : v.scope = u.scope) :
    v.restore u.scope.length = v := by
  rw [CompileUnit.restore, h, Nat.sub_self, List.drop_zero, ← h]

/-- Reading on without any new variable. -/
structure ParseState.Skips (s s' : ParseState) : Prop where
  tokens : s'.tokens.lexemes <:+ s.tokens.lexemes
  locations : s.unit.locations.toList <+: s'.unit.locations.toList
  bindings : s'.unit.bindings = s.unit.bindings
  scope : s'.unit.scope = s.unit.scope

namespace ParseState.Skips
variable {s s' s'' : ParseState}

theorem refl (s : ParseState) : s.Skips s := ⟨List.suffix_rfl, List.prefix_rfl, rfl, rfl⟩

theorem trans (h : s.Skips s') (h' : s'.Skips s'') : s.Skips s'' :=
  ⟨h'.tokens.trans h.tokens, h.locations.trans h'.locations, h'.bindings.trans h.bindings,
    h'.scope.trans h.scope⟩

end ParseState.Skips

instance : IsPreorder ParseState ParseState.Skips where
  refl := ParseState.Skips.refl
  trans _ _ _ := ParseState.Skips.trans

namespace Parser
variable {α β : Type} {c : ParseContext} {s : ParseState} {p : Parser α} {f : α → Parser β}
  {Q Q' : α → ParseState → Prop} {R : β → ParseState → Prop}

theorem run_bind (p : Parser α) (f : α → Parser β) (c : ParseContext) (s : ParseState) :
    (((p >>= f) c).run).run s = match ((p c).run).run s with
      | (.ok a, s) => ((f a c).run).run s
      | (.error e, s) => (.error e, s) := by
  change (ExceptT.bind (p c) fun a => f a c) s = _
  simp only [ExceptT.bind, ExceptT.mk, bind, StateT.bind, StateT.run, ExceptT.run]
  cases (p c) s with
  | mk r s' => cases r <;> rfl

theorem run_tryCatch (p : Parser α) (h : StaticError → Parser α) (c : ParseContext) (s : ParseState) :
    (((tryCatch p h : Parser α) c).run).run s = match ((p c).run).run s with
      | (.ok a, s) => (.ok a, s)
      | (.error e, s) => ((h e c).run).run s := by
  change (ExceptT.tryCatch (p c) fun e => h e c) s = _
  simp only [ExceptT.tryCatch, ExceptT.mk, bind, StateT.bind, StateT.run, ExceptT.run]
  cases (p c) s with
  | mk r s' => cases r <;> rfl

/-- The unit is changed whether or not the parser succeeds. -/
theorem run_unwinding (g : CompileUnit → CompileUnit) (p : Parser α) (c : ParseContext) (s : ParseState) :
    ((unwinding g p c).run).run s = match ((p c).run).run s with
      | (r, s') => (r, { s' with unit := g s'.unit }) := by
  unfold unwinding
  rw [run_bind, run_tryCatch, run_bind]
  cases ((p c).run).run s with
  | mk r s' => cases r <;> rfl

theorem run_inScope (p : Parser α) (c : ParseContext) (s : ParseState) :
    ((inScope p c).run).run s = ((unwinding (·.restore s.unit.scope.length) p c).run).run s := by
  have hget : (((get : Parser ParseState) c).run).run s = (.ok s, s) := rfl
  unfold inScope
  rw [run_bind, hget]

/-- If the parser succeeds, this holds of what it gives and of the state that it leaves. -/
def Ensures (c : ParseContext) (p : Parser α) (s : ParseState) (Q : α → ParseState → Prop) : Prop :=
  ∀ a s', ((p c).run).run s = (.ok a, s') → Q a s'

namespace Ensures

theorem imp (h : Ensures c p s Q) (hQ : ∀ a s', Q a s' → Q' a s') : Ensures c p s Q' :=
  fun a s' hrun => hQ a s' (h a s' hrun)

theorem and (h : Ensures c p s Q) (h' : Ensures c p s Q') : Ensures c p s fun a s' => Q a s' ∧ Q' a s' :=
  fun a s' hrun => ⟨h a s' hrun, h' a s' hrun⟩

theorem pure {a : α} (h : Q a s) : Ensures c (pure a) s Q := by
  intro b s' hrun
  cases hrun
  exact h

theorem get {Q : ParseState → ParseState → Prop} (h : Q s s) : Ensures c (get : Parser ParseState) s Q := by
  intro b s' hrun
  cases hrun
  exact h

theorem read {Q : ParseContext → ParseState → Prop} (h : Q c s) :
    Ensures c (read : Parser ParseContext) s Q := by
  intro b s' hrun
  cases hrun
  exact h

theorem modifyGet {g : ParseState → α × ParseState} (h : Q (g s).1 (g s).2) :
    Ensures c (modifyGet g : Parser α) s Q := by
  intro b s' hrun
  cases hrun
  exact h

theorem bind (h : Ensures c p s fun a s' => Ensures c (f a) s' R) : Ensures c (p >>= f) s R := by
  intro b s' hrun
  rw [run_bind] at hrun
  cases hp : ((p c).run).run s with
  | mk r s₁ =>
    rw [hp] at hrun
    cases r with
    | error e => cases hrun
    | ok a => exact h a s₁ hp b s' hrun

theorem ite {b : Prop} [Decidable b] {q : Parser α} (hp : b → Ensures c p s Q)
    (hq : ¬ b → Ensures c q s Q) : Ensures c (if b then p else q) s Q := by
  split
  · next h => exact hp h
  · next h => exact hq h

theorem unwinding {g : CompileUnit → CompileUnit}
    (h : Ensures c p s fun a s' => Q a { s' with unit := g s'.unit }) : Ensures c (unwinding g p) s Q := by
  intro a s' hrun
  rw [run_unwinding] at hrun
  cases hp : ((p c).run).run s with
  | mk r s₁ =>
    rw [hp] at hrun
    cases hrun
    exact h a s₁ hp

theorem inScope (h : Ensures c p s fun a s' =>
    Q a { s' with unit := s'.unit.restore s.unit.scope.length }) : Ensures c (inScope p) s Q := by
  intro a s' hrun
  rw [run_inScope] at hrun
  exact unwinding h a s' hrun

end Ensures

/-- The state in which the parser ends on a source. -/
def finalState (p : Parser α) (context : StaticContext) (kind : GrammarKind) (source : String) (start line : ℕ)
    (unit : CompileUnit) : ParseState :=
  (((p ⟨context, kind⟩).run).run ⟨.ofSource source.toList start line, unit, []⟩).2

theorem Ensures.of_run {context : StaticContext} {kind : GrammarKind} {source : String} {start line : ℕ}
    {unit : CompileUnit} {a : α} (h : Ensures ⟨context, kind⟩ p ⟨.ofSource source.toList start line, unit, []⟩ Q)
    (hrun : (p.run context kind source start line unit).1 = .ok a) :
    Q a (p.finalState context kind source start line unit) :=
  h a _ (Prod.ext hrun rfl)

/-- The states before and after the parser are so related, whether or not it succeeds. -/
def Leaves (R : ParseState → ParseState → Prop) (p : Parser α) : Prop :=
  ∀ c s, R s (((p c).run).run s).2

namespace Leaves
variable {S T : ParseState → ParseState → Prop}

theorem mono (h : Leaves S p) (hST : ∀ s s', S s s' → T s s') : Leaves T p := fun c s => hST _ _ (h c s)

theorem ensures (h : Leaves S p) : Ensures c p s fun _ s' => S s s' := by
  intro a s' hrun
  have hs := h c s
  rwa [hrun] at hs

theorem ite {b : Prop} [Decidable b] {q : Parser α} (hp : Leaves S p) (hq : Leaves S q) :
    Leaves S (if b then p else q) := by
  split
  · exact hp
  · exact hq

theorem modifyGet {g : ParseState → α × ParseState} (h : ∀ s, S s (g s).2) :
    Leaves S (modifyGet g : Parser α) := fun _ s => h s

/-- What the parser gives is not known, and the rest goes on from the state that it leaves. -/
theorem then_ (hp : Leaves S p) (hf : ∀ a s', S s s' → Ensures c (f a) s' R) : Ensures c (p >>= f) s R :=
  .bind (hp.ensures.imp hf)

variable [IsPreorder ParseState S]

theorem pure (a : α) : Leaves S (pure a) := fun _ _ => refl_of S _

theorem get : Leaves S (get : Parser ParseState) := fun _ _ => refl_of S _

theorem read : Leaves S (read : Parser ParseContext) := fun _ _ => refl_of S _

theorem bind (hp : Leaves S p) (hf : ∀ a, Leaves S (f a)) : Leaves S (p >>= f) := by
  intro c s
  rw [run_bind]
  have hfirst := hp c s
  cases hrun : ((p c).run).run s with
  | mk r s₁ =>
    rw [hrun] at hfirst
    cases r with
    | error e => exact hfirst
    | ok a => exact trans_of S hfirst (hf a c s₁)

theorem map (hp : Leaves S p) (g : α → β) : Leaves S (g <$> p) := by
  rw [← bind_pure_comp]
  exact hp.bind fun a => pure (g a)

end Leaves

/-- The parser has no new variable. -/
abbrev Skips (p : Parser α) : Prop := Leaves ParseState.Skips p

/-- The parser leaves everything as it is. -/
abbrev Looks (p : Parser α) : Prop := Leaves Eq p

theorem Looks.skips (h : Looks p) : Skips p := h.mono fun s _ hs => hs ▸ .refl s

/-- The parser never succeeds, and leaves everything as it is. -/
def Fails (p : Parser α) : Prop := ∀ c s, ∃ e, ((p c).run).run s = (.error e, s)

namespace Fails

theorem ensures (h : Fails p) : Ensures c p s Q := by
  intro a s' hrun
  obtain ⟨e, he⟩ := h c s
  cases he.symm.trans hrun

theorem looks (h : Fails p) : Looks p := by
  intro c s
  obtain ⟨e, he⟩ := h c s
  rw [he]

theorem skips (h : Fails p) : Skips p := h.looks.skips

theorem bind (hp : Looks p) (hf : ∀ a, Fails (f a)) : Fails (p >>= f) := by
  intro c s
  have hs := hp c s
  rw [run_bind]
  cases hrun : ((p c).run).run s with
  | mk r s₁ =>
    rw [hrun] at hs
    subst hs
    cases r with
    | error e => exact ⟨e, rfl⟩
    | ok a => exact hf a c s

end Fails

/-! Parsers that look at the tokens and at the context. -/

theorem looks_get : Looks (get : Parser ParseState) := .get

theorem looks_static : Looks static := Leaves.read.bind fun _ => .pure _

theorem looks_peekLexeme : Looks peekLexeme := looks_get.bind fun _ => .pure _

theorem looks_peek : Looks peek := looks_peekLexeme.bind fun _ => .pure _

theorem looks_peekNth (n : ℕ) : Looks (peekNth n) := looks_get.bind fun _ => .pure _

theorem looks_check (t : Token) : Looks (check t) := looks_peek.bind fun _ => .pure _

theorem looks_checkNth (n : ℕ) (t : Token) : Looks (checkNth n t) := (looks_peekNth n).bind fun _ => .pure _

theorem looks_checkSymbol (x : Symbol) : Looks (checkSymbol x) := looks_check _

theorem looks_checkNthSymbol (n : ℕ) (x : Symbol) : Looks (checkNthSymbol n x) := looks_checkNth n _

theorem looks_checkName (name : String) : Looks (checkName name) := looks_check _

theorem looks_checkQName : Looks checkQName := looks_peek.bind fun _ => .pure _

theorem looks_checkNthQName (n : ℕ) : Looks (checkNthQName n) := (looks_peekNth n).bind fun _ => .pure _

theorem looks_fuel : Looks fuel := looks_get.bind fun _ => .pure _

theorem looks_describeCurrent : Looks describeCurrent := by
  refine looks_peekLexeme.bind fun o => ?_
  split
  · exact .pure _
  · exact .pure _

theorem looks_currentLocation : Looks currentLocation := by
  refine looks_get.bind fun s => ?_
  split
  · exact .pure _
  · exact .pure _

theorem fails_throw (e : StaticError) : Fails (throw e : Parser α) := fun _ _ => ⟨e, rfl⟩

theorem fails_fail (code : ErrorCode) (cause : StaticCause) : Fails (fail code cause : Parser α) :=
  .bind looks_currentLocation fun _ => fails_throw _

theorem fails_failAt (code : ErrorCode) (cause : StaticCause) (l : Lexeme) :
    Fails (failAt code cause l : Parser α) := fails_throw _

theorem fails_syntaxError (cause : StaticCause) : Fails (syntaxError cause : Parser α) :=
  .bind .read fun _ => fails_fail _ _

theorem fails_expected (what : String) : Fails (expected what : Parser α) :=
  .bind looks_describeCurrent fun _ => fails_syntaxError _

theorem fails_tooDeep : Fails (tooDeep : Parser α) := fails_fail _ _

theorem looks_resolvePrefix (pfx : String) (l : Lexeme) : Looks (resolvePrefix pfx l) := by
  refine looks_static.bind fun _ => ?_
  split
  · exact .pure _
  · exact (fails_failAt _ _ _).looks

theorem looks_resolveBuiltinType (n : QName) (l : Lexeme) : Looks (resolveBuiltinType n l) := by
  unfold resolveBuiltinType
  split
  · exact (fails_failAt _ _ _).looks
  · exact looks_static.bind fun _ => .ite (.pure _) (fails_failAt _ _ _).looks

theorem looks_resolveAtomicType (n : QName) (l : Lexeme) : Looks (resolveAtomicType n l) := by
  unfold resolveAtomicType
  split
  · exact (fails_failAt _ _ _).looks
  · refine .ite ((looks_resolveBuiltinType n l).bind fun _ => .ite (.pure _) ?_) (.ite (.pure _) ?_)
    · exact (fails_failAt _ _ _).looks
    · exact looks_static.bind fun _ => .ite (.pure _) (fails_failAt _ _ _).looks

theorem looks_resolveCastTarget (n : QName) (l : Lexeme) : Looks (resolveCastTarget n l) := by
  refine .ite ((looks_resolveBuiltinType n l).bind fun t => ?_) ?_
  · exact .ite (fails_failAt _ _ _).looks (.ite (fails_failAt _ _ _).looks (.pure _))
  · exact (looks_resolveAtomicType n l).bind fun _ => (fails_failAt _ _ _).looks

theorem looks_checkKindTest : Looks checkKindTest := by
  refine looks_peek.bind fun o => ?_
  split
  · exact (looks_checkNthSymbol _ _).bind fun _ => .pure _
  · exact .pure _

theorem looks_startsStep : Looks startsStep := looks_peek.bind fun _ => .pure _

theorem looks_startsAxisStep : Looks startsAxisStep := by
  have hname : Looks (do return !(← checkNthSymbol 1 .leftParen) || (← checkKindTest)) :=
    (looks_checkNthSymbol _ _).bind fun _ => looks_checkKindTest.bind fun _ => .pure _
  refine looks_peek.bind fun o => ?_
  split
  all_goals first | exact .pure _ | exact hname | skip
  refine (looks_checkNthSymbol _ _).bind fun _ => .ite (.pure _) ?_
  refine (looks_checkNthQName _).bind fun _ => .ite (.pure _) ?_
  exact (looks_checkNthSymbol _ _).bind fun _ => .ite (.pure _) hname

/-! Parsers that read on. -/

theorem skips_advance : Skips advance :=
  .modifyGet fun _ => ⟨List.tail_suffix _, List.prefix_rfl, rfl, rfl⟩

theorem skips_eat (t : Token) : Skips (eat t) :=
  (looks_check t).skips.bind fun _ => .ite (skips_advance.bind fun _ => .pure _) (.pure _)

theorem skips_eatSymbol (x : Symbol) : Skips (eatSymbol x) := skips_eat _

theorem skips_eatName (name : String) : Skips (eatName name) := skips_eat _

theorem skips_expectSymbol (x : Symbol) : Skips (expectSymbol x) :=
  (skips_eatSymbol x).bind fun _ => .ite (.pure _) (fails_expected _).skips

theorem skips_expectName (name : String) : Skips (expectName name) :=
  (skips_eatName name).bind fun _ => .ite (.pure _) (fails_expected _).skips

theorem skips_warnAt (message : String) (l : Lexeme) : Skips (warnAt message l) :=
  .modifyGet fun _ => ⟨List.suffix_rfl, List.prefix_rfl, rfl, rfl⟩

/-- A location is recorded, and nothing else changes. -/
theorem allocateLocation_spec (u : CompileUnit) (l : Location) :
    u.locations.toList <+: (u.allocateLocation l).2.locations.toList ∧
      (u.allocateLocation l).2.bindings = u.bindings ∧ (u.allocateLocation l).2.scope = u.scope ∧
      (u.allocateLocation l).2.locations[(u.allocateLocation l).1]? = some l := by
  unfold CompileUnit.allocateLocation
  split
  · next hback =>
    rw [Array.back?_eq_getElem?] at hback
    exact ⟨List.prefix_rfl, rfl, rfl, hback⟩
  · refine ⟨?_, rfl, rfl, ?_⟩
    · rw [Array.toList_push]
      exact List.prefix_append _ _
    · exact Array.getElem?_push_size

/-- The location of the next token is recorded. -/
theorem ensures_location : Ensures c location s fun at' s' => s.Skips s' ∧ s'.tokens = s.tokens ∧
    ∀ l, s.tokens.lexemes.head? = some l → s'.unit.locations[at']? = some l.location := by
  refine .bind (.bind (.get ?_))
  split
  · next l hpeek =>
    obtain ⟨hkept, hbindings, hscope, hget⟩ := allocateLocation_spec s.unit l.location
    refine .pure (.modifyGet ⟨⟨List.suffix_rfl, hkept, hbindings, hscope⟩, rfl, fun x hx => ?_⟩)
    obtain rfl : l = x := Option.some.inj (hpeek.symm.trans hx)
    exact hget
  · next hpeek =>
    obtain ⟨hkept, hbindings, hscope, -⟩ := allocateLocation_spec s.unit
      ⟨s.tokens.finish.line, s.tokens.finish.column, s.tokens.finish.offset, s.tokens.finish.offset⟩
    refine .pure (.modifyGet ⟨⟨List.suffix_rfl, hkept, hbindings, hscope⟩, rfl, fun x hx => ?_⟩)
    cases hpeek.symm.trans hx

theorem skips_location : Skips location := by
  refine looks_currentLocation.skips.bind fun l => .modifyGet fun s => ?_
  obtain ⟨hlocations, hbindings, hscope, -⟩ := allocateLocation_spec s.unit l
  exact ⟨List.suffix_rfl, hlocations, hbindings, hscope⟩

/-! A variable is a dollar sign and a name. -/

theorem ensures_eat (t : Token) : Ensures c (eat t) s fun found s' =>
    found → s'.unit = s.unit ∧ ∃ l, s.tokens.lexemes = l :: s'.tokens.lexemes ∧ l.token = t := by
  refine .bind (.bind (.bind (.bind (.get (.pure (.pure (.pure ?_)))))))
  refine .ite (fun hfound => .bind (.modifyGet (.pure fun _ => ⟨rfl, ?_⟩))) fun hfound =>
    .pure fun h => absurd h hfound
  cases hl : s.tokens.lexemes with
  | nil => simp [TokenStream.peek, hl] at hfound
  | cons l ls =>
    simp only [TokenStream.peek, hl, List.head?_cons, Option.map_some, beq_iff_eq,
      Option.some.injEq] at hfound
    exact ⟨l, by simp [TokenStream.next, hl], hfound⟩

theorem ensures_expectSymbol (x : Symbol) : Ensures c (expectSymbol x) s fun _ s' =>
    s'.unit = s.unit ∧ ∃ l, s.tokens.lexemes = l :: s'.tokens.lexemes ∧ l.token = .symbol x :=
  .bind ((ensures_eat _).imp fun _ _ h => .ite (fun hfound => .pure (h hfound)) fun _ =>
    (fails_expected _).ensures)

theorem ensures_expectName (name : String) : Ensures c (expectName name) s fun _ s' =>
    s'.unit = s.unit ∧ ∃ l, s.tokens.lexemes = l :: s'.tokens.lexemes ∧ l.token = .name name :=
  .bind ((ensures_eat _).imp fun _ _ h => .ite (fun hfound => .pure (h hfound)) fun _ =>
    (fails_expected _).ensures)

theorem ensures_variableName : Ensures c (qname .none) s fun r s' => s'.unit = s.unit ∧
    ∃ l, s.tokens.lexemes = l :: s'.tokens.lexemes ∧
      l.token.variableName? c.static.namespaces = some r.1 := by
  refine .bind (.bind (.get (.pure ?_)))
  cases hl : s.tokens.lexemes with
  | nil =>
    have hpeek : s.tokens.peek = none := by rw [TokenStream.peek, hl, List.head?_nil]
    rw [hpeek]
    exact (fails_expected _).ensures
  | cons l ls =>
    have hpeek : s.tokens.peek = some l := by rw [TokenStream.peek, hl, List.head?_cons]
    have hnext : l :: ls = l :: s.tokens.next.lexemes := by rw [TokenStream.next, hl, List.tail_cons]
    rw [hpeek]
    refine .bind (.bind (.read (.pure ?_)))
    dsimp only
    split
    · next htoken => exact .bind (.modifyGet (.pure ⟨rfl, l, hnext, by rw [htoken]; rfl⟩))
    · next p name htoken =>
      refine .bind (.modifyGet (.bind (.bind (.bind (.read (.pure ?_))))))
      split
      · next uri hlookup =>
        exact .pure (.pure ⟨rfl, l, hnext, by rw [htoken, Token.variableName?, hlookup]; rfl⟩)
      · exact (fails_failAt _ _ _).ensures
    · next htoken => exact .bind (.modifyGet (.pure ⟨rfl, l, hnext, by rw [htoken]; rfl⟩))
    · exact (fails_expected _).ensures

/-! Names and types. -/

theorem skips_qname (default : NameDefault) : Skips (qname default) := by
  refine looks_peekLexeme.skips.bind fun o => ?_
  split
  · refine looks_static.skips.bind fun _ => ?_
    dsimp only
    split
    · exact skips_advance.bind fun _ => .pure _
    · exact skips_advance.bind fun _ => (looks_resolvePrefix _ _).skips.bind fun _ => .pure _
    · exact skips_advance.bind fun _ => .pure _
    · exact (fails_expected _).skips
  · exact (fails_expected _).skips

theorem skips_nameAndType (default : NameDefault) : Skips (nameAndType default) := by
  refine (looks_checkSymbol _).skips.bind fun _ => .ite (.pure _) ((skips_eatSymbol _).bind fun _ => .ite
    ((Leaves.pure _).bind fun _ => ?_) ((skips_qname _).bind fun _ => (Leaves.pure _).bind fun _ => ?_))
  all_goals
    refine (skips_eatSymbol _).bind fun _ => .ite ?_ (.pure _)
    exact (skips_qname _).bind fun _ => (skips_eatSymbol _).bind fun _ => .pure _

theorem skips_processingInstructionTarget : Skips processingInstructionTarget := by
  refine looks_peek.skips.bind fun o => ?_
  split
  · exact skips_advance.bind fun _ => .pure _
  · exact skips_advance.bind fun _ => .pure _
  · exact .pure _

theorem skips_kindTest : Skips kindTest := by
  refine looks_peekLexeme.skips.bind fun o => ?_
  split
  · refine skips_advance.bind fun _ => (skips_expectSymbol _).bind fun _ => ?_
    have hclose (test : KindTest) : Skips (expectSymbol .rightParen >>= fun _ => pure test) :=
      (skips_expectSymbol _).bind fun _ => .pure _
    dsimp only
    split
    · exact hclose _
    · exact hclose _
    · exact hclose _
    · exact hclose _
    · exact ((skips_nameAndType _).map _).bind hclose
    · exact ((skips_nameAndType _).map _).bind hclose
    · refine (skips_eatName _).bind fun _ => .ite ((skips_expectSymbol _).bind fun _ => ?_) (hclose _)
      exact (skips_nameAndType _).bind fun _ => (skips_expectSymbol _).bind fun _ => hclose _
    · exact (skips_processingInstructionTarget.map _).bind hclose
    · exact (fails_failAt _ _ _).skips.bind hclose
  · exact (fails_expected _).skips

theorem skips_itemType : Skips itemType := by
  refine looks_checkKindTest.skips.bind fun _ => .ite (skips_kindTest.bind fun _ => .pure _) ?_
  refine (looks_checkName _).skips.bind fun _ => (looks_checkNthSymbol _ _).skips.bind fun _ => .ite ?_ ?_
  · exact skips_advance.bind fun _ => skips_advance.bind fun _ => (skips_expectSymbol _).bind fun _ => .pure _
  · have hname : Skips (do
        if ← checkNthSymbol 1 .leftParen then fail .unsupported .unsupportedType
        let p ← qname .element
        resolveAtomicType p.1 p.2) := by
      refine (looks_checkNthSymbol _ _).skips.bind fun _ => ?_
      have hrest (u : PUnit) : Skips (qname .element >>= fun p => resolveAtomicType p.1 p.2) :=
        (skips_qname _).bind fun _ => (looks_resolveAtomicType _ _).skips
      dsimp only
      exact .ite ((fails_fail _ _).skips.bind hrest) (hrest ⟨⟩)
    dsimp only
    exact looks_checkQName.skips.bind fun _ => .ite hname ((fails_expected _).skips.bind fun _ => hname)

theorem skips_occurrence : Skips occurrence := by
  refine (skips_eatSymbol _).bind fun _ => .ite (.pure _) ?_
  refine (skips_eatSymbol _).bind fun _ => .ite (.pure _) ?_
  exact (skips_eatSymbol _).bind fun _ => .ite (.pure _) (.pure _)

theorem skips_sequenceType : Skips sequenceType := by
  refine (looks_checkName _).skips.bind fun _ => (looks_checkNthSymbol _ _).skips.bind fun _ => .ite ?_ ?_
  · exact skips_advance.bind fun _ => skips_advance.bind fun _ => (skips_expectSymbol _).bind fun _ => .pure _
  · exact skips_itemType.bind fun _ => skips_occurrence.bind fun _ => .pure _

theorem skips_singleType : Skips singleType :=
  (skips_qname _).bind fun _ => (looks_resolveCastTarget _ _).skips.bind fun _ => (skips_eatSymbol _).bind fun _ =>
    .pure _

/-! Steps, signs and functions. -/

theorem skips_nodeTest (axis : Axis) : Skips (nodeTest axis) := by
  refine looks_checkKindTest.skips.bind fun _ => .ite (skips_kindTest.bind fun _ => .pure _) ?_
  refine looks_peekLexeme.skips.bind fun o => ?_
  split
  · split
    · exact skips_advance.bind fun _ => .pure _
    · exact skips_advance.bind fun _ => (looks_resolvePrefix _ _).skips.bind fun _ => .pure _
    · exact skips_advance.bind fun _ => .pure _
    · exact skips_advance.bind fun _ => .pure _
    · exact (skips_qname _).bind fun _ => .pure _
  · exact (fails_expected _).skips

theorem skips_axisAndTest {test : Axis → Parser NodeTest} (htest : ∀ axis, Skips (test axis)) :
    Skips (axisAndTest test) := by
  refine (skips_eatSymbol _).bind fun _ => .ite ((htest _).bind fun _ => .pure _) ?_
  refine (skips_eatSymbol _).bind fun _ => .ite (.pure _) ?_
  refine (looks_checkNthSymbol _ _).skips.bind fun _ => .ite (looks_peek.skips.bind fun o => ?_) ?_
  · dsimp only
    split
    · refine (fails_expected _).skips.bind fun _ => (htest _).bind fun t => ?_
      split <;> exact .pure _
    · exact skips_advance.bind fun _ => skips_advance.bind fun _ => (htest _).bind fun _ => .pure _
  · refine (htest _).bind fun t => ?_
    split <;> exact .pure _

theorem skips_unknownFunction (n : QName) (arity : ℕ) (l : Lexeme) : Skips (unknownFunction n arity l) := by
  refine looks_static.skips.bind fun _ => .ite ((skips_warnAt _ _).bind fun _ => .pure _) ?_
  exact (fails_failAt _ _ _).skips

theorem skips_resolveFunction (n : QName) (arity : ℕ) (l : Lexeme) : Skips (resolveFunction n arity l) := by
  unfold resolveFunction
  dsimp only
  split
  · exact .pure _
  · exact skips_unknownFunction n arity l

theorem skips_signs (n : ℕ) (signed negative : Bool) : Skips (signs n signed negative) := by
  induction n generalizing signed negative with
  | zero => exact .pure _
  | succ n ih =>
    unfold signs
    exact (skips_eatSymbol _).bind fun _ => .ite (ih _ _) ((skips_eatSymbol _).bind fun _ =>
      .ite (ih _ _) (.pure _))

theorem skips_expectTerminator (t : Terminator) : Skips (expectTerminator t) := by
  cases t with
  | endOfInput =>
    refine looks_peek.skips.bind fun o => .ite ?_ (.pure _)
    exact looks_describeCurrent.skips.bind fun _ => (fails_syntaxError _).skips
  | rightBrace => exact skips_expectSymbol _

end Parser
end XPath
