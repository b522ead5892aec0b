import XPath.Proofs.Brackets

/-!
The expressions that the grammar reads are resolved: the scope of the unit holds the enclosing variables
while a part is read, and it is as before when the part has been read. Every binder gets a new slot. No
variable that is read is left out.
-/
namespace XPath
open XPath.Expr

/-- The state after some reading. Variables that were declared on the way may still be in scope. -/
structure ParseState.Grows (s s' : ParseState) : Prop where
  tokens : s'.tokens.lexemes <:+ s.tokens.lexemes
  locations : s.unit.locations.toList <+: s'.unit.locations.toList
  bindings : ∃ new, s'.unit.bindings.toList = s.unit.bindings.toList ++ new ∧ ∀ b ∈ new, b.kind = .range
  scope : s.unit.scope <:+ s'.unit.scope

namespace ParseState.Grows
variable {s s' s'' : ParseState}

theorem trans (h : s.Grows s') (h' : s'.Grows s'') : s.Grows s'' := by
  refine ⟨h'.tokens.trans h.tokens, h.locations.trans h'.locations, ?_, h.scope.trans h'.scope⟩
  obtain ⟨new, hnew, hrange⟩ := h.bindings
  obtain ⟨new', hnew', hrange'⟩ := h'.bindings
  refine ⟨new ++ new', by rw [hnew', hnew, List.append_assoc], fun b hb => ?_⟩
  exact (List.mem_append.1 hb).elim (hrange b) (hrange' b)

theorem size (h : s.Grows s') : s.unit.bindings.size ≤ s'.unit.bindings.size := by
  obtain ⟨new, hnew, -⟩ := h.bindings
  have := congrArg List.length hnew
  simp only [Array.length_toList, List.length_append] at this
  omega

end ParseState.Grows

theorem ParseState.Skips.grows {s s' : ParseState} (h : s.Skips s') : s.Grows s' :=
  ⟨h.tokens, h.locations, ⟨[], by rw [h.bindings, List.append_nil], by simp⟩, by rw [h.scope]⟩

namespace Parser

/-- The expression is resolved in the scope of the first state. Its names are in the text from there, and
its locations are recorded in the second state. -/
def Names (c : ParseContext) (s s' : ParseState) : Expr → Prop :=
  Expr.Resolved (IsWritten c.static s.tokens.lexemes s'.unit.locations)
    (fun n => (c.static.variableType n).isSome) s.unit.scope

/-- Expressions have been read. Their names are resolved, their variables are new, and none of these is in
scope any more. -/
structure Reads (c : ParseContext) (s : ParseState) (es : List Expr) (s' : ParseState) : Prop where
  grows : s.Grows s'
  names : ∀ e ∈ es, Names c s s' e
  once : (es.flatMap boundSlots).Nodup
  fresh : ∀ slot ∈ es.flatMap boundSlots, s.unit.bindings.size ≤ slot ∧ slot < s'.unit.bindings.size
  closed : s'.unit.scope = s.unit.scope

variable {α β : Type} {c : ParseContext} {s s₀ s₁ s₂ : ParseState} {es fs : List Expr} {e : Expr}

theorem Names.later (h : Names c s s₁ e) (hs : s₁.Grows s₂) : Names c s s₂ e :=
  Resolved.mono (fun _ _ hw => hw.mono List.suffix_rfl hs.locations) e h

theorem Names.earlier (h : Names c s₁ s₂ e) (hs : s.Grows s₁) (hscope : s₁.unit.scope = s.unit.scope) :
    Names c s s₂ e := by
  unfold Names at h ⊢
  rw [hscope] at h
  exact Resolved.mono (fun _ _ hw => hw.mono hs.tokens List.prefix_rfl) e h

namespace Reads

theorem of_skips (h : s.Skips s₁) : Reads c s [] s₁ :=
  ⟨h.grows, by simp, List.nodup_nil, by simp, h.scope⟩

theorem refl (s : ParseState) : Reads c s [] s := of_skips (.refl s)

theorem append (h : Reads c s es s₁) (h' : Reads c s₁ fs s₂) : Reads c s (es ++ fs) s₂ := by
  refine ⟨h.grows.trans h'.grows, fun e he => ?_, ?_, fun slot hslot => ?_, h'.closed.trans h.closed⟩
  · obtain he | he := List.mem_append.1 he
    · exact (h.names e he).later h'.grows
    · exact (h'.names e he).earlier h.grows h.closed
  · rw [List.flatMap_append]
    refine List.nodup_append.2 ⟨h.once, h'.once, fun a ha b hb => ?_⟩
    exact (lt_of_lt_of_le (h.fresh a ha).2 (h'.fresh b hb).1).ne
  · rw [List.flatMap_append, List.mem_append] at hslot
    obtain hslot | hslot := hslot
    · exact ⟨(h.fresh slot hslot).1, (h.fresh slot hslot).2.trans_le h'.grows.size⟩
    · exact ⟨h.grows.size.trans (h'.fresh slot hslot).1, (h'.fresh slot hslot).2⟩

theorem later (h : Reads c s es s₁) (h' : s₁.Skips s₂) : Reads c s es s₂ :=
  List.append_nil es ▸ h.append (of_skips h')

theorem made (h : Reads c s es s₁) (he : e.IsMadeOf es) : Reads c s [e] s₁ := by
  refine ⟨h.grows, fun x hx => ?_, ?_, fun slot hslot => ?_, h.closed⟩
  · obtain rfl := List.mem_singleton.1 hx
    exact he.resolved h.names
  · rw [List.flatMap_singleton]
    exact he.bound.nodup_iff.2 h.once
  · rw [List.flatMap_singleton] at hslot
    exact h.fresh slot (he.bound.mem_iff.1 hslot)

end Reads

/-- Expressions have been read, and every variable that was met on the way is in them. -/
structure ReadsAll (c : ParseContext) (s : ParseState) (es : List Expr) (s' : ParseState) : Prop
    extends Reads c s es s' where
  covers : Covers s'.unit.locations s.tokens.lexemes s'.tokens.lexemes es

namespace ReadsAll

theorem refl (s : ParseState) : ReadsAll c s [] s := ⟨.refl s, .refl _ _ _⟩

theorem append (h : ReadsAll c s es s₁) (h' : ReadsAll c s₁ fs s₂) : ReadsAll c s (es ++ fs) s₂ :=
  ⟨h.toReads.append h'.toReads, (h.covers.later h'.grows.locations).append h'.covers h.grows.tokens⟩

theorem restore (h : ReadsAll c s es s₁) :
    ReadsAll c s es { s₁ with unit := s₁.unit.restore s.unit.scope.length } := by
  rw [CompileUnit.restore_of_scope_eq h.closed]
  exact h

theorem made (h : ReadsAll c s es s₁) (he : e.IsMadeOf es) : ReadsAll c s [e] s₁ :=
  ⟨h.toReads.made he, h.covers.within he.parts⟩

/-- The tokens are the same. -/
theorem later (h : ReadsAll c s es s₁) (h' : s₁.Skips s₂) (hsame : s₂.tokens = s₁.tokens) : ReadsAll c s es s₂ :=
  ⟨h.toReads.later h', hsame ▸ h.covers.later h'.locations⟩

/-- One more token has been read, which does not begin a variable. -/
theorem next {l : Lexeme} (h : ReadsAll c s es s₁) (h' : s₁.Skips s₂)
    (hl : s₁.tokens.lexemes = [l] ++ s₂.tokens.lexemes) (hne : l.token ≠ .symbol .dollar) : ReadsAll c s es s₂ := by
  have hcovers : Covers s₂.unit.locations s₁.tokens.lexemes s₂.tokens.lexemes [] :=
    hl ▸ .of_read fun x hx => List.mem_singleton.1 hx ▸ hne
  refine ⟨h.toReads.later h', ?_⟩
  have hall := (h.covers.later h'.locations).append hcovers h.grows.tokens
  rwa [List.append_nil] at hall

end ReadsAll

/-- Whenever the parser succeeds, it has read these expressions of what it gives. -/
def ReadsAs (g : α → List Expr) (p : Parser α) : Prop :=
  ∀ c s, Ensures c p s fun a s' => ReadsAll c s (g a) s'

/-- The parser reads neither expressions nor variables. -/
abbrev Silent : Parser α → Prop := ReadsAs fun _ => []

/-- The parser reads an expression. -/
abbrev ReadsExpr : Parser Expr → Prop := ReadsAs fun e => [e]

/-- The parser goes on from an expression. -/
def GoesOn (p : Expr → Parser Expr) : Prop :=
  ∀ ⦃c s₀ s e⦄, ReadsAll c s₀ [e] s → Ensures c (p e) s fun e s' => ReadsAll c s₀ [e] s'

variable {p : Parser α} {f : α → Parser β} {g : α → List Expr} {R : β → ParseState → Prop}

theorem ReadsAll.look (h : ReadsAll c s₀ es s) (hp : Looks p)
    (hf : ∀ a s', ReadsAll c s₀ es s' → Ensures c (f a) s' R) : Ensures c (p >>= f) s R :=
  hp.then_ fun a _ hs => hf a _ (hs ▸ h)

theorem ReadsAll.add (h : ReadsAll c s₀ es s) (hp : ReadsAs g p)
    (hf : ∀ a s', ReadsAll c s₀ (es ++ g a) s' → Ensures c (f a) s' R) : Ensures c (p >>= f) s R :=
  .bind ((hp c s).imp fun a s' hs => hf a s' (h.append hs))

theorem ReadsAll.skip (h : ReadsAll c s₀ es s) (hp : Silent p)
    (hf : ∀ a s', ReadsAll c s₀ es s' → Ensures c (f a) s' R) : Ensures c (p >>= f) s R :=
  h.add hp fun a s' hs => hf a s' (List.append_nil es ▸ hs)

theorem ReadsAll.give (h : ReadsAll c s₀ es s) (he : e.IsMadeOf es) :
    Ensures c (pure e) s fun e s' => ReadsAll c s₀ [e] s' := .pure (h.made he)

theorem ReadsAll.last (h : ReadsAll c s₀ [] s) {p : Parser α} (hp : ReadsAs g p) :
    Ensures c p s fun a s' => ReadsAll c s₀ (g a) s' :=
  (hp c s).imp fun _ _ hs => h.append hs

theorem Fails.reads (h : Fails p) : ReadsAs g p := fun _ _ => h.ensures

/-- No dollar sign is read, as the scanner sees it. -/
theorem Skips.silent {opened opened' : List Symbol} (h : Skips p) (ht : Turns True opened p opened') : Silent p := by
  intro c s a s' hrun
  obtain ⟨ls, hls, -, hspares⟩ := (ht s c a s' hrun).read
  refine ⟨.of_skips (h.ensures a s' hrun), ?_⟩
  rw [hls]
  exact .of_read (hspares trivial)

/-! Looking at tokens and reading them. -/

theorem Ensures.peek {f : Option Token → Parser β} (h : Ensures c (f s.tokens.first) s R) :
    Ensures c (Parser.peek >>= f) s R :=
  .bind (ensures_peek.imp fun o s₁ hs => by
    obtain ⟨rfl, rfl⟩ := hs
    exact h)

theorem ReadsAll.location {f : LocationId → Parser β} (h : ReadsAll c s₀ es s)
    (hf : ∀ at' s', s'.tokens = s.tokens → ReadsAll c s₀ es s' → Ensures c (f at') s' R) :
    Ensures c (location >>= f) s R :=
  .bind (ensures_location.imp fun at' s₁ hs => hf at' s₁ hs.2.1 (h.later hs.1 hs.2.1))

/-- Advances over a token that is known. -/
theorem ReadsAll.advance {f : PUnit → Parser β} {k : Token} (h : ReadsAll c s₀ es s) (hk : s.tokens.first = some k)
    (hne : k ≠ .symbol .dollar)
    (hf : ∀ s', s'.tokens = s.tokens.next → ReadsAll c s₀ es s' → Ensures c (f ⟨⟩) s' R) :
    Ensures c (advance >>= f) s R := by
  obtain ⟨l, rfl, hl⟩ := TokenStream.exists_of_first hk
  refine .bind fun a s₁ hrun => ?_
  have hnext : s₁.tokens = s.tokens.next := ensures_advance a s₁ hrun
  exact hf s₁ hnext (h.next (skips_advance.ensures a s₁ hrun) (hnext ▸ hl) hne)

theorem silent_location : Silent location := skips_location.silent (passes_location [])

theorem silent_eat {k : Token} (hk : k ≠ .symbol .dollar) : Silent (eat k) := by
  intro c s found s' hrun
  have hskips := (skips_eat k).ensures found s' hrun
  have heat := ensures_eat_first k found s' hrun
  cases found with
  | true =>
    obtain ⟨hfirst, hnext⟩ := heat
    obtain ⟨l, rfl, hl⟩ := TokenStream.exists_of_first hfirst
    exact (ReadsAll.refl s).next hskips (hnext ▸ hl) hk
  | false => exact (ReadsAll.refl s).later hskips heat

theorem silent_eatSymbol {x : Symbol} (hx : x ≠ .dollar) : Silent (eatSymbol x) :=
  silent_eat (by simpa using hx)

theorem silent_eatName (name : String) : Silent (eatName name) := silent_eat (by simp)

theorem silent_expectSymbol {x : Symbol} (hx : x ≠ .dollar) : Silent (expectSymbol x) := fun _ s =>
  (ReadsAll.refl s).skip (silent_eatSymbol hx) fun _ _ hs => .ite (fun _ => .pure hs) fun _ =>
    (fails_expected _).ensures

theorem silent_expectName (name : String) : Silent (expectName name) := fun _ s =>
  (ReadsAll.refl s).skip (silent_eatName name) fun _ _ hs => .ite (fun _ => .pure hs) fun _ =>
    (fails_expected _).ensures

theorem silent_qname (default : NameDefault) : Silent (qname default) :=
  (skips_qname default).silent (passes_qname default [])

theorem silent_sequenceType : Silent sequenceType := skips_sequenceType.silent (passes_sequenceType [])

theorem silent_singleType : Silent singleType := skips_singleType.silent (passes_singleType [])

theorem silent_axisAndTest : Silent (axisAndTest nodeTest) :=
  (skips_axisAndTest skips_nodeTest).silent (passes_axisAndTest passes_nodeTest [])

theorem silent_resolveFunction (n : QName) (arity : ℕ) (l : Lexeme) : Silent (resolveFunction n arity l) :=
  (skips_resolveFunction n arity l).silent (passes_resolveFunction n arity l [])

/-! The functions of the grammar, first those that do not call themselves. -/

theorem isQName_of_variableName? {ns : Namespaces} {t : Token} {n : QName} (h : t.variableName? ns = some n) :
    t.isQName := by
  cases t <;> first | rfl | cases h

/-- A dollar sign and a name have been read. -/
structure ReadsName (c : ParseContext) (s : ParseState) (n : QName) (s' : ParseState) : Prop where
  unit : s'.unit = s.unit
  read : ∃ dollar name, s.tokens.lexemes = dollar :: name :: s'.tokens.lexemes ∧
    dollar.token = .symbol .dollar ∧ name.token.variableName? c.static.namespaces = some n

namespace ReadsName
variable {n : QName} {at' : LocationId}

theorem of_tokens
    (hdollar : s₁.unit = s.unit ∧ ∃ l, s.tokens.lexemes = l :: s₁.tokens.lexemes ∧ l.token = .symbol .dollar)
    (hname : s₂.unit = s₁.unit ∧ ∃ l, s₁.tokens.lexemes = l :: s₂.tokens.lexemes ∧
      l.token.variableName? c.static.namespaces = some n) : ReadsName c s n s₂ := by
  obtain ⟨hunit, dollar, htokens, hdollar⟩ := hdollar
  obtain ⟨hunit', name, htokens', hname⟩ := hname
  exact ⟨hunit'.trans hunit, dollar, name, by rw [htokens, htokens'], hdollar, hname⟩

theorem skips (h : ReadsName c s n s₁) : s.Skips s₁ := by
  obtain ⟨hunit, dollar, name, hread, -, -⟩ := h
  exact ⟨hread ▸ ⟨[dollar, name], rfl⟩, by rw [hunit], by rw [hunit], by rw [hunit]⟩

theorem isWritten (h : ReadsName c s n s₁)
    (hat : ∀ l, s.tokens.lexemes.head? = some l → s₁.unit.locations[at']? = some l.location) :
    IsWritten c.static s.tokens.lexemes s₁.unit.locations at' n := by
  obtain ⟨-, dollar, name, hread, hdollar, hname⟩ := h
  exact ⟨_, dollar.location, List.suffix_rfl, hat dollar (by rw [hread]; rfl), dollar, name, _, hread, hdollar, rfl,
    hname⟩

/-- If the variable is found, and all that comes after its name. -/
theorem covers (h : ReadsName c s n s₁) {locations : Array Location} {rest : List Lexeme}
    (hfound : ∀ dollar after, s.tokens.lexemes = dollar :: after → IsFound locations es dollar after)
    (hrest : Covers locations s₁.tokens.lexemes rest es) : Covers locations s.tokens.lexemes rest es := by
  obtain ⟨-, dollar, name, hread, -, hname⟩ := h
  have hne : name.token ≠ .symbol .dollar := by
    intro hdollar
    rw [hdollar] at hname
    cases hname
  rw [hread] at hfound ⊢
  exact (hrest.cons fun hdollar => absurd hdollar hne).cons fun _ => hfound _ _ rfl

end ReadsName

/-- The reference itself is what has been read. -/
theorem ReadsAll.reference {r : VariableRef} {n : QName} {at' : LocationId} (h : ReadsName c s n s₁)
    (hat : ∀ l, s.tokens.lexemes.head? = some l → s₁.unit.locations[at']? = some l.location)
    (hr : Names c s s₁ (mkLeaf (.variable r) at')) : ReadsAll c s [mkLeaf (.variable r) at'] s₁ := by
  refine ⟨⟨h.skips.grows, fun e he => ?_, List.nodup_nil, ?_, h.skips.scope⟩, ?_⟩
  · obtain rfl := List.mem_singleton.1 he
    exact hr
  · rintro slot ⟨⟩
  · refine h.covers (fun dollar after hread => ?_) (.refl _ _ _)
    exact ⟨_, List.mem_singleton_self _, _, mem_preorder_self _, hat dollar (by rw [hread]; rfl), .inl ⟨_, _, rfl⟩⟩

theorem readsExpr_variableRef : ReadsExpr variableRef := by
  intro c s
  refine .bind (ensures_location.imp fun at' s₁ hlocation => ?_)
  obtain ⟨hskip, htokens, hat⟩ := hlocation
  have hstart : ReadsAll c s [] s₁ := (ReadsAll.refl s).later hskip htokens
  refine .bind ((ensures_expectSymbol .dollar).imp fun _ s₂ hdollar => ?_)
  refine .bind (ensures_variableName.imp fun r s₃ hname => ?_)
  have hread : ReadsName c s₁ r.1 s₃ := .of_tokens hdollar hname
  have hat : ∀ l, s₁.tokens.lexemes.head? = some l → s₃.unit.locations[at']? = some l.location := by
    rw [hread.unit, htokens]
    exact hat
  have hwritten := hread.isWritten hat
  have hscope : s₃.unit.scope = s₁.unit.scope := hread.skips.scope
  obtain ⟨n, l'⟩ := r
  refine .bind (.get ?_)
  split
  · next slot hlookup =>
    have hresolves := hscope ▸ CompileUnit.resolves_of_lookup hlookup
    exact .pure (hstart.append (.reference hread hat ⟨n, hwritten, hresolves⟩))
  · next hlookup =>
    have hlacks := hscope ▸ CompileUnit.lacks_of_lookup hlookup
    refine .bind (.bind (.read (.pure (.ite (fun hglobal => .pure ?_) fun _ => ?_))))
    · exact hstart.append (.reference hread hat ⟨hwritten, hlacks, hglobal⟩)
    · exact (fails_failAt _ _ _).ensures

theorem silent_signs (n : ℕ) (signed negative : Bool) : Silent (signs n signed negative) :=
  (skips_signs n signed negative).silent (passes_signs n signed negative [])

theorem reads_applyFunction (n : QName) (l : Lexeme) (at' : LocationId) (h : ReadsAll c s₀ es s) :
    Ensures c (applyFunction n l es at') s fun e s' => ReadsAll c s₀ [e] s' := by
  unfold applyFunction
  split
  · refine .ite (fun _ => ?_) fun _ => ?_
    · exact h.look (looks_resolveCastTarget n l) fun t s' h => h.give (.unary _ _ (.self _))
    · exact h.skip (silent_resolveFunction n 1 l) fun f s' h => h.give (.nary _ _ _)
  · exact h.skip (silent_resolveFunction n _ l) fun f s' h => h.give (.nary _ _ _)

theorem goesOn_typeOperator (first second : String) {type : Parser UnaryOp} (htype : Silent type) :
    GoesOn (typeOperator first second type) := by
  intro c s₀ s e h
  refine .bind ((ensures_peekNth 1).imp fun o s₁ hpeek => ?_)
  obtain ⟨rfl, rfl⟩ := hpeek
  split
  · next name hsecond =>
    rw [← TokenStream.first_next] at hsecond
    refine .bind ((ensures_check _).imp fun found s₂ hcheck => ?_)
    obtain ⟨rfl, hfound⟩ := hcheck
    refine .ite (fun hboth => ?_) fun _ => .pure h
    have hfirst := hfound ((Bool.and_eq_true _ _).mp hboth).1
    refine h.location fun at' s₃ hsame h => ?_
    rw [← hsame] at hfirst hsecond
    refine h.advance hfirst (by simp) fun s₄ hnext h => ?_
    rw [← hnext] at hsecond
    refine h.advance hsecond (by simp) fun s₅ _ h => ?_
    exact h.skip htype fun op s h => h.give (.unary _ _ (.self _))
  · exact .pure h

theorem goesOn_typeOperators : GoesOn typeOperators := by
  have hsingle (op : AtomicType × Bool → UnaryOp) : Silent (singleType >>= fun t => pure (op t)) :=
    fun _ s => (ReadsAll.refl s).skip silent_singleType fun _ _ hs => .pure hs
  have hsequence (op : SequenceType → UnaryOp) : Silent (sequenceType >>= fun t => pure (op t)) :=
    fun _ s => (ReadsAll.refl s).skip silent_sequenceType fun _ _ hs => .pure hs
  intro c s₀ s e h
  refine .bind ((goesOn_typeOperator _ _ (hsingle _) h).imp fun e s h => ?_)
  refine .bind ((goesOn_typeOperator _ _ (hsingle _) h).imp fun e s h => ?_)
  refine .bind ((goesOn_typeOperator _ _ (hsequence _) h).imp fun e s h => ?_)
  exact goesOn_typeOperator _ _ (hsequence _) h

/-- A text goes on from the name of a variable towards its source. -/
def BeginsSign (text : List Lexeme) : Prop :=
  ∃ sign rest, text = sign :: rest ∧
    (sign.token = .name "as" ∨ sign.token = .name "in" ∨ sign.token = .symbol .colonEqual)

theorem ReadsName.beginsClause {n : QName} (h : ReadsName c s n s₁) (hsign : BeginsSign s₁.tokens.lexemes) :
    BeginsClause s.tokens.lexemes := by
  obtain ⟨-, dollar, name, hread, hdollar, hname⟩ := h
  obtain ⟨sign, rest, htext, hsign⟩ := hsign
  exact ⟨dollar, name, sign, rest, by rw [hread, htext], hdollar, isQName_of_variableName? hname, hsign⟩

theorem ensures_clauseHead (k : BindingKeyword) : Ensures c (clauseHead k) s fun r s' =>
    ∃ s₁, ReadsName c s r.1 s₁ ∧ BeginsSign s₁.tokens.lexemes ∧ ReadsAll c s₁ [] s' := by
  refine .bind ((ensures_expectSymbol .dollar).imp fun _ s₁ hdollar => ?_)
  refine .bind (ensures_variableName.imp fun r s₂ hname => ?_)
  have hread : ReadsName c s r.1 s₂ := .of_tokens hdollar hname
  obtain ⟨n, l⟩ := r
  -- Without a type the word before the source comes next.
  have hword (type : Option SequenceType) {s₃ : ParseState} (h : ReadsAll c s₂ [] s₃)
      (hsign : BeginsSign s₂.tokens.lexemes ∨ s₃.tokens = s₂.tokens) :
      Ensures c (if k = .let then expectSymbol .colonEqual >>= fun _ => pure (n, type)
        else expectName "in" >>= fun _ => pure (n, type)) s₃ fun r s' =>
        ∃ s₁, ReadsName c s r.1 s₁ ∧ BeginsSign s₁.tokens.lexemes ∧ ReadsAll c s₁ [] s' := by
    refine .ite (fun _ => ?_) fun _ => ?_
    · refine .bind ((Ensures.and (silent_expectSymbol (by decide) c s₃) (ensures_expectSymbol _)).imp
        fun _ s₄ hs => .pure ⟨s₂, hread, ?_, h.append hs.1⟩)
      obtain ⟨-, -, sign, hl, htoken⟩ := hs
      exact hsign.elim id fun hsame => ⟨sign, _, hsame ▸ hl, .inr (.inr htoken)⟩
    · refine .bind ((Ensures.and (silent_expectName "in" c s₃) (ensures_expectName _)).imp
        fun _ s₄ hs => .pure ⟨s₂, hread, ?_, h.append hs.1⟩)
      obtain ⟨-, -, sign, hl, htoken⟩ := hs
      exact hsign.elim id fun hsame => ⟨sign, _, hsame ▸ hl, .inr (.inl htoken)⟩
  have htype : Silent (some <$> sequenceType) :=
    Skips.silent (skips_sequenceType.map _) (passes_sequenceType.map _ [])
  dsimp only
  split
  · refine .bind ((Ensures.and (silent_eatName "as" c s₂) (ensures_eat_first _)).imp fun typed s₃ hs => ?_)
    obtain ⟨h, heat⟩ := hs
    refine .ite (fun htyped => ?_) fun huntyped => ?_
    · rw [if_pos htyped] at heat
      obtain ⟨sign, htoken, hl⟩ := TokenStream.exists_of_first heat.1
      exact h.skip htype fun type s₄ h => hword type h (.inl ⟨sign, _, hl, .inl htoken⟩)
    · rw [if_neg huntyped] at heat
      exact .bind (.pure (hword _ h (.inr heat)))
  · exact .bind (.pure (.ite (fun h => absurd h (by simp)) fun _ => .bind (.pure (hword _ (.refl s₂) (.inr rfl)))))

/-- A new variable is in scope, and it has the next slot. -/
structure Declares (s : ParseState) (n : QName) (slot : Slot) (s' : ParseState) : Prop where
  grows : s.Grows s'
  tokens : s'.tokens = s.tokens
  next : slot = s.unit.bindings.size
  size : s'.unit.bindings.size = s.unit.bindings.size + 1
  scope : s'.unit.scope = (n, slot) :: s.unit.scope

theorem ensures_declare (n : QName) (type : Option SequenceType) :
    Ensures c (declare n type) s fun slot s' => Declares s n slot s' := by
  refine .modifyGet ⟨⟨List.suffix_rfl, List.prefix_rfl, ⟨[_], Array.toList_push, ?_⟩, ?_⟩, rfl, rfl, ?_, rfl⟩
  · intro b hb
    obtain rfl := List.mem_singleton.1 hb
    rfl
  · exact List.suffix_cons _ _
  · exact Array.size_push _

/-- Something is read, a variable is bound to it, and the rest is read in the scope of the variable, which is
dropped after it. -/
theorem Reads.bind {a b : Expr} {n : QName} {slot : Slot} {op : BinaryOp} {at' : LocationId}
    (hop : op.slot? = some slot) (ha : Reads c s [a] s₀) (hdeclare : Declares s₀ n slot s₁)
    (hb : Reads c s₁ [b] s₂) (hwritten : IsWritten c.static s.tokens.lexemes s₂.unit.locations at' n) :
    Reads c s [mkBinary op a b at'] { s₂ with unit := s₂.unit.pop.2 } := by
  have hscope : s₁.unit.scope = (n, slot) :: s.unit.scope := by rw [hdeclare.scope, ha.closed]
  have hgrows : s.Grows s₁ := ha.grows.trans hdeclare.grows
  have hnew := ha.fresh
  have hnew' := hb.fresh
  have honce := ha.once
  have honce' := hb.once
  rw [List.flatMap_singleton] at hnew hnew' honce honce'
  have hslot {t : Slot} (ht : t ∈ b.boundSlots) : s₀.unit.bindings.size < t := by
    have := (hnew' t ht).1
    rwa [hdeclare.size] at this
  have hbound : [mkBinary op a b at'].flatMap boundSlots = slot :: (a.boundSlots ++ b.boundSlots) := by
    rw [List.flatMap_singleton, mkBinary, boundSlots_binary, hop]
    rfl
  have hpop : s₂.unit.pop.2 = { s₂.unit with scope := s.unit.scope } := by
    rw [CompileUnit.pop, hb.closed, hscope]
  have hrest : s₀.Grows s₂ := hdeclare.grows.trans hb.grows
  have hafter : s.Grows s₂ := ha.grows.trans hrest
  have hfirst : Names c s s₂ a := (ha.names a List.mem_cons_self).later hrest
  rw [hpop]
  refine ⟨⟨hafter.tokens, hafter.locations, hafter.bindings, List.suffix_rfl⟩, fun x hx => ?_, ?_,
    fun t ht => ?_, rfl⟩
  · obtain rfl := List.mem_singleton.1 hx
    have hnames := hb.names b List.mem_cons_self
    unfold Names at hnames ⊢
    rw [hscope] at hnames
    rw [mkBinary, Resolved, hop]
    exact ⟨hfirst, n, hwritten, Resolved.mono (fun _ _ hw => hw.mono hgrows.tokens List.prefix_rfl) b hnames⟩
  · rw [hbound, List.nodup_cons, List.nodup_append, List.mem_append]
    refine ⟨?_, honce, honce', fun t ht t' ht' => ?_⟩
    · rw [hdeclare.next]
      rintro (ht | ht)
      · exact absurd (hnew _ ht).2 (lt_irrefl _)
      · exact absurd (hslot ht) (lt_irrefl _)
    · exact ((hnew t ht).2.trans (hslot ht')).ne
  · rw [hbound, List.mem_cons, List.mem_append] at ht
    have hsize := hrest.size
    obtain rfl | ht | ht := ht
    · rw [hdeclare.next]
      refine ⟨ha.grows.size, Nat.lt_of_lt_of_le ?_ hb.grows.size⟩
      rw [hdeclare.size]
      exact Nat.lt_succ_self _
    · exact ⟨(hnew t ht).1, (hnew t ht).2.trans_le hsize⟩
    · exact ⟨ha.grows.size.trans (hslot ht).le, (hnew' t ht).2⟩

/-- The head of a clause has been read, and the place of its variable has been recorded. -/
structure ReadsHead (c : ParseContext) (s : ParseState) (n : QName) (at' : LocationId) (s' : ParseState) : Prop where
  reads : Reads c s [] s'
  written : IsWritten c.static s.tokens.lexemes s'.unit.locations at' n
  covers : ∀ {locations : Array Location} {rest : List Lexeme} {e : Expr},
    s'.unit.locations.toList <+: locations.toList → e.location = at' → e.boundSlot?.isSome →
    Covers locations s'.tokens.lexemes rest [e] → Covers locations s.tokens.lexemes rest [e]

theorem ReadsName.readsHead {n : QName} {at' : LocationId} (h : ReadsName c s n s₁)
    (hat : ∀ l, s.tokens.lexemes.head? = some l → s₁.unit.locations[at']? = some l.location)
    (hsign : BeginsSign s₁.tokens.lexemes) (hrest : ReadsAll c s₁ [] s₂) : ReadsHead c s n at' s₂ where
  reads := (Reads.of_skips h.skips).append hrest.toReads
  written := (h.isWritten hat).mono List.suffix_rfl hrest.grows.locations
  covers {locations rest e} hlocations he hbinds hcovers := by
    have hsilent : Covers locations s₁.tokens.lexemes rest [e] :=
      (hrest.covers.later hlocations).append hcovers hrest.grows.tokens
    refine h.covers (fun dollar after hread => ?_) hsilent
    have hdollar := hat dollar (by rw [hread]; rfl)
    refine ⟨e, List.mem_singleton_self e, e, e.mem_preorder_self, he ▸ ?_, .inr ⟨hbinds, hread ▸ h.beginsClause hsign⟩⟩
    exact getElem?_of_prefix (hrest.grows.locations.trans hlocations) hdollar

theorem boundSlot?_binary (n : Note) (op : BinaryOp) (a b : Expr) : (binary n op a b).boundSlot? = op.slot? := by
  cases op <;> rfl

/-- A clause with all that comes after it. -/
theorem ReadsAll.bind {a b : Expr} {n : QName} {slot : Slot} {op : BinaryOp} {at' : LocationId}
    {s₃ : ParseState} (hop : op.slot? = some slot) (hhead : ReadsHead c s n at' s₀) (ha : ReadsAll c s₀ [a] s₁)
    (hdeclare : Declares s₁ n slot s₂) (hb : ReadsAll c s₂ [b] s₃) :
    ReadsAll c s [mkBinary op a b at'] { s₃ with unit := s₃.unit.pop.2 } := by
  have hgrows : s₁.Grows s₃ := hdeclare.grows.trans hb.grows
  have hwritten := hhead.written.mono List.suffix_rfl (ha.grows.locations.trans hgrows.locations)
  refine ⟨.bind hop (hhead.reads.append ha.toReads) hdeclare hb.toReads hwritten, ?_⟩
  have hboth : Covers s₃.unit.locations s₀.tokens.lexemes s₃.tokens.lexemes ([a] ++ [b]) :=
    (ha.covers.later hgrows.locations).append (hdeclare.tokens ▸ hb.covers) ha.grows.tokens
  have hpop : s₃.unit.pop.2.locations = s₃.unit.locations := by
    unfold CompileUnit.pop
    split <;> rfl
  refine hpop ▸ hhead.covers (ha.grows.locations.trans hgrows.locations) rfl ?_ ?_
  · rw [mkBinary, boundSlot?_binary, hop]
    rfl
  · refine hboth.within fun x hx => ?_
    obtain rfl | rfl : x = a ∨ x = b := by simpa using hx
    all_goals simp [mkBinary, preorder, mem_preorder_self]

/-- What the functions of the grammar do with so much fuel. -/
structure IsReading (n : ℕ) : Prop where
  expr : ReadsExpr (expr n)
  commaItems : ReadsAs id (commaItems n)
  exprSingle : ReadsExpr (exprSingle n)
  operators level : ReadsExpr (operators n level)
  moreOperators level : GoesOn (moreOperators n level)
  concatItems : ReadsAs id (concatItems n)
  operand level : ReadsExpr (operand n level)
  unary : ReadsExpr (unary n)
  path : ReadsExpr (path n)
  relativePath sorted start : GoesOn fun e => relativePath n e sorted start
  stepExpr : ReadsExpr (stepExpr n)
  axisStep : ReadsExpr (axisStep n)
  predicates : GoesOn (predicates n)
  predicate : GoesOn (predicate n)
  primary : ReadsExpr (primary n)
  enclosed left right : left ≠ .dollar → right ≠ .dollar → ReadsExpr (enclosed n left right)
  functionCall : ReadsExpr (functionCall n)
  arguments : ReadsAs id (arguments n)
  conditional : ReadsExpr (conditional n)
  /-- The keyword comes first. -/
  bindingExpr k {c s t} : s.tokens.first = some t → t ≠ .symbol .dollar →
    Ensures c (bindingExpr n k) s fun e s' => ReadsAll c s [e] s'
  clauses k : ReadsAs (fun r => [BindingClause.wrap k r.1 r.2]) (clauses n k)

namespace IsReading
variable {n : ℕ}

theorem zero : IsReading 0 where
  expr := fails_tooDeep.reads
  commaItems := fails_tooDeep.reads
  exprSingle := fails_tooDeep.reads
  operators _ := fails_tooDeep.reads
  moreOperators _ _ _ _ _ _ := fails_tooDeep.ensures
  concatItems := fails_tooDeep.reads
  operand _ := fails_tooDeep.reads
  unary := fails_tooDeep.reads
  path := fails_tooDeep.reads
  relativePath _ _ _ _ _ _ _ := fails_tooDeep.ensures
  stepExpr := fails_tooDeep.reads
  axisStep := fails_tooDeep.reads
  predicates _ _ _ _ _ := fails_tooDeep.ensures
  predicate _ _ _ _ _ := fails_tooDeep.ensures
  primary := fails_tooDeep.reads
  enclosed _ _ _ _ := fails_tooDeep.reads
  functionCall := fails_tooDeep.reads
  arguments := fails_tooDeep.reads
  conditional := fails_tooDeep.reads
  bindingExpr _ {_ _ _} _ _ := fails_tooDeep.ensures
  clauses _ := fails_tooDeep.reads

theorem expr_succ (h : IsReading n) : ReadsExpr (Parser.expr (n + 1)) := by
  intro c s
  refine (ReadsAll.refl s).skip silent_location fun at' s₁ hs => hs.add h.exprSingle fun first s₂ hs => ?_
  refine hs.look (looks_checkSymbol _) fun _ s₃ hs => .ite (fun _ => ?_) fun _ => .pure hs
  exact hs.add h.commaItems fun more s₄ hs => hs.give (.nary _ _ _)

theorem commaItems_succ (h : IsReading n) : ReadsAs id (Parser.commaItems (n + 1)) := by
  intro c s
  refine (ReadsAll.refl s).skip (silent_eatSymbol (by decide)) fun _ s₁ hs => .ite (fun _ => ?_) fun _ => .pure hs
  exact hs.add h.exprSingle fun e s₂ hs => hs.add h.commaItems fun es s₃ hs => .pure hs

theorem ne_dollar_of_ofToken? {t : Token} {k : BindingKeyword} (h : BindingKeyword.ofToken? t = some k) :
    t ≠ .symbol .dollar := by
  rintro rfl
  cases h

theorem exprSingle_succ (h : IsReading n) : ReadsExpr (Parser.exprSingle (n + 1)) := by
  intro c s
  have hoperators {s₁ : ParseState} (hs : ReadsAll c s [] s₁) :
      Ensures c (do
        if (← checkName "if") && (← checkNthSymbol 1 .leftParen) then return ← Parser.conditional n
        Parser.operators n .or) s₁ fun e s' => ReadsAll c s [e] s' := by
    refine hs.look (looks_checkName _) fun _ s₂ hs => ?_
    refine hs.look (looks_checkNthSymbol _ _) fun _ s₃ hs => ?_
    exact .ite (fun _ => hs.last h.conditional) fun _ => hs.last (h.operators _)
  refine (ReadsAll.refl s).look (looks_checkNthSymbol _ _) fun _ s₁ hs => .ite (fun _ => .peek ?_) fun _ => ?_
  · dsimp only
    split
    · next k hk =>
      obtain ⟨t, ht, hk⟩ := Option.bind_eq_some_iff.1 hk
      exact (h.bindingExpr k ht (ne_dollar_of_ofToken? hk)).imp fun e s₂ he => hs.append he
    · exact hoperators hs
  · exact hoperators hs

theorem operators_succ (h : IsReading n) (level : OperatorLevel) :
    ReadsExpr (Parser.operators (n + 1) level) := by
  intro c s
  refine (ReadsAll.refl s).add (h.operand level) fun left s₁ hs => ?_
  dsimp only
  split
  · refine hs.look (looks_checkSymbol _) fun _ s₂ hs => .ite (fun _ => ?_) fun _ => .pure hs
    refine hs.skip silent_location fun at' s₃ hs => hs.add h.concatItems fun more s₄ hs => ?_
    exact hs.give (.nary _ _ _)
  · exact h.moreOperators level hs

theorem slot?_of_operator? {level : OperatorLevel} {t : Token} {op : BinaryOp}
    (h : level.operator? t = some op) : op.slot? = none := by
  unfold OperatorLevel.operator? at h
  split at h <;> cases h <;> rfl

theorem ne_dollar_of_operator? {level : OperatorLevel} {t : Token} {op : BinaryOp}
    (h : level.operator? t = some op) : t ≠ .symbol .dollar := by
  rintro rfl
  cases level <;> cases h

theorem moreOperators_succ (h : IsReading n) (level : OperatorLevel) :
    GoesOn (Parser.moreOperators (n + 1) level) := by
  intro c s₀ s left hs
  refine .peek ?_
  split
  · exact .pure hs
  · next op hop =>
    obtain ⟨t, ht, hop⟩ := Option.bind_eq_some_iff.1 hop
    refine hs.location fun at' s₁ hsame hs => ?_
    rw [← hsame] at ht
    refine hs.advance ht (ne_dollar_of_operator? hop) fun s₂ _ hs => ?_
    refine hs.add (h.operand level) fun right s₃ hs => ?_
    have hs := hs.made (.binary { location := at' } (slot?_of_operator? hop) (.self left) (.self right))
    exact .ite (fun _ => .pure hs) fun _ => h.moreOperators level hs

theorem concatItems_succ (h : IsReading n) : ReadsAs id (Parser.concatItems (n + 1)) := by
  intro c s
  refine (ReadsAll.refl s).skip (silent_eatSymbol (by decide)) fun _ s₁ hs => .ite (fun _ => ?_) fun _ => .pure hs
  exact hs.add (h.operand _) fun e s₂ hs => hs.add h.concatItems fun es s₃ hs => .pure hs

theorem operand_succ (h : IsReading n) (level : OperatorLevel) :
    ReadsExpr (Parser.operand (n + 1) level) := by
  intro c s
  unfold Parser.operand
  split
  · next tighter _ => exact h.operators tighter c s
  · exact (ReadsAll.refl s).add h.unary fun e s₁ hs => goesOn_typeOperators hs

theorem unary_succ (h : IsReading n) : ReadsExpr (Parser.unary (n + 1)) := by
  intro c s
  refine (ReadsAll.refl s).skip silent_location fun at' s₁ hs => hs.look looks_get fun _ s₂ hs => ?_
  refine hs.skip (silent_signs _ _ _) fun r s₃ hs => ?_
  obtain ⟨signed, negative⟩ := r
  exact hs.add h.path fun e s₄ hs => hs.give (.applySigns _ _ (.self e))

theorem path_succ (h : IsReading n) : ReadsExpr (Parser.path (n + 1)) := by
  intro c s
  refine (ReadsAll.refl s).skip silent_location fun at' s₁ hs => ?_
  have hroot : (mkLeaf .root at').IsMadeOf [] := .leaf (by simp)
  refine hs.skip (silent_eatSymbol (by decide)) fun _ s₂ hs => .ite (fun _ => ?_) fun _ => ?_
  · refine hs.look looks_startsStep fun _ s₃ hs => .ite (fun _ => hs.give hroot) fun _ => ?_
    refine hs.add h.stepExpr fun step s₄ hs => ?_
    exact h.relativePath _ _ (hs.made (.binary _ rfl hroot (.self step)))
  · refine hs.skip (silent_eatSymbol (by decide)) fun _ s₃ hs => .ite (fun _ => ?_) fun _ => ?_
    · refine hs.add h.stepExpr fun step s₄ hs => ?_
      exact h.relativePath _ _ (hs.made (.pathStep (.descendantOrSelf hroot) (.self step)))
    · exact hs.add h.stepExpr fun first s₄ hs => h.relativePath _ _ hs

theorem relativePath_succ (h : IsReading n) (sorted : Bool) (start : LocationId) :
    GoesOn fun e => Parser.relativePath (n + 1) e sorted start := by
  intro c s₀ s current hs
  refine hs.skip silent_location fun at' s₁ hs => hs.skip (silent_eatSymbol (by decide)) fun _ s₂ hs => ?_
  refine .ite (fun _ => ?_) fun _ => ?_
  · refine hs.add h.stepExpr fun step s₃ hs => ?_
    exact h.relativePath _ _ (hs.made (.pathStep (.self current) (.self step)))
  · refine hs.skip (silent_eatSymbol (by decide)) fun _ s₃ hs => .ite (fun _ => ?_) fun _ => .pure ?_
    · refine hs.add h.stepExpr fun step s₄ hs => ?_
      refine h.relativePath _ _ (hs.made (.pathStep (.descendantOrSelf ?_) (.self step)))
      exact .sortedPath (.self current)
    · split
      · exact hs.made (.unary _ _ (.self current))
      · exact hs

theorem stepExpr_succ (h : IsReading n) : ReadsExpr (Parser.stepExpr (n + 1)) := by
  intro c s
  refine (ReadsAll.refl s).look looks_startsAxisStep fun _ s₁ hs => .ite (fun _ => ?_) fun _ => ?_
  · exact hs.last h.axisStep
  · exact hs.add h.primary fun e s₂ hs => h.predicates hs

theorem axisStep_succ (h : IsReading n) : ReadsExpr (Parser.axisStep (n + 1)) := by
  intro c s
  refine (ReadsAll.refl s).skip silent_location fun at' s₁ hs => ?_
  refine hs.skip silent_axisAndTest fun r s₂ hs => ?_
  obtain ⟨axis, test⟩ := r
  refine .bind ((h.predicates (hs.made (.leaf (by simp)))).imp fun e s₃ hs => .pure ?_)
  split
  · exact hs.made (.unary _ _ (.self e))
  · exact hs

theorem predicates_succ (h : IsReading n) : GoesOn (Parser.predicates (n + 1)) := by
  intro c s₀ s base hs
  refine hs.look (looks_checkSymbol _) fun _ s₁ hs => .ite (fun _ => ?_) fun _ => .pure hs
  exact .bind ((h.predicate hs).imp fun e s₂ hs => h.predicates hs)

theorem predicate_succ (h : IsReading n) : GoesOn (Parser.predicate (n + 1)) := by
  intro c s₀ s base hs
  refine hs.skip silent_location fun at' s₁ hs => hs.skip (silent_expectSymbol (by decide)) fun _ s₂ hs => ?_
  refine hs.add h.expr fun p s₃ hs => hs.skip (silent_expectSymbol (by decide)) fun _ s₄ hs => ?_
  exact hs.give (.binary _ rfl (.self base) (.self p))

theorem primary_succ (h : IsReading n) : ReadsExpr (Parser.primary (n + 1)) := by
  intro c s
  refine (ReadsAll.refl s).skip silent_location fun at' s₁ hs => ?_
  have hconstant (constant : Constant) {k : Token} (hk : s₁.tokens.first = some k) (hne : k ≠ .symbol .dollar) :
      Ensures c (advance >>= fun _ => pure (constantAt constant at')) s₁ fun e s' => ReadsAll c s [e] s' :=
    hs.advance hk hne fun s₂ _ hs => hs.give (.leaf (by simp))
  have hcall {s₂ : ParseState} (hs : ReadsAll c s [] s₂) :
      Ensures c (do
        if (← checkQName) && (← checkNthSymbol 1 .leftParen) then Parser.functionCall n
        else expected "an expression") s₂ fun e s' => ReadsAll c s [e] s' := by
    refine hs.look looks_checkQName fun _ s₃ hs => hs.look (looks_checkNthSymbol _ _) fun _ s₄ hs => ?_
    exact .ite (fun _ => hs.last h.functionCall) fun _ => (fails_expected _).ensures
  refine .peek ?_
  split
  · next hfirst => exact hconstant _ hfirst (by simp)
  · next hfirst => exact hconstant _ hfirst (by simp)
  · next hfirst => exact hconstant _ hfirst (by simp)
  · next hfirst => exact hconstant _ hfirst (by simp)
  · exact hs.last readsExpr_variableRef
  · exact hs.last (h.enclosed _ _ (by simp) (by simp))
  · next hfirst => exact hs.advance hfirst (by simp) fun s₂ _ hs => hs.give (.leaf (by simp))
  · next name hfirst =>
    refine (looks_checkNthQName 1).then_ fun _ s₂ hsame => ?_
    subst hsame
    refine (looks_checkNthSymbol 2 _).then_ fun _ s₃ hsame => .ite (fun _ => ?_) fun _ => ?_
    · subst hsame
      refine hs.advance hfirst (by simp) fun s₄ _ hs => hs.skip (silent_qname _) fun r s₅ hs => ?_
      obtain ⟨name, l⟩ := r
      exact hs.add (h.enclosed _ _ (by simp) (by simp)) fun e s₆ hs => hs.give (.unary _ _ (.self e))
    · subst hsame
      refine (looks_checkNthSymbol 1 _).then_ fun _ s₄ hsame => .ite (fun _ => ?_) fun _ => hcall (hsame ▸ hs)
      subst hsame
      refine hs.advance hfirst (by simp) fun s₅ _ hs => ?_
      exact hs.add (h.enclosed _ _ (by simp) (by simp)) fun e s₆ hs => hs.give (.unary _ _ (.self e))
  · exact hcall hs

theorem enclosed_succ (h : IsReading n) (left right : Symbol) (hleft : left ≠ .dollar) (hright : right ≠ .dollar) :
    ReadsExpr (Parser.enclosed (n + 1) left right) := by
  intro c s
  refine (ReadsAll.refl s).skip silent_location fun at' s₁ hs => ?_
  refine hs.skip (silent_expectSymbol hleft) fun _ s₂ hs => hs.skip (silent_eatSymbol hright) fun _ s₃ hs => ?_
  refine .ite (fun _ => hs.give (.leaf (by simp))) fun _ => ?_
  exact hs.add h.expr fun e s₄ hs => hs.skip (silent_expectSymbol hright) fun _ s₅ hs => .pure hs

theorem functionCall_succ (h : IsReading n) : ReadsExpr (Parser.functionCall (n + 1)) := by
  intro c s
  refine (ReadsAll.refl s).skip silent_location fun at' s₁ hs => hs.skip (silent_qname _) fun r s₂ hs => ?_
  obtain ⟨name, l⟩ := r
  refine hs.skip (silent_expectSymbol (by decide)) fun _ s₃ hs => hs.skip (silent_eatSymbol (by decide)) fun _ s₄ hs => ?_
  refine .ite (fun _ => ?_) fun _ => ?_
  · exact .bind (.pure (reads_applyFunction name l at' hs))
  · exact hs.add h.arguments fun args s₅ hs => reads_applyFunction name l at' hs

theorem arguments_succ (h : IsReading n) : ReadsAs id (Parser.arguments (n + 1)) := by
  intro c s
  refine (ReadsAll.refl s).add h.exprSingle fun e s₁ hs => hs.skip (silent_eatSymbol (by decide)) fun _ s₂ hs => ?_
  refine .ite (fun _ => .pure hs) fun _ => hs.skip (silent_expectSymbol (by decide)) fun _ s₃ hs => ?_
  exact hs.add h.arguments fun es s₄ hs => .pure hs

theorem conditional_succ (h : IsReading n) : ReadsExpr (Parser.conditional (n + 1)) := by
  intro c s
  refine (ReadsAll.refl s).skip silent_location fun at' s hs => hs.skip (silent_expectName _) fun _ s hs => ?_
  refine hs.skip (silent_expectSymbol (by decide)) fun _ s hs => hs.add h.expr fun condition s hs => ?_
  refine hs.skip (silent_expectSymbol (by decide)) fun _ s hs => hs.skip (silent_expectName _) fun _ s hs => ?_
  refine hs.add h.exprSingle fun yes s hs => hs.skip (silent_expectName _) fun _ s hs => ?_
  exact hs.add h.exprSingle fun no s hs => hs.give (.ternary _ _)

theorem slot?_operator (k : BindingKeyword) (slot : Slot) : (k.operator slot).slot? = some slot := by
  cases k <;> rfl

theorem bindingExpr_succ (h : IsReading n) (k : BindingKeyword) {t : Token} (ht : s.tokens.first = some t)
    (hne : t ≠ .symbol .dollar) :
    Ensures c (Parser.bindingExpr (n + 1) k) s fun e s' => ReadsAll c s [e] s' := by
  refine (ReadsAll.refl s).advance ht hne fun s₁ _ hs => .bind (.inScope ?_)
  exact (h.clauses k c s₁).imp fun r s₂ hr => .pure (hs.append hr.restore)

theorem clauses_succ (h : IsReading n) (k : BindingKeyword) :
    ReadsAs (fun r => [BindingClause.wrap k r.1 r.2]) (Parser.clauses (n + 1) k) := by
  intro c s
  refine .bind (ensures_location.imp fun at' s₁ hlocation => ?_)
  obtain ⟨hskip, htokens, hat⟩ := hlocation
  have hstart : ReadsAll c s [] s₁ := (ReadsAll.refl s).later hskip htokens
  refine .bind ((ensures_clauseHead k).imp fun r s₂ hhead => ?_)
  obtain ⟨s', hname, hsign, hrest⟩ := hhead
  obtain ⟨name, type⟩ := r
  have hat : ∀ l, s₁.tokens.lexemes.head? = some l → s'.unit.locations[at']? = some l.location := by
    rw [hname.unit, htokens]
    exact hat
  have hhead : ReadsHead c s₁ name at' s₂ := hname.readsHead hat hsign hrest
  refine .bind ((h.exprSingle c s₂).imp fun source s₃ hsource => ?_)
  refine .bind ((ensures_declare name type).imp fun slot s₄ hdeclare => ?_)
  have hbind {cs : List BindingClause} {body : Expr} {s₅ : ParseState}
      (hbody : ReadsAll c s₄ [BindingClause.wrap k cs body] s₅) :
      ReadsAll c s [BindingClause.wrap k (⟨slot, source, at'⟩ :: cs) body] { s₅ with unit := s₅.unit.pop.2 } :=
    hstart.append (.bind (slot?_operator k slot) hhead hsource hdeclare hbody)
  refine .unwinding ((ReadsAll.refl s₄).skip (silent_eatSymbol (by decide)) fun _ s₅ hs => .ite (fun _ => ?_) fun _ => ?_)
  · exact hs.add (h.clauses k) fun r s₆ hs => .pure (hbind hs)
  · exact hs.skip (silent_expectName _) fun _ s₆ hs => hs.add h.exprSingle fun body s₇ hs => .pure (hbind hs)

theorem succ (h : IsReading n) : IsReading (n + 1) where
  expr := h.expr_succ
  commaItems := h.commaItems_succ
  exprSingle := h.exprSingle_succ
  operators := h.operators_succ
  moreOperators := h.moreOperators_succ
  concatItems := h.concatItems_succ
  operand := h.operand_succ
  unary := h.unary_succ
  path := h.path_succ
  relativePath := h.relativePath_succ
  stepExpr := h.stepExpr_succ
  axisStep := h.axisStep_succ
  predicates := h.predicates_succ
  predicate := h.predicate_succ
  primary := h.primary_succ
  enclosed := h.enclosed_succ
  functionCall := h.functionCall_succ
  arguments := h.arguments_succ
  conditional := h.conditional_succ
  bindingExpr k {_ _ _} ht hne := h.bindingExpr_succ k ht hne
  clauses := h.clauses_succ

/-- However much fuel there is. -/
theorem all (n : ℕ) : IsReading n := by
  induction n with
  | zero => exact zero
  | succ n ih => exact ih.succ

end IsReading

end Parser
end XPath
