import XPath.Grammar.Scan
import XPath.Proofs.Reading

/-!
Brackets in what parsers read. The scanner walks over the tokens that a parser has read, whatever follows
them, and then waits for the brackets that the parser has left open. Here are the parsers that do not read
expressions; in the end they leave no bracket open. But for those of variables they read no dollar sign: in
what follows, `bare` is whether this is to be shown as well.
-/
namespace XPath

namespace Token

/-- The scanner goes on after the token and waits for the same brackets. -/
structure IsPlain (t : Token) (bare : Prop) : Prop where
  opens : Scan.closing? t = none
  valid : t ≠ .error
  closes : Scan.isClosing t = false
  spares : bare → t ≠ .symbol .dollar

/-- The tokens that are neither brackets nor errors nor dollar signs. -/
theorem IsPlain.of {t : Token} {bare : Prop} (h : ((Scan.closing? t).isNone && t != .error && !Scan.isClosing t &&
    t != .symbol .dollar) = true) : t.IsPlain bare := by
  simp only [Bool.and_eq_true, Option.isNone_iff_eq_none, bne_iff_ne, Bool.not_eq_true'] at h
  exact ⟨h.1.1.1, h.1.1.2, h.1.2, fun _ => h.2⟩

theorem isPlain_name (s : String) {bare : Prop} : (name s).IsPlain bare := .of rfl

theorem isPlain_dollar : (symbol .dollar).IsPlain False := ⟨rfl, nofun, rfl, False.elim⟩

end Token

namespace Scan
variable {ls ls' : List Lexeme} {opened opened' opened'' : List Symbol} {l : Lexeme} {x : Symbol}

/-- Where the scanner waits for the first brackets, the innermost first, it waits for the others after these
lexemes, whatever else it waits for and whatever follows. -/
def Leads (opened : List Symbol) (ls : List Lexeme) (opened' : List Symbol) : Prop :=
  ∀ terminator finish awaited rest,
    walk terminator finish (opened ++ awaited) (ls ++ rest) = walk terminator finish (opened' ++ awaited) rest

theorem leads_nil (opened : List Symbol) : Leads opened [] opened := fun _ _ _ _ => rfl

theorem Leads.append (h : Leads opened ls opened') (h' : Leads opened' ls' opened'') :
    Leads opened (ls ++ ls') opened'' := by
  intro terminator finish awaited rest
  rw [List.append_assoc, h, h']

theorem leads_plain (opened : List Symbol) {bare : Prop} (h : l.token.IsPlain bare) : Leads opened [l] opened := by
  intro terminator finish awaited rest
  rw [List.singleton_append, walk.eq_def]
  dsimp only
  rw [h.opens]
  dsimp only
  rw [if_neg h.valid, h.closes]
  rfl

theorem leads_open (opened : List Symbol) (h : closing? l.token = some x) : Leads opened [l] (x :: opened) := by
  intro terminator finish awaited rest
  rw [List.singleton_append, walk.eq_def]
  dsimp only
  rw [h]
  rfl

theorem closing?_of_isClosing {t : Token} (h : isClosing t) : closing? t = none := by
  unfold isClosing at h
  split at h <;> first | rfl | cases h

theorem leads_close (opened : List Symbol) (hl : l.token = .symbol x) (hx : isClosing (.symbol x)) :
    Leads (x :: opened) [l] opened := by
  intro terminator finish awaited rest
  rw [List.singleton_append, List.cons_append, walk.eq_def]
  dsimp only
  rw [hl, closing?_of_isClosing hx]
  simp [hx]

end Scan

namespace TokenStream
variable {t t' t'' : TokenStream} {opened opened' opened'' : List Symbol} {l : Lexeme} {k : Token} {x y : Symbol}
  {bare : Prop}

/-- The next token. -/
def first (t : TokenStream) : Option Token := t.lexemes.head?.map (·.token)

theorem exists_of_first (h : t.first = some k) : ∃ l, l.token = k ∧ t.lexemes = [l] ++ t.next.lexemes := by
  obtain ⟨l, hl, hk⟩ := Option.map_eq_some_iff.1 h
  obtain ⟨ls, hls⟩ := List.head?_eq_some_iff.1 hl
  exact ⟨l, hk, by rw [next, hls, List.tail_cons]; rfl⟩

/-- The second token is the first one after the first has been read. -/
theorem first_next (t : TokenStream) : t.next.first = t.lexemes[1]?.map (·.token) := by
  unfold first next
  cases t.lexemes with
  | nil => rfl
  | cons l ls => cases ls <;> rfl

/-- From one state of a source to a later one, the open brackets become others. -/
structure Walks (bare : Prop) (t : TokenStream) (opened : List Symbol) (t' : TokenStream) (opened' : List Symbol) :
    Prop where
  finish : t'.finish = t.finish
  read : ∃ ls, t.lexemes = ls ++ t'.lexemes ∧ Scan.Leads opened ls opened' ∧
    (bare → ∀ l ∈ ls, l.token ≠ .symbol .dollar)

namespace Walks

theorem refl (t : TokenStream) (opened : List Symbol) : t.Walks bare opened t opened :=
  ⟨rfl, [], rfl, Scan.leads_nil opened, fun _ _ h => absurd h List.not_mem_nil⟩

theorem trans (h : t.Walks bare opened t' opened') (h' : t'.Walks bare opened' t'' opened'') :
    t.Walks bare opened t'' opened'' := by
  obtain ⟨ls, hls, hleads, hspares⟩ := h.read
  obtain ⟨ls', hls', hleads', hspares'⟩ := h'.read
  refine ⟨h'.finish.trans h.finish, ls ++ ls', by rw [hls, hls', List.append_assoc], hleads.append hleads', ?_⟩
  exact fun hbare l hl => (List.mem_append.1 hl).elim (hspares hbare l) (hspares' hbare l)

/-- One token is read. -/
theorem single (hl : t.lexemes = [l] ++ t.next.lexemes) (hleads : Scan.Leads opened [l] opened')
    (hspares : bare → l.token ≠ .symbol .dollar) : t.Walks bare opened t.next opened' :=
  ⟨rfl, [l], hl, hleads, fun hbare _ hmem => List.mem_singleton.1 hmem ▸ hspares hbare⟩

theorem plain (opened : List Symbol) (hk : t.first = some k) (hplain : k.IsPlain bare) :
    t.Walks bare opened t.next opened := by
  obtain ⟨l, rfl, hl⟩ := exists_of_first hk
  exact .single hl (Scan.leads_plain opened hplain) hplain.spares

theorem «open» (opened : List Symbol) (hx : t.first = some (.symbol x))
    (hopen : Scan.closing? (.symbol x) = some y) :
    t.Walks bare opened t.next (y :: opened) := by
  obtain ⟨l, hlx, hl⟩ := exists_of_first hx
  refine .single hl (Scan.leads_open opened (hlx ▸ hopen)) fun _ hdollar => ?_
  rw [← hlx, hdollar] at hopen
  cases hopen

theorem close (opened : List Symbol) (hx : t.first = some (.symbol x)) (hclose : Scan.isClosing (.symbol x)) :
    t.Walks bare (x :: opened) t.next opened := by
  obtain ⟨l, hlx, hl⟩ := exists_of_first hx
  refine .single hl (Scan.leads_close opened hlx hclose) fun _ hdollar => ?_
  rw [← hlx, hdollar] at hclose
  cases hclose

end Walks
end TokenStream

namespace Parser
variable {α β : Type} {c : ParseContext} {s s' : ParseState} {p : Parser α} {f : α → Parser β} {k : Token}
  {x y : Symbol} {opened opened' opened'' : List Symbol} {bare : Prop}

/-- If the parser succeeds in this state, where some brackets are open, then others are open after it. -/
def TurnsFrom (bare : Prop) (s : ParseState) (opened : List Symbol) (p : Parser α) (opened' : List Symbol) : Prop :=
  ∀ c, Ensures c p s fun _ s' => s.tokens.Walks bare opened s'.tokens opened'

def Turns (bare : Prop) (opened : List Symbol) (p : Parser α) (opened' : List Symbol) : Prop :=
  ∀ s, TurnsFrom bare s opened p opened'

/-- Whenever the parser succeeds, it has closed the brackets that it has opened, and no others. -/
def Passes (bare : Prop) (p : Parser α) : Prop := ∀ opened, Turns bare opened p opened

theorem Looks.passes (h : Looks p) : Passes bare p := fun opened s _ =>
  h.ensures.imp fun _ _ hs => hs ▸ .refl s.tokens opened

theorem Fails.turns (h : Fails p) : Turns bare opened p opened' := fun _ _ => h.ensures

theorem Turns.pure (a : α) : Turns bare opened (pure a) opened := Looks.passes (.pure a) opened

theorem TurnsFrom.bind (hp : TurnsFrom bare s opened p opened') (hf : ∀ a, Turns bare opened' (f a) opened'') :
    TurnsFrom bare s opened (p >>= f) opened'' := fun c =>
  .bind ((hp c).imp fun a s₁ h => (hf a s₁ c).imp fun _ _ h' => h.trans h')

theorem TurnsFrom.ite {b : Prop} [Decidable b] {q : Parser α} (hp : b → TurnsFrom bare s opened p opened')
    (hq : ¬ b → TurnsFrom bare s opened q opened') : TurnsFrom bare s opened (if b then p else q) opened' := fun c =>
  .ite (fun h => hp h c) fun h => hq h c

theorem Turns.bind (hp : Turns bare opened p opened') (hf : ∀ a, Turns bare opened' (f a) opened'') :
    Turns bare opened (p >>= f) opened'' := fun s => (hp s).bind hf

theorem Turns.ite {b : Prop} [Decidable b] {q : Parser α} (hp : Turns bare opened p opened')
    (hq : Turns bare opened q opened') : Turns bare opened (if b then p else q) opened' := fun s =>
  .ite (fun _ => hp s) fun _ => hq s

theorem TurnsFrom.look (hp : Looks p) (hf : ∀ a, TurnsFrom bare s opened (f a) opened') :
    TurnsFrom bare s opened (p >>= f) opened' := fun c =>
  hp.then_ fun a _ hs => hs ▸ hf a c

namespace Passes

theorem fails (h : Fails p) : Passes bare p := fun _ => h.turns

theorem bind (hp : Passes bare p) (hf : ∀ a, Turns bare opened (f a) opened') : Turns bare opened (p >>= f) opened' :=
  (hp opened).bind hf

theorem map (hp : Passes bare p) (g : α → β) : Passes bare (g <$> p) := by
  rw [← bind_pure_comp]
  exact fun opened => hp.bind fun a => .pure (g a)

end Passes

/-! Looking at tokens. -/

theorem ensures_peekLexeme : Ensures c peekLexeme s fun o s' => s' = s ∧ o = s.tokens.lexemes.head? :=
  .bind (.get (.pure ⟨rfl, rfl⟩))

theorem ensures_peek : Ensures c peek s fun o s' => s' = s ∧ o = s.tokens.first :=
  .bind (ensures_peekLexeme.imp fun _ _ h => .pure ⟨h.1, by rw [h.2]; rfl⟩)

theorem ensures_peekNth (n : ℕ) :
    Ensures c (peekNth n) s fun o s' => s' = s ∧ o = s.tokens.lexemes[n]?.map (·.token) :=
  .bind (.get (.pure ⟨rfl, rfl⟩))

theorem ensures_check (k : Token) : Ensures c (check k) s fun b s' => s' = s ∧ (b → s.tokens.first = some k) :=
  .bind (ensures_peek.imp fun _ _ h => .pure ⟨h.1, fun hb => h.2 ▸ eq_of_beq hb⟩)

theorem ensures_checkSecond (k : Token) : Ensures c (checkNth 1 k) s fun b s' =>
    s' = s ∧ (b → s.tokens.next.first = some k) :=
  .bind ((ensures_peekNth 1).imp fun _ _ h => .pure ⟨h.1, fun hb => by
    rw [TokenStream.first_next, ← h.2]
    exact eq_of_beq hb⟩)

theorem ensures_checkKindTest : Ensures c checkKindTest s fun b s' =>
    s' = s ∧ (b → ∃ name, s.tokens.first = some (.name name)) := by
  refine .bind (ensures_peek.imp fun o s₁ h => ?_)
  obtain ⟨rfl, ho⟩ := h
  split
  · exact (looks_checkNthSymbol 1 _).then_ fun _ _ h => .pure ⟨h.symm, fun _ => ⟨_, ho.symm⟩⟩
  · exact .pure ⟨rfl, nofun⟩

namespace TurnsFrom

theorem peek {f : Option Token → Parser β} (h : TurnsFrom bare s opened (f s.tokens.first) opened') :
    TurnsFrom bare s opened (Parser.peek >>= f) opened' := fun c =>
  .bind (ensures_peek.imp fun o s₁ hs => by
    obtain ⟨rfl, rfl⟩ := hs
    exact h c)

theorem peekLexeme {f : Option Lexeme → Parser β} (h : TurnsFrom bare s opened (f s.tokens.lexemes.head?) opened') :
    TurnsFrom bare s opened (Parser.peekLexeme >>= f) opened' := fun c =>
  .bind (ensures_peekLexeme.imp fun o s₁ hs => by
    obtain ⟨rfl, rfl⟩ := hs
    exact h c)

theorem peekSecond {f : Option Token → Parser β} (h : TurnsFrom bare s opened (f s.tokens.next.first) opened') :
    TurnsFrom bare s opened (peekNth 1 >>= f) opened' := fun c =>
  .bind ((ensures_peekNth 1).imp fun o s₁ hs => by
    obtain ⟨rfl, rfl⟩ := hs
    rw [TokenStream.first_next] at h
    exact h c)

/-- A parser that only looks finds something out. -/
theorem learn {f : Bool → Parser β} {p : Parser Bool} {P : Prop}
    (hp : ∀ c, Ensures c p s fun b s' => s' = s ∧ (b = true → P))
    (h : ∀ b, (b = true → P) → TurnsFrom bare s opened (f b) opened') :
    TurnsFrom bare s opened (p >>= f) opened' := fun c =>
  .bind ((hp c).imp fun b s₁ hs => by
    obtain ⟨rfl, hb⟩ := hs
    exact h b hb c)

/-- A location is recorded, and the tokens are the same. -/
theorem location {f : LocationId → Parser β}
    (hf : ∀ at' s', s'.tokens = s.tokens → TurnsFrom bare s' opened (f at') opened') :
    TurnsFrom bare s opened (Parser.location >>= f) opened' := fun c =>
  .bind (ensures_location.imp fun at' s₁ h => h.2.1 ▸ hf at' s₁ h.2.1 c)

end TurnsFrom

/-! Reading tokens. -/

theorem ensures_advance : Ensures c advance s fun _ s' => s'.tokens = s.tokens.next := .modifyGet rfl

/-- Advances over a token that is known. -/
theorem TurnsFrom.advance {f : PUnit → Parser β} (hk : s.tokens.first = some k) (hplain : k.IsPlain bare)
    (hf : ∀ s', s'.tokens = s.tokens.next → TurnsFrom bare s' opened (f ⟨⟩) opened') :
    TurnsFrom bare s opened (Parser.advance >>= f) opened' := fun c =>
  .bind (ensures_advance.imp fun _ s₁ hnext => (hf s₁ hnext c).imp fun _ _ h =>
    (TokenStream.Walks.plain opened hk hplain).trans (hnext ▸ h))

theorem TurnsFrom.advanceOpen {f : PUnit → Parser β} (hx : s.tokens.first = some (.symbol x))
    (hopen : Scan.closing? (.symbol x) = some y) (hf : Turns bare (y :: opened) (f ⟨⟩) opened') :
    TurnsFrom bare s opened (Parser.advance >>= f) opened' := fun c =>
  .bind (ensures_advance.imp fun _ s₁ hnext => (hf s₁ c).imp fun _ _ h =>
    (TokenStream.Walks.open opened hx hopen).trans (hnext ▸ h))

/-- A token that is not there is not eaten. -/
theorem ensures_eat_first (k : Token) : Ensures c (eat k) s fun found s' =>
    if found then s.tokens.first = some k ∧ s'.tokens = s.tokens.next else s'.tokens = s.tokens := by
  refine .bind ((ensures_check k).imp fun found s₁ hcheck => ?_)
  obtain ⟨rfl, hfirst⟩ := hcheck
  refine .ite (fun hfound => .bind (ensures_advance.imp fun _ s₂ hnext => .pure ?_)) fun hfound => .pure ?_
  · rw [if_pos hfound]
    exact ⟨hfirst hfound, hnext⟩
  · rw [if_neg hfound]

theorem ensures_expectSymbol_first (x : Symbol) : Ensures c (expectSymbol x) s fun _ s' =>
    s.tokens.first = some (.symbol x) ∧ s'.tokens = s.tokens.next :=
  .bind ((ensures_eat_first _).imp fun found s' h => .ite (fun hfound => .pure (by rwa [if_pos hfound] at h))
    fun _ => (fails_expected _).ensures)

theorem passes_location : Passes bare location := fun _ _ _ => ensures_location.imp fun _ _ h => h.2.1 ▸ .refl _ _

theorem passes_warnAt (message : String) (l : Lexeme) : Passes bare (warnAt message l) := fun _ _ _ =>
  .modifyGet (.refl _ _)

theorem passes_eat (hk : k.IsPlain bare) : Passes bare (eat k) := fun opened s c =>
  (ensures_eat_first k).imp fun found s' h => by
    split at h
    · rw [h.2]
      exact .plain opened h.1 hk
    · rw [h]
      exact .refl _ opened

theorem passes_eatSymbol (hx : (Token.symbol x).IsPlain bare) : Passes bare (eatSymbol x) := passes_eat hx

theorem passes_eatName (name : String) : Passes bare (eatName name) := passes_eat (Token.isPlain_name name)

theorem passes_expectSymbol (hx : (Token.symbol x).IsPlain bare) : Passes bare (expectSymbol x) := fun _ =>
  (passes_eatSymbol hx).bind fun _ => .ite (.pure _) (fails_expected _).turns

theorem passes_expectName (name : String) : Passes bare (expectName name) := fun _ =>
  (passes_eatName name).bind fun _ => .ite (.pure _) (fails_expected _).turns

theorem turns_expectOpen (hopen : Scan.closing? (.symbol x) = some y) :
    Turns bare opened (expectSymbol x) (y :: opened) := fun _ _ =>
  (ensures_expectSymbol_first x).imp fun _ _ hs => hs.2 ▸ .open opened hs.1 hopen

theorem turns_expectClose (hclose : Scan.isClosing (.symbol x)) : Turns bare (x :: opened) (expectSymbol x) opened :=
  fun _ _ => (ensures_expectSymbol_first x).imp fun _ _ hs => hs.2 ▸ .close opened hs.1 hclose

/-- The bracket is closed here, or else it stays open. -/
theorem Turns.eatClose {f : Bool → Parser β} (hclose : Scan.isClosing (.symbol x))
    (h : Turns bare opened (f true) opened') (h' : Turns bare (x :: opened) (f false) opened') :
    Turns bare (x :: opened) (eatSymbol x >>= f) opened' := fun s c => by
  refine .bind ((ensures_eat_first _).imp fun found s₁ hs => ?_)
  cases found with
  | true => exact (h s₁ c).imp fun _ _ hwalks => (TokenStream.Walks.close opened hs.1 hclose).trans (hs.2 ▸ hwalks)
  | false =>
    have hsame : s₁.tokens = s.tokens := hs
    exact (h' s₁ c).imp fun _ _ hwalks => hsame ▸ hwalks

/-! Names and types. -/

theorem passes_qname (default : NameDefault) : Passes bare (qname default) := by
  intro opened s
  refine .peekLexeme ?_
  split
  · next l hl =>
    have hfirst : s.tokens.first = some l.token := by rw [TokenStream.first, hl]; rfl
    refine .look looks_static fun _ => ?_
    dsimp only
    split
    · next htoken =>
      rw [htoken] at hfirst
      exact .advance hfirst (.of rfl) fun s₁ _ => Turns.pure _ s₁
    · next htoken =>
      rw [htoken] at hfirst
      refine .advance hfirst (.of rfl) fun s₁ _ => ?_
      exact (looks_resolvePrefix _ _).passes.bind (fun _ => .pure _) s₁
    · next htoken =>
      rw [htoken] at hfirst
      exact .advance hfirst (.of rfl) fun s₁ _ => Turns.pure _ s₁
    · exact (fails_expected _).turns s
  · exact (fails_expected _).turns s

theorem passes_nameAndType (default : NameDefault) : Passes bare (nameAndType default) := by
  intro opened
  have hasterisk : Passes bare (eatSymbol .asterisk) := passes_eatSymbol (.of rfl)
  have hcomma : Passes bare (eatSymbol .comma) := passes_eatSymbol (.of rfl)
  have hquestion : Passes bare (eatSymbol .question) := passes_eatSymbol (.of rfl)
  refine (looks_checkSymbol _).passes.bind fun _ => .ite (.pure _) (hasterisk.bind fun _ => .ite
    ((Turns.pure _).bind fun _ => ?_) ((passes_qname _).bind fun _ => (Turns.pure _).bind fun _ => ?_))
  all_goals
    refine hcomma.bind fun _ => .ite ?_ (.pure _)
    exact (passes_qname _).bind fun _ => hquestion.bind fun _ => .pure _

theorem passes_processingInstructionTarget : Passes bare processingInstructionTarget := by
  intro opened s
  refine .peek ?_
  split
  · next hfirst => exact .advance hfirst (.of rfl) fun s₁ _ => Turns.pure _ s₁
  · next hfirst => exact .advance hfirst (.of rfl) fun s₁ _ => Turns.pure _ s₁
  · exact Turns.pure _ s

/-- The name of the test comes first. -/
theorem turns_kindTest {name : String} (hname : s.tokens.first = some (.name name)) :
    TurnsFrom bare s opened kindTest opened := by
  refine .peekLexeme ?_
  split
  · refine .advance hname (Token.isPlain_name name) fun s₁ _ => (turns_expectOpen rfl).bind (fun _ => ?_) s₁
    have hclose (test : KindTest) :
        Turns bare (.rightParen :: opened) (expectSymbol .rightParen >>= fun _ => pure test) opened :=
      (turns_expectClose rfl).bind fun _ => .pure _
    dsimp only
    split
    · exact hclose _
    · exact hclose _
    · exact hclose _
    · exact hclose _
    · exact ((passes_nameAndType _).map _).bind hclose
    · exact ((passes_nameAndType _).map _).bind hclose
    · refine (passes_eatName _).bind fun _ => .ite ((turns_expectOpen rfl).bind fun _ => ?_) (hclose _)
      exact (passes_nameAndType _).bind fun _ => (turns_expectClose rfl).bind fun _ => hclose _
    · exact (passes_processingInstructionTarget.map _).bind hclose
    · exact (Passes.fails (fails_failAt _ _ _)).bind hclose
  · exact (fails_expected _).turns s

/-- A name with parentheses and nothing in them, if that comes next. -/
theorem turns_emptyParens (name : String) (a : α) (hp : Turns bare opened p opened) :
    Turns bare opened (do
      if (← checkName name) && (← checkNthSymbol 1 .leftParen) then
        advance
        advance
        expectSymbol .rightParen
        return a
      p) opened := by
  intro s
  refine .learn (fun c => ensures_check _) fun first hfirst => ?_
  refine .learn (fun c => ensures_checkSecond _) fun second hsecond => .ite (fun hboth => ?_) fun _ => hp s
  obtain ⟨h, h'⟩ := (Bool.and_eq_true _ _).mp hboth
  refine .advance (hfirst h) (Token.isPlain_name name) fun s₁ hnext => ?_
  exact .advanceOpen (hnext ▸ hsecond h') rfl ((turns_expectClose rfl).bind fun _ => .pure _)

theorem passes_itemType : Passes bare itemType := by
  intro opened s
  refine .learn (fun c => ensures_checkKindTest) fun found hname => .ite (fun hfound => ?_) fun _ => ?_
  · obtain ⟨name, hname⟩ := hname hfound
    exact (turns_kindTest hname).bind fun _ => .pure _
  · have hname : Turns bare opened (do
        if ← checkNthSymbol 1 .leftParen then fail .unsupported .unsupportedType
        let p ← qname .element
        resolveAtomicType p.1 p.2) opened := by
      refine (looks_checkNthSymbol _ _).passes.bind fun _ => ?_
      have hrest (u : PUnit) : Turns bare opened (qname .element >>= fun p => resolveAtomicType p.1 p.2) opened :=
        (passes_qname _).bind fun _ => (looks_resolveAtomicType _ _).passes opened
      dsimp only
      exact .ite ((fails_fail _ _).turns.bind hrest) (hrest ⟨⟩)
    refine turns_emptyParens "item" _ ?_ s
    exact looks_checkQName.passes.bind fun _ => .ite hname ((fails_expected _).turns.bind fun _ => hname)

theorem passes_occurrence : Passes bare occurrence := by
  intro opened
  refine (passes_eatSymbol (.of (by rfl))).bind fun _ => .ite (.pure _) ?_
  refine (passes_eatSymbol (.of (by rfl))).bind fun _ => .ite (.pure _) ?_
  exact (passes_eatSymbol (.of (by rfl))).bind fun _ => .ite (.pure _) (.pure _)

theorem passes_sequenceType : Passes bare sequenceType := fun _ =>
  turns_emptyParens "empty-sequence" _ (passes_itemType.bind fun _ => passes_occurrence.bind fun _ => .pure _)

theorem passes_singleType : Passes bare singleType := fun _ =>
  (passes_qname _).bind fun _ => (looks_resolveCastTarget _ _).passes.bind fun _ =>
    (passes_eatSymbol (.of (by rfl))).bind fun _ => .pure _

/-! Steps, signs and functions. -/

theorem passes_nodeTest (axis : Axis) : Passes bare (nodeTest axis) := by
  intro opened s
  refine .learn (fun c => ensures_checkKindTest) fun found hname => .ite (fun hfound => ?_) fun _ => .peekLexeme ?_
  · obtain ⟨name, hname⟩ := hname hfound
    exact (turns_kindTest hname).bind fun _ => .pure _
  · split
    · next l hl =>
      have hfirst : s.tokens.first = some l.token := by rw [TokenStream.first, hl]; rfl
      split
      · next htoken =>
        rw [htoken] at hfirst
        exact .advance hfirst (.of rfl) fun s₁ _ => Turns.pure _ s₁
      · next htoken =>
        rw [htoken] at hfirst
        refine .advance hfirst (.of rfl) fun s₁ _ => ?_
        exact (looks_resolvePrefix _ _).passes.bind (fun _ => .pure _) s₁
      · next htoken =>
        rw [htoken] at hfirst
        exact .advance hfirst (.of rfl) fun s₁ _ => Turns.pure _ s₁
      · next htoken =>
        rw [htoken] at hfirst
        exact .advance hfirst (.of rfl) fun s₁ _ => Turns.pure _ s₁
      · exact (passes_qname _).bind (fun _ => .pure _) s
    · exact (fails_expected _).turns s

theorem passes_axisAndTest {test : Axis → Parser NodeTest} (htest : ∀ axis, Passes bare (test axis)) :
    Passes bare (axisAndTest test) := by
  intro opened
  refine (passes_eatSymbol (.of (by rfl))).bind fun _ => .ite ((htest _).bind fun _ => .pure _) ?_
  refine (passes_eatSymbol (.of (by rfl))).bind fun _ => .ite (.pure _) ?_
  intro s
  refine .learn (fun c => ensures_checkSecond _) fun axis haxis => .ite (fun h => .peek ?_) fun _ => ?_
  · dsimp only
    split
    · refine (Passes.fails (fails_expected _)).bind (fun _ => (htest _).bind fun t => ?_) s
      split <;> exact .pure _
    · next axis' haxis' =>
      have hname : ∃ name, s.tokens.first = some (.name name) := by
        split at haxis'
        · next name hfirst => exact ⟨name, hfirst⟩
        · cases haxis'
      obtain ⟨name, hname⟩ := hname
      have hcolons := haxis h
      refine .advance hname (Token.isPlain_name name) fun s₁ hnext => ?_
      rw [← hnext] at hcolons
      refine .advance hcolons (.of rfl) fun s₂ _ => ?_
      exact (htest _).bind (fun _ => .pure _) s₂
  · refine (htest _).bind (fun t => ?_) s
    split <;> exact .pure _

theorem passes_variableRef : Passes False variableRef := by
  intro opened
  refine passes_location.bind fun at' => (passes_expectSymbol Token.isPlain_dollar).bind fun _ => ?_
  refine (passes_qname _).bind fun r => looks_get.passes.bind fun s => ?_
  split
  · exact .pure _
  · exact looks_static.passes.bind fun _ => .ite (.pure _) (fails_failAt _ _ _).turns

theorem passes_resolveFunction (n : QName) (arity : ℕ) (l : Lexeme) : Passes bare (resolveFunction n arity l) := by
  intro opened
  unfold resolveFunction
  dsimp only
  split
  · exact .pure _
  · refine looks_static.passes.bind fun _ => .ite ((passes_warnAt _ _).bind fun _ => .pure _) ?_
    exact (fails_failAt _ _ _).turns

theorem passes_applyFunction (n : QName) (l : Lexeme) (args : List Expr) (at' : LocationId) :
    Passes bare (applyFunction n l args at') := by
  intro opened
  unfold applyFunction
  split
  · refine .ite ((looks_resolveCastTarget n l).passes.bind fun _ => .pure _) ?_
    exact (passes_resolveFunction n 1 l).bind fun _ => .pure _
  · exact (passes_resolveFunction n _ l).bind fun _ => .pure _

theorem passes_typeOperator (first second : String) {type : Parser UnaryOp} (htype : Passes bare type) (e : Expr) :
    Passes bare (typeOperator first second type e) := by
  intro opened s
  refine .peekSecond ?_
  split
  · next name hsecond =>
    refine .learn (fun c => ensures_check _) fun found hfound => .ite (fun hboth => ?_) fun _ => Turns.pure _ s
    have hfirst := hfound ((Bool.and_eq_true _ _).mp hboth).1
    refine .location fun at' s₁ hsame => ?_
    rw [← hsame] at hfirst hsecond
    refine .advance hfirst (Token.isPlain_name first) fun s₂ hnext => ?_
    rw [← hnext] at hsecond
    refine .advance hsecond (Token.isPlain_name name) fun s₃ _ => ?_
    exact htype.bind (fun _ => .pure _) s₃
  · exact Turns.pure _ s

theorem passes_signs (n : ℕ) (signed negative : Bool) : Passes bare (signs n signed negative) := by
  induction n generalizing signed negative with
  | zero => exact fun _ => .pure _
  | succ n ih =>
    intro opened
    refine (passes_eatSymbol (.of (by rfl))).bind fun _ => .ite (ih _ _ opened) ?_
    exact (passes_eatSymbol (.of (by rfl))).bind fun _ => .ite (ih _ _ opened) (.pure _)

theorem passes_declare (n : QName) (type : Option SequenceType) : Passes bare (declare n type) := fun _ _ _ =>
  .modifyGet (.refl _ _)

theorem passes_clauseHead (k : BindingKeyword) : Passes False (clauseHead k) := by
  intro opened
  refine (passes_expectSymbol Token.isPlain_dollar).bind fun _ => (passes_qname _).bind fun r => ?_
  have hword (type : Option SequenceType) :
      Turns False opened (if k = .let then expectSymbol .colonEqual >>= fun _ => pure (r.1, type)
        else expectName "in" >>= fun _ => pure (r.1, type)) opened :=
    .ite ((passes_expectSymbol (.of (by rfl))).bind fun _ => .pure _)
      ((passes_expectName _).bind fun _ => .pure _)
  dsimp only
  split
  · refine (passes_eatName _).bind fun typed => .ite ?_ ?_
    · exact (passes_sequenceType.map _).bind hword
    · exact (Turns.pure _).bind hword
  · refine (Turns.pure _).bind fun typed => .ite ?_ ?_
    · exact (passes_sequenceType.map _).bind hword
    · exact (Turns.pure _).bind hword

end Parser
end XPath
