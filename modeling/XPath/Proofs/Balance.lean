import XPath.Proofs.Brackets

/-!
The scanner and the parser agree on where an expression ends. Whatever the grammar reads is balanced: in
the end no bracket is open that was not open before. So the scanner comes to the terminator that the parser
has found, and there it waits for no bracket.
-/
namespace XPath

namespace OperatorLevel

theorem isPlain_of_operator? {bare : Prop} {level : OperatorLevel} {t : Token} {op : BinaryOp}
    (h : level.operator? t = some op) : t.IsPlain bare := by
  unfold operator? at h
  split at h <;> first | exact .of rfl | cases h

end OperatorLevel

theorem BindingKeyword.isPlain_of_ofToken? {bare : Prop} {t : Token} {k : BindingKeyword}
    (h : ofToken? t = Option.some k) : t.IsPlain bare := by
  unfold ofToken? at h
  split at h <;> first | exact .of rfl | cases h

namespace Parser
variable {α : Type} {s : ParseState} {p : Parser α} {opened : List Symbol}

theorem passes_typeOperators (e : Expr) : Passes False (typeOperators e) := fun opened => by
  have hsingle (op : AtomicType × Bool → UnaryOp) : Passes False (singleType >>= fun t => pure (op t)) := fun _ =>
    passes_singleType.bind fun _ => .pure _
  have hsequence (op : SequenceType → UnaryOp) : Passes False (sequenceType >>= fun t => pure (op t)) := fun _ =>
    passes_sequenceType.bind fun _ => .pure _
  refine (passes_typeOperator _ _ (hsingle _) e).bind fun e => ?_
  refine (passes_typeOperator _ _ (hsingle _) e).bind fun e => ?_
  refine (passes_typeOperator _ _ (hsequence _) e).bind fun e => ?_
  exact passes_typeOperator _ _ (hsequence _) e opened

theorem Turns.unwinding {opened opened' : List Symbol} {g : CompileUnit → CompileUnit}
    (h : Turns False opened p opened') : Turns False opened (unwinding g p) opened' := fun s c => .unwinding (h s c)

theorem Passes.inScope (h : Passes False p) : Passes False (inScope p) := fun opened s c => .inScope (h opened s c)

/-- What the functions of the grammar do with so much fuel. -/
structure IsBalanced (n : ℕ) : Prop where
  expr : Passes False (expr n)
  commaItems : Passes False (commaItems n)
  exprSingle : Passes False (exprSingle n)
  operators level : Passes False (operators n level)
  moreOperators level e : Passes False (moreOperators n level e)
  concatItems : Passes False (concatItems n)
  operand level : Passes False (operand n level)
  unary : Passes False (unary n)
  path : Passes False (path n)
  relativePath e sorted start : Passes False (relativePath n e sorted start)
  stepExpr : Passes False (stepExpr n)
  axisStep : Passes False (axisStep n)
  predicates e : Passes False (predicates n e)
  predicate e : Passes False (predicate n e)
  primary : Passes False (primary n)
  enclosed left right : Scan.closing? (.symbol left) = some right → Scan.isClosing (.symbol right) →
    Passes False (enclosed n left right)
  functionCall : Passes False (functionCall n)
  arguments opened : Turns False (.rightParen :: opened) (arguments n) opened
  conditional : Passes False (conditional n)
  /-- The keyword comes first. -/
  bindingExpr k s opened : (∃ t, s.tokens.first = some t ∧ t.IsPlain False) →
    TurnsFrom False s opened (bindingExpr n k) opened
  clauses k : Passes False (clauses n k)

namespace IsBalanced
variable {n : ℕ}

theorem zero : IsBalanced 0 where
  expr := .fails fails_tooDeep
  commaItems := .fails fails_tooDeep
  exprSingle := .fails fails_tooDeep
  operators _ := .fails fails_tooDeep
  moreOperators _ _ := .fails fails_tooDeep
  concatItems := .fails fails_tooDeep
  operand _ := .fails fails_tooDeep
  unary := .fails fails_tooDeep
  path := .fails fails_tooDeep
  relativePath _ _ _ := .fails fails_tooDeep
  stepExpr := .fails fails_tooDeep
  axisStep := .fails fails_tooDeep
  predicates _ := .fails fails_tooDeep
  predicate _ := .fails fails_tooDeep
  primary := .fails fails_tooDeep
  enclosed _ _ _ _ := .fails fails_tooDeep
  functionCall := .fails fails_tooDeep
  arguments _ := fails_tooDeep.turns
  conditional := .fails fails_tooDeep
  bindingExpr _ s _ _ := fails_tooDeep.turns s
  clauses _ := .fails fails_tooDeep

theorem expr_succ (h : IsBalanced n) : Passes False (Parser.expr (n + 1)) := by
  intro opened
  refine passes_location.bind fun at' => h.exprSingle.bind fun first => ?_
  refine (looks_checkSymbol _).passes.bind fun _ => .ite ?_ (.pure _)
  exact h.commaItems.bind fun more => .pure _

theorem commaItems_succ (h : IsBalanced n) : Passes False (Parser.commaItems (n + 1)) := by
  intro opened
  refine (passes_eatSymbol (.of (by rfl))).bind fun _ => .ite ?_ (.pure _)
  exact h.exprSingle.bind fun e => h.commaItems.bind fun es => .pure _

theorem exprSingle_succ (h : IsBalanced n) : Passes False (Parser.exprSingle (n + 1)) := by
  intro opened
  have hoperators : Turns False opened (do
        if (← checkName "if") && (← checkNthSymbol 1 .leftParen) then return ← Parser.conditional n
        Parser.operators n .or) opened := by
    refine (looks_checkName _).passes.bind fun _ => (looks_checkNthSymbol _ _).passes.bind fun _ => ?_
    exact .ite (h.conditional opened) (h.operators _ opened)
  refine (looks_checkNthSymbol _ _).passes.bind fun _ => .ite ?_ hoperators
  intro s
  refine .peek ?_
  dsimp only
  split
  · next k hk =>
    obtain ⟨t, ht, hk⟩ := Option.bind_eq_some_iff.1 hk
    exact h.bindingExpr k s opened ⟨t, ht, BindingKeyword.isPlain_of_ofToken? hk⟩
  · exact hoperators s

theorem operators_succ (h : IsBalanced n) (level : OperatorLevel) : Passes False (Parser.operators (n + 1) level) := by
  intro opened
  refine (h.operand level).bind fun left => ?_
  split
  · refine (looks_checkSymbol _).passes.bind fun _ => .ite (passes_location.bind fun at' => ?_) (.pure _)
    exact h.concatItems.bind fun more => .pure _
  · exact h.moreOperators level left opened

theorem moreOperators_succ (h : IsBalanced n) (level : OperatorLevel) (e : Expr) :
    Passes False (Parser.moreOperators (n + 1) level e) := by
  intro opened s
  refine .peek ?_
  split
  · exact Turns.pure _ s
  · next op hop =>
    obtain ⟨t, ht, hop⟩ := Option.bind_eq_some_iff.1 hop
    refine .location fun at' s₁ hsame => ?_
    rw [← hsame] at ht
    refine .advance ht (OperatorLevel.isPlain_of_operator? hop) fun s₂ _ => ?_
    refine (h.operand level).bind (fun right => ?_) s₂
    exact .ite (.pure _) (h.moreOperators level _ opened)

theorem concatItems_succ (h : IsBalanced n) : Passes False (Parser.concatItems (n + 1)) := by
  intro opened
  refine (passes_eatSymbol (.of (by rfl))).bind fun _ => .ite ?_ (.pure _)
  exact (h.operand _).bind fun e => h.concatItems.bind fun es => .pure _

theorem operand_succ (h : IsBalanced n) (level : OperatorLevel) : Passes False (Parser.operand (n + 1) level) := by
  intro opened
  unfold Parser.operand
  split
  · next tighter _ => exact h.operators tighter opened
  · exact h.unary.bind fun e => passes_typeOperators e opened

theorem unary_succ (h : IsBalanced n) : Passes False (Parser.unary (n + 1)) := fun _ =>
  passes_location.bind fun _ => looks_get.passes.bind fun _ => (passes_signs _ _ _).bind fun _ =>
    h.path.bind fun _ => .pure _

theorem path_succ (h : IsBalanced n) : Passes False (Parser.path (n + 1)) := by
  intro opened
  refine passes_location.bind fun at' => (passes_eatSymbol (.of (by rfl))).bind fun _ => .ite ?_ ?_
  · refine looks_startsStep.passes.bind fun _ => .ite (.pure _) ?_
    exact h.stepExpr.bind fun step => h.relativePath _ _ _ opened
  · refine (passes_eatSymbol (.of (by rfl))).bind fun _ => .ite ?_ ?_
    · exact h.stepExpr.bind fun step => h.relativePath _ _ _ opened
    · exact h.stepExpr.bind fun first => h.relativePath _ _ _ opened

theorem relativePath_succ (h : IsBalanced n) (e : Expr) (sorted : Bool) (start : LocationId) :
    Passes False (Parser.relativePath (n + 1) e sorted start) := by
  intro opened
  refine passes_location.bind fun at' => (passes_eatSymbol (.of (by rfl))).bind fun _ => .ite ?_ ?_
  · exact h.stepExpr.bind fun step => h.relativePath _ _ _ opened
  · refine (passes_eatSymbol (.of (by rfl))).bind fun _ => .ite ?_ (.pure _)
    exact h.stepExpr.bind fun step => h.relativePath _ _ _ opened

theorem stepExpr_succ (h : IsBalanced n) : Passes False (Parser.stepExpr (n + 1)) := fun opened =>
  looks_startsAxisStep.passes.bind fun _ => .ite (h.axisStep opened) (h.primary.bind fun e => h.predicates e opened)

theorem axisStep_succ (h : IsBalanced n) : Passes False (Parser.axisStep (n + 1)) := fun _ =>
  passes_location.bind fun _ => (passes_axisAndTest passes_nodeTest).bind fun _ =>
    (h.predicates _).bind fun _ => .pure _

theorem predicates_succ (h : IsBalanced n) (e : Expr) : Passes False (Parser.predicates (n + 1) e) := by
  intro opened
  refine (looks_checkSymbol _).passes.bind fun _ => .ite ?_ (.pure _)
  exact (h.predicate e).bind fun e => h.predicates e opened

theorem predicate_succ (h : IsBalanced n) (e : Expr) : Passes False (Parser.predicate (n + 1) e) := fun _ =>
  passes_location.bind fun _ => (turns_expectOpen rfl).bind fun _ => h.expr.bind fun _ =>
    (turns_expectClose rfl).bind fun _ => .pure _

theorem primary_succ (h : IsBalanced n) : Passes False (Parser.primary (n + 1)) := by
  intro opened
  refine passes_location.bind fun at' s => ?_
  have hcall : TurnsFrom False s opened (do
        if (← checkQName) && (← checkNthSymbol 1 .leftParen) then Parser.functionCall n
        else expected "an expression") opened := by
    refine (looks_checkQName.passes.bind fun _ => (looks_checkNthSymbol _ _).passes.bind fun _ => ?_) s
    exact .ite (h.functionCall opened) (fails_expected _).turns
  refine .peek ?_
  split
  · next hfirst => exact .advance hfirst (.of rfl) fun s₁ _ => Turns.pure _ s₁
  · next hfirst => exact .advance hfirst (.of rfl) fun s₁ _ => Turns.pure _ s₁
  · next hfirst => exact .advance hfirst (.of rfl) fun s₁ _ => Turns.pure _ s₁
  · next hfirst => exact .advance hfirst (.of rfl) fun s₁ _ => Turns.pure _ s₁
  · exact passes_variableRef opened s
  · exact h.enclosed _ _ rfl rfl opened s
  · next hfirst => exact .advance hfirst (.of rfl) fun s₁ _ => Turns.pure _ s₁
  · next name hfirst =>
    refine .look (looks_checkNthQName _) fun _ => .look (looks_checkNthSymbol _ _) fun _ =>
      .ite (fun _ => ?_) fun _ => ?_
    · refine .advance hfirst (Token.isPlain_name name) fun s₁ _ => (passes_qname _).bind (fun r => ?_) s₁
      exact (h.enclosed _ _ rfl rfl).bind fun e => .pure _
    · refine .look (looks_checkNthSymbol _ _) fun _ => .ite (fun _ => ?_) fun _ => hcall
      refine .advance hfirst (Token.isPlain_name name) fun s₁ _ => ?_
      exact (h.enclosed _ _ rfl rfl).bind (fun e => .pure _) s₁
  · exact hcall

theorem enclosed_succ (h : IsBalanced n) (left right : Symbol) (hopen : Scan.closing? (.symbol left) = some right)
    (hclose : Scan.isClosing (.symbol right)) : Passes False (Parser.enclosed (n + 1) left right) := by
  intro opened
  refine passes_location.bind fun at' => (turns_expectOpen hopen).bind fun _ => .eatClose hclose (.pure _) ?_
  exact h.expr.bind fun e => (turns_expectClose hclose).bind fun _ => .pure _

theorem functionCall_succ (h : IsBalanced n) : Passes False (Parser.functionCall (n + 1)) := by
  intro opened
  refine passes_location.bind fun at' => (passes_qname _).bind fun r => (turns_expectOpen rfl).bind fun _ => ?_
  refine .eatClose rfl ?_ ?_
  · exact (Turns.pure _).bind fun args => passes_applyFunction _ _ args _ opened
  · exact (h.arguments opened).bind fun args => passes_applyFunction _ _ args _ opened

theorem arguments_succ (h : IsBalanced n) (opened : List Symbol) :
    Turns False (.rightParen :: opened) (Parser.arguments (n + 1)) opened := by
  refine h.exprSingle.bind fun e => .eatClose rfl (.pure _) ?_
  exact (passes_expectSymbol (.of (by rfl))).bind fun _ => (h.arguments opened).bind fun es => .pure _

theorem conditional_succ (h : IsBalanced n) : Passes False (Parser.conditional (n + 1)) := by
  intro opened
  refine passes_location.bind fun at' => (passes_expectName _).bind fun _ => (turns_expectOpen rfl).bind fun _ => ?_
  refine h.expr.bind fun condition => (turns_expectClose rfl).bind fun _ => (passes_expectName _).bind fun _ => ?_
  refine h.exprSingle.bind fun yes => (passes_expectName _).bind fun _ => ?_
  exact h.exprSingle.bind fun no => .pure _

theorem bindingExpr_succ (h : IsBalanced n) (k : BindingKeyword) (s : ParseState) (opened : List Symbol)
    (hfirst : ∃ t, s.tokens.first = some t ∧ t.IsPlain False) :
    TurnsFrom False s opened (Parser.bindingExpr (n + 1) k) opened := by
  obtain ⟨t, ht, hplain⟩ := hfirst
  refine .advance ht hplain fun s₁ _ => ?_
  exact (h.clauses k).inScope.bind (fun r => .pure _) s₁

theorem clauses_succ (h : IsBalanced n) (k : BindingKeyword) : Passes False (Parser.clauses (n + 1) k) := by
  intro opened
  refine passes_location.bind fun at' => (passes_clauseHead k).bind fun r => h.exprSingle.bind fun source => ?_
  refine (passes_declare _ _).bind fun slot => Turns.unwinding ?_
  refine (passes_eatSymbol (.of (by rfl))).bind fun _ => .ite ?_ ?_
  · exact (h.clauses k).bind fun r => .pure _
  · exact (passes_expectName _).bind fun _ => h.exprSingle.bind fun body => .pure _

theorem succ (h : IsBalanced n) : IsBalanced (n + 1) where
  expr := h.expr_succ
  commaItems := h.commaItems_succ
  exprSingle := h.exprSingle_succ
  operators := h.operators_succ
  moreOperators := h.moreOperators_succ
  concatItems := h.concatItems_succ
  operand := h.operand_succ
  unary := h.unary_succ
  path := h.path_succ
  relativePath := h.relativePath_succ
  stepExpr := h.stepExpr_succ
  axisStep := h.axisStep_succ
  predicates := h.predicates_succ
  predicate := h.predicate_succ
  primary := h.primary_succ
  enclosed := h.enclosed_succ
  functionCall := h.functionCall_succ
  arguments := h.arguments_succ
  conditional := h.conditional_succ
  bindingExpr := h.bindingExpr_succ
  clauses := h.clauses_succ

/-- However much fuel there is. -/
theorem all (n : ℕ) : IsBalanced n := by
  induction n with
  | zero => exact zero
  | succ n ih => exact ih.succ

end IsBalanced

/-- Nothing is left where the end has been expected. -/
theorem ensures_expectEnd {c : ParseContext} : Ensures c (expectTerminator .endOfInput) s fun _ s' =>
    s' = s ∧ s.tokens.lexemes = [] := by
  refine .bind (ensures_peek.imp fun o s₁ hpeek => ?_)
  obtain ⟨rfl, rfl⟩ := hpeek
  refine .ite (fun _ => ?_) fun hnone => .pure ⟨rfl, ?_⟩
  · exact (Fails.bind looks_describeCurrent fun _ => fails_syntaxError _).ensures
  · rw [TokenStream.first, Option.isSome_map] at hnone
    simpa using hnone

end Parser

open XPath.Parser Scan

/-! Where the scanner stops. -/

namespace Scan

theorem walk_brace {read rest : List Lexeme} {brace : Lexeme} (finish : Place) (h : Leads [] read [])
    (hbrace : brace.token = .symbol .rightBrace) :
    walk .rightBrace finish [] (read ++ brace :: rest) = .ok brace.place.offset := by
  have hread := h .rightBrace finish [] (brace :: rest)
  rw [List.append_nil] at hread
  rw [hread, walk.eq_def]
  simp [hbrace, closing?, isClosing]

theorem walk_end {read : List Lexeme} (finish : Place) (h : Leads [] read []) :
    walk .endOfInput finish [] read = .ok finish.offset := by
  have hread := h .endOfInput finish [] []
  rw [List.append_nil, List.append_nil] at hread
  rw [hread, walk.eq_def]
  rfl

end Scan

namespace Place

theorem splitAtOffset_append (n : ℕ) (cs : List Char) : (splitAtOffset n cs).1 ++ (splitAtOffset n cs).2 = cs := by
  induction cs generalizing n with
  | nil => rfl
  | cons c cs ih =>
    unfold splitAtOffset
    split
    · rfl
    · exact congrArg (c :: ·) (ih _)

end Place

theorem TokenStream.offset_finish (text : String) (start line : ℕ) :
    (ofSource text.toList start line).finish.offset = text.utf8ByteSize := by
  unfold ofSource
  dsimp only
  rw [Place.offset_after, Place.offset_start, ← String.utf8Len_append, Place.splitAtOffset_append,
    ← String.utf8ByteSize_ofList, String.ofList_toList]

namespace Expr

/-- Reads an expression with its terminator. -/
def reader (terminator : Terminator) : Parser Expr := inScope do
  let e ← Parser.expr (← fuel)
  expectTerminator terminator
  return e

theorem parse_eq_run (text : String) (start : ℕ) (terminator : Terminator) (line : ℕ) (context : StaticContext)
    (unit : CompileUnit) : parse text start terminator line context unit =
      (reader terminator).run context .expression text start line unit := rfl

/-- The tokens that reading an expression leaves. -/
def unread (text : String) (start : Nat) (terminator : Terminator) (line : Nat) (context : StaticContext)
    (unit : CompileUnit) : List Lexeme :=
  ((reader terminator).finalState context .expression text start line unit).tokens.lexemes

/-- The tokens before a right brace. -/
theorem ensures_reader_brace (c : ParseContext) (s : ParseState) : Ensures c (reader .rightBrace) s fun _ s' =>
    ∃ read brace, s.tokens.lexemes = read ++ brace :: s'.tokens.lexemes ∧ brace.token = .symbol .rightBrace ∧
      Leads [] read [] := by
  refine .inScope (looks_fuel.then_ fun n s₁ hs => ?_)
  subst hs
  refine .bind (((IsBalanced.all n).expr [] s c).imp fun e s₂ hwalks => ?_)
  refine .bind ((ensures_expectSymbol_first _).imp fun _ s₃ hs => .pure ?_)
  obtain ⟨read, hread, hleads, -⟩ := hwalks.read
  obtain ⟨brace, hbrace, hrest⟩ := TokenStream.exists_of_first hs.1
  exact ⟨read, brace, by rw [hread, hrest, hs.2]; rfl, hbrace, hleads⟩

/-- All tokens, if nothing may follow. -/
theorem ensures_reader_end (c : ParseContext) (s : ParseState) : Ensures c (reader .endOfInput) s fun _ _ =>
    Leads [] s.tokens.lexemes [] := by
  refine .inScope (looks_fuel.then_ fun n s₁ hs => ?_)
  subst hs
  refine .bind (((IsBalanced.all n).expr [] s c).imp fun e s₂ hwalks => ?_)
  obtain ⟨read, hread, hleads, -⟩ := hwalks.read
  refine .bind (ensures_expectEnd.imp fun _ s₃ hend => .pure ?_)
  rwa [hread, hend.2, List.append_nil]

theorem exists_of_isOk {r : Except StaticError Expr} (h : r.isOk) : ∃ e, r = .ok e := by
  cases r with
  | ok e => exact ⟨e, rfl⟩
  | error _ => cases h

/-- Where an expression is read up to a right brace, the scanner finds this brace, and where one is read up to
the end, it finds the end. -/
theorem scan_of_parse (text : String) (start line : ℕ) (context : StaticContext) (unit : CompileUnit) :
    (∀ e, (parse text start .rightBrace line context unit).1 = .ok e →
      ∃ read brace, (TokenStream.ofSource text.toList start line).lexemes =
          read ++ brace :: unread text start .rightBrace line context unit ∧
        brace.token = .symbol .rightBrace ∧ scan text start .rightBrace line = .ok brace.place.offset) ∧
    ∀ e, (parse text start .endOfInput line context unit).1 = .ok e →
      scan text start .endOfInput line = .ok text.utf8ByteSize := by
  refine ⟨fun e h => ?_, fun e h => ?_⟩
  · rw [parse_eq_run] at h
    obtain ⟨read, brace, htokens, hbrace, hleads⟩ := (ensures_reader_brace _ _).of_run h
    refine ⟨read, brace, htokens, hbrace, ?_⟩
    unfold scan
    dsimp only
    rw [htokens]
    exact walk_brace _ hleads hbrace
  · rw [parse_eq_run] at h
    have hleads := (ensures_reader_end _ _).of_run h
    rw [← TokenStream.offset_finish text start line]
    exact walk_end _ hleads

/-- An expression with brackets in it that a brace ends, and one that goes to the end. -/
theorem scan_of_parse_brackets : let text := "text\x7b(a[1], '\x7d')\x7d(: \x7d :)\x7d, b"
    (∃ read brace, (TokenStream.ofSource text.toList 0 1).lexemes =
        read ++ brace :: unread text 0 .rightBrace 1 {} {} ∧
      brace.token = .symbol .rightBrace ∧ scan text 0 .rightBrace 1 = .ok brace.place.offset) ∧
    scan "a[(1)]" 0 .endOfInput 1 = .ok "a[(1)]".utf8ByteSize := by
  intro text
  obtain ⟨hbrace, -⟩ := scan_of_parse text 0 1 {} {}
  obtain ⟨-, hend⟩ := scan_of_parse "a[(1)]" 0 1 {} {}
  refine ⟨?_, ?_⟩
  · obtain ⟨e, he⟩ := exists_of_isOk (r := (parse text 0 .rightBrace 1 {} {}).1) (by decide +kernel)
    exact hbrace e he
  · obtain ⟨e, he⟩ := exists_of_isOk (r := (parse "a[(1)]" 0 .endOfInput 1 {} {}).1) (by decide +kernel)
    exact hend e he

end Expr
end XPath
