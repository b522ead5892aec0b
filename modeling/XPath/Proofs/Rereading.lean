import XPath.Proofs.Repeating
import XPath.Proofs.Naming

/-!
Expressions are read again as they were read. With as much fuel or more, the functions of the grammar repeat what they
have given before a right brace; so what is read to the end of a text is read inside a value template as well.
-/
namespace XPath

namespace Pairing
variable {m : Pairing} {a a' b b' c c' : Expr} {es : List Expr} {at₁ at₂ : LocationId}

theorem allAlike_nil : m.AllAlike [] [] := rfl

theorem alike_leaf (op : LeafOp) (h : op.relabel m.label = op.relabel m.label') :
    m.Alike (.mkLeaf op at₁) (.mkLeaf op at₂) := congrArg (Expr.mkLeaf · 0) h

theorem Alike.binary (op op' : BinaryOp) (hop : op.relabel m.label = op'.relabel m.label') (ha : m.Alike a a')
    (hb : m.Alike b b') : m.Alike (.mkBinary op a b at₁) (.mkBinary op' a' b' at₂) := by
  unfold Alike
  rw [Expr.relabel_mkBinary, Expr.relabel_mkBinary, hop, ha, hb]

theorem Alike.ternary (op : TernaryOp) (ha : m.Alike a a') (hb : m.Alike b b') (hc : m.Alike c c') :
    m.Alike (.mkTernary op a b c at₁) (.mkTernary op a' b' c' at₂) := by
  unfold Alike
  rw [Expr.relabel_mkTernary, Expr.relabel_mkTernary, ha, hb, hc]

theorem Alike.sortedPath (ha : m.Alike a a') : m.Alike a.sortedPath a'.sortedPath := by
  unfold Alike
  rw [Expr.relabel_sortedPath, Expr.relabel_sortedPath, ha]

theorem Alike.descendantOrSelf (ha : m.Alike a a') : m.Alike (a.descendantOrSelf at₁) (a'.descendantOrSelf at₂) := by
  unfold Alike
  rw [Expr.relabel_descendantOrSelf, Expr.relabel_descendantOrSelf, ha]

theorem Alike.pathStep (ha : m.Alike a a') (hb : m.Alike b b') :
    m.Alike (a.pathStep b at₁) (a'.pathStep b' at₂) := by
  unfold Alike
  rw [Expr.relabel_pathStep, Expr.relabel_pathStep, ha, hb]

theorem Alike.applySigns (signed negative : Bool) (ha : m.Alike a a') :
    m.Alike (Parser.applySigns signed negative a at₁) (Parser.applySigns signed negative a' at₂) := by
  unfold Alike
  rw [Expr.relabel_applySigns, Expr.relabel_applySigns, ha]

end Pairing

namespace Parser
variable {m : Pairing} {n n' : ℕ} {e e' : Expr}

/-- What the functions of the grammar with so much fuel have given, they give with the other fuel. -/
structure IsRepeating (m : Pairing) (n n' : ℕ) : Prop where
  expr : Repeats m m.Alike (expr n) (expr n')
  commaItems : Repeats m m.AllAlike (commaItems n) (commaItems n')
  exprSingle : Repeats m m.Alike (exprSingle n) (exprSingle n')
  operators level : Repeats m m.Alike (operators n level) (operators n' level)
  moreOperators (level : OperatorLevel) {e e' : Expr} : m.Alike e e' →
    Repeats m m.Alike (moreOperators n level e) (moreOperators n' level e')
  concatItems : Repeats m m.AllAlike (concatItems n) (concatItems n')
  operand level : Repeats m m.Alike (operand n level) (operand n' level)
  unary : Repeats m m.Alike (unary n) (unary n')
  path : Repeats m m.Alike (path n) (path n')
  relativePath (sorted : Bool) (at₁ at₂ : LocationId) {e e' : Expr} : m.Alike e e' →
    Repeats m m.Alike (relativePath n e sorted at₁) (relativePath n' e' sorted at₂)
  stepExpr : Repeats m m.Alike (stepExpr n) (stepExpr n')
  axisStep : Repeats m m.Alike (axisStep n) (axisStep n')
  predicates {e e' : Expr} : m.Alike e e' → Repeats m m.Alike (predicates n e) (predicates n' e')
  predicate {e e' : Expr} : m.Alike e e' → Repeats m m.Alike (predicate n e) (predicate n' e')
  primary : Repeats m m.Alike (primary n) (primary n')
  enclosed left right : Repeats m m.Alike (enclosed n left right) (enclosed n' left right)
  functionCall : Repeats m m.Alike (functionCall n) (functionCall n')
  arguments : Repeats m m.AllAlike (arguments n) (arguments n')
  conditional : Repeats m m.Alike (conditional n) (conditional n')
  /-- The keyword comes first. -/
  bindingExpr (k : BindingKeyword) {s t : ParseState} :
    s.tokens.lexemes ≠ [] → RepeatsFrom m s t m.Alike (bindingExpr n k) (bindingExpr n' k)
  clauses k : Repeats m (fun r r' => m.Alike (BindingClause.wrap k r.1 r.2) (BindingClause.wrap k r'.1 r'.2))
    (clauses n k) (clauses n' k)

namespace IsRepeating

theorem zero (m : Pairing) (n' : ℕ) : IsRepeating m 0 n' where
  expr := .fails fails_tooDeep
  commaItems := .fails fails_tooDeep
  exprSingle := .fails fails_tooDeep
  operators _ := .fails fails_tooDeep
  moreOperators _ _ _ _ := .fails fails_tooDeep
  concatItems := .fails fails_tooDeep
  operand _ := .fails fails_tooDeep
  unary := .fails fails_tooDeep
  path := .fails fails_tooDeep
  relativePath _ _ _ _ _ _ := .fails fails_tooDeep
  stepExpr := .fails fails_tooDeep
  axisStep := .fails fails_tooDeep
  predicates _ := .fails fails_tooDeep
  predicate _ := .fails fails_tooDeep
  primary := .fails fails_tooDeep
  enclosed _ _ := .fails fails_tooDeep
  functionCall := .fails fails_tooDeep
  arguments := .fails fails_tooDeep
  conditional := .fails fails_tooDeep
  bindingExpr _ _ _ _ := .fails fails_tooDeep
  clauses _ := .fails fails_tooDeep

theorem expr_succ (h : IsRepeating m n n') : Repeats m m.Alike (Parser.expr (n + 1)) (Parser.expr (n' + 1)) := by
  refine repeats_location.bind fun at₁ at₂ _ => h.exprSingle.bind fun e e' he s t => ?_
  refine .check (by simp) fun _ _ => .ite (fun _ => ?_) fun _ => .pure he
  exact (h.commaItems s t).bind fun es es' hes => .pure ((he.cons hes).mkNary _ _ _)

theorem commaItems_succ (h : IsRepeating m n n') :
    Repeats m m.AllAlike (Parser.commaItems (n + 1)) (Parser.commaItems (n' + 1)) := by
  refine (repeats_eatSymbol (x := .comma) (by simp)).next fun _ => .ite ?_ (.pure Pairing.allAlike_nil)
  exact h.exprSingle.bind fun e e' he => h.commaItems.bind fun es es' hes => .pure (he.cons hes)

theorem exprSingle_succ (h : IsRepeating m n n') :
    Repeats m m.Alike (Parser.exprSingle (n + 1)) (Parser.exprSingle (n' + 1)) := by
  intro s t
  have hoperators : RepeatsFrom m s t m.Alike (do
        if (← checkName "if") && (← checkNthSymbol 1 .leftParen) then return ← Parser.conditional n
        Parser.operators n .or) (do
        if (← checkName "if") && (← checkNthSymbol 1 .leftParen) then return ← Parser.conditional n'
        Parser.operators n' .or) :=
    .both (by simp) (by simp) (fun _ _ => h.conditional s t) (h.operators _ s t)
  refine .given fun hbeside => ?_
  by_cases hs : s.tokens.lexemes = []
  · -- Whatever stands behind the brace, the brace is no keyword.
    have hsecond : s.nth 1 = none := by simp [ParseState.nth, hs]
    refine .look (fun c => rfl) (fun c => rfl) (a := s.nth 1 == some (.symbol .dollar))
      (b := t.nth 1 == some (.symbol .dollar)) ?_
    rw [hsecond]
    cases t.nth 1 == some (Token.symbol .dollar) with
    | false => exact hoperators
    | true =>
      refine .lookRight (run_peek · t) ?_
      rw [hbeside.nth_of_nil hs]
      exact hoperators
  · refine .checkNth (List.length_pos_iff.2 hs) (by simp) fun _ _ => .ite (fun _ => ?_) fun _ => hoperators
    refine .peek (fun k hk => ?_) fun hnone => ?_
    · dsimp only
      split
      · exact h.bindingExpr _ hs
      · exact hoperators
    · exact hoperators

theorem operators_succ (h : IsRepeating m n n') (level : OperatorLevel) :
    Repeats m m.Alike (Parser.operators (n + 1) level) (Parser.operators (n' + 1) level) := by
  refine (h.operand level).bind fun e e' he => ?_
  split
  · refine fun s t => .check (by simp) fun _ _ => .ite (fun _ => ?_) fun _ => .pure he
    refine .location fun at₁ at₂ s t _ => ?_
    exact (h.concatItems s t).bind fun es es' hes => .pure ((he.cons hes).mkNary _ _ _)
  · exact h.moreOperators level he

theorem moreOperators_succ (h : IsRepeating m n n') (level : OperatorLevel) (he : m.Alike e e') :
    Repeats m m.Alike (Parser.moreOperators (n + 1) level e) (Parser.moreOperators (n' + 1) level e') := by
  intro s t
  refine .peek (fun k hk => ?_) fun _ => ?_
  · split
    · exact .pure he
    · next op hop =>
      have hslot := IsReading.slot?_of_operator? hop
      have hsame : op.relabel m.label = op.relabel m.label' := by
        rw [BinaryOp.relabel_eq _ hslot, BinaryOp.relabel_eq _ hslot]
      refine .location fun at₁ at₂ s₁ t₁ hs => .advance (hs ▸ ParseState.ne_nil hk) fun s₂ t₂ _ => ?_
      refine (h.operand level s₂ t₂).bind fun f f' hf => .ite (.pure (.binary _ _ hsame he hf)) ?_
      exact h.moreOperators level (.binary _ _ hsame he hf)
  · have hbrace : level.operator? (.symbol .rightBrace) = none := by cases level <;> rfl
    rw [Option.bind_some, hbrace]
    exact .pure he

theorem concatItems_succ (h : IsRepeating m n n') :
    Repeats m m.AllAlike (Parser.concatItems (n + 1)) (Parser.concatItems (n' + 1)) := by
  refine (repeats_eatSymbol (x := .doublePipe) (by simp)).next fun _ => .ite ?_ (.pure Pairing.allAlike_nil)
  exact (h.operand _).bind fun e e' he => h.concatItems.bind fun es es' hes => .pure (he.cons hes)

theorem operand_succ (h : IsRepeating m n n') (level : OperatorLevel) :
    Repeats m m.Alike (Parser.operand (n + 1) level) (Parser.operand (n' + 1) level) := by
  unfold Parser.operand
  split
  · next tighter _ => exact h.operators tighter
  · exact h.unary.bind fun e e' he => repeats_typeOperators he

theorem unary_succ (h : IsRepeating m n n') : Repeats m m.Alike (Parser.unary (n + 1)) (Parser.unary (n' + 1)) := by
  intro s t
  refine .location fun at₁ at₂ s t _ => .given fun hbeside => .look (fun c => rfl) (fun c => rfl) ?_
  have hlength := congrArg List.length hbeside.written
  simp only [ParseState.written, List.length_map, List.length_append] at hlength
  refine .next (repeats_signs le_rfl (by omega) false false) fun signs => ?_
  exact h.path.bind fun e e' he => .pure (he.applySigns _ _)

theorem path_succ (h : IsRepeating m n n') : Repeats m m.Alike (Parser.path (n + 1)) (Parser.path (n' + 1)) := by
  refine repeats_location.bind fun at₁ at₂ _ => ?_
  have hroot : m.Alike (.mkLeaf .root at₁) (.mkLeaf .root at₂) := Pairing.alike_leaf _ rfl
  refine (repeats_eatSymbol (x := .slash) (by simp)).next fun _ => .ite ?_ ?_
  · refine repeats_startsStep.next fun _ => .ite (.pure hroot) ?_
    exact h.stepExpr.bind fun e e' he => h.relativePath _ _ _ (.binary _ _ rfl hroot he)
  · refine (repeats_eatSymbol (x := .doubleSlash) (by simp)).next fun _ => .ite ?_ ?_
    · exact h.stepExpr.bind fun e e' he => h.relativePath _ _ _ (.pathStep (.descendantOrSelf hroot) he)
    · exact h.stepExpr.bind fun e e' he => h.relativePath _ _ _ he

theorem relativePath_succ (h : IsRepeating m n n') (sorted : Bool) (at₁ at₂ : LocationId) (he : m.Alike e e') :
    Repeats m m.Alike (Parser.relativePath (n + 1) e sorted at₁) (Parser.relativePath (n' + 1) e' sorted at₂) := by
  refine repeats_location.bind fun at₃ at₄ _ => (repeats_eatSymbol (x := .slash) (by simp)).next fun _ => .ite ?_ ?_
  · exact h.stepExpr.bind fun f f' hf => h.relativePath _ _ _ (he.pathStep hf)
  · refine (repeats_eatSymbol (x := .doubleSlash) (by simp)).next fun _ => .ite ?_ (.pure ?_)
    · exact h.stepExpr.bind fun f f' hf => h.relativePath _ _ _ (he.sortedPath.descendantOrSelf.pathStep hf)
    · split
      · exact he.mkUnary _ _ _
      · exact he

theorem stepExpr_succ (h : IsRepeating m n n') :
    Repeats m m.Alike (Parser.stepExpr (n + 1)) (Parser.stepExpr (n' + 1)) := by
  refine repeats_startsAxisStep.next fun _ => .ite h.axisStep ?_
  exact h.primary.bind fun e e' he => h.predicates he

theorem axisStep_succ (h : IsRepeating m n n') :
    Repeats m m.Alike (Parser.axisStep (n + 1)) (Parser.axisStep (n' + 1)) := by
  refine repeats_location.bind fun at₁ at₂ _ => repeats_axisAndTest.next fun r => ?_
  obtain ⟨axis, test⟩ := r
  refine (h.predicates (Pairing.alike_leaf _ rfl)).bind fun e e' he => .pure ?_
  split
  · exact he.mkUnary _ _ _
  · exact he

theorem predicates_succ (h : IsRepeating m n n') (he : m.Alike e e') :
    Repeats m m.Alike (Parser.predicates (n + 1) e) (Parser.predicates (n' + 1) e') := by
  refine fun s t => .check (by simp) fun _ _ => .ite (fun _ => ?_) fun _ => .pure he
  exact (h.predicate he s t).bind fun f f' hf => h.predicates hf

theorem predicate_succ (h : IsRepeating m n n') (he : m.Alike e e') :
    Repeats m m.Alike (Parser.predicate (n + 1) e) (Parser.predicate (n' + 1) e') := by
  refine repeats_location.bind fun at₁ at₂ _ => (repeats_expectSymbol _).next fun _ => ?_
  exact h.expr.bind fun p p' hp => (repeats_expectSymbol _).next fun _ => .pure (.binary _ _ rfl he hp)

/-- What is neither a constant nor in brackets has to be a call. -/
theorem call_repeated (h : IsRepeating m n n') : Repeats m m.Alike (do
      if (← checkQName) && (← checkNthSymbol 1 .leftParen) then Parser.functionCall n
      else expected "an expression") (do
      if (← checkQName) && (← checkNthSymbol 1 .leftParen) then Parser.functionCall n'
      else expected "an expression") := by
  refine fun s t => .checkQName fun found hfound => ?_
  cases found with
  | false => exact .look (fun c => rfl) (fun c => rfl) (.fails (fails_expected _))
  | true =>
    obtain ⟨k, hk⟩ := Option.ne_none_iff_exists'.1 (hfound rfl)
    refine .checkNth (ParseState.lt_of_nth hk) (by simp) fun _ _ => ?_
    exact .ite (fun _ => h.functionCall s t) fun _ => .fails (fails_expected _)

/-- A text constructor, or else a call. -/
theorem text_repeated (h : IsRepeating m n n') {s t : ParseState} {k : Token} (hk : s.nth 0 = some k) (name : String)
    (at₁ at₂ : LocationId) : RepeatsFrom m s t m.Alike (do
      if name == "text" && (← checkNthSymbol 1 .leftBrace) then
        advance
        return .mkUnary .text (← Parser.enclosed n .leftBrace .rightBrace) at₁
      else if (← checkQName) && (← checkNthSymbol 1 .leftParen) then Parser.functionCall n
      else expected "an expression") (do
      if name == "text" && (← checkNthSymbol 1 .leftBrace) then
        advance
        return .mkUnary .text (← Parser.enclosed n' .leftBrace .rightBrace) at₂
      else if (← checkQName) && (← checkNthSymbol 1 .leftParen) then Parser.functionCall n'
      else expected "an expression") := by
  refine .checkNth (ParseState.lt_of_nth hk) (by simp) fun _ _ => .ite (fun _ => ?_) fun _ => h.call_repeated s t
  refine .advance (ParseState.ne_nil hk) fun s t _ => ?_
  exact (h.enclosed _ _ s t).bind fun e e' he => .pure (he.mkUnary _ _ _)

theorem primary_succ (h : IsRepeating m n n') :
    Repeats m m.Alike (Parser.primary (n + 1)) (Parser.primary (n' + 1)) := by
  refine repeats_location.bind fun at₁ at₂ _ s t => ?_
  refine .peek (fun k hk => ?_) fun hnone => h.call_repeated s t
  have hs := ParseState.ne_nil hk
  have hconstant (constant : Constant) :
      RepeatsFrom m s t m.Alike (advance >>= fun _ => pure (Expr.constantAt constant at₁))
        (advance >>= fun _ => pure (Expr.constantAt constant at₂)) :=
    .advance hs fun _ _ _ => .pure rfl
  dsimp only
  split
  · exact hconstant _
  · exact hconstant _
  · exact hconstant _
  · exact hconstant _
  · exact repeats_variableRef s t
  · exact h.enclosed _ _ s t
  · exact .advance hs fun _ _ _ => .pure rfl
  · next name _ =>
    refine .checkNthQName (ParseState.lt_of_nth hk) fun qualified hqualified => ?_
    cases qualified with
    | false =>
      refine .look (fun c => rfl) (fun c => rfl) ?_
      simp only [Bool.and_false, Bool.false_and, Bool.false_eq_true, if_false]
      exact h.text_repeated hk name at₁ at₂
    | true =>
      obtain ⟨k', hk'⟩ := Option.ne_none_iff_exists'.1 (hqualified rfl)
      refine .checkNth (ParseState.lt_of_nth hk') (by simp) fun _ _ => .ite (fun _ => ?_) fun _ => ?_
      · refine .advance hs fun s t _ => (repeats_qname _ s t).bind fun r r' hr => ?_
        refine (h.enclosed _ _).bind fun e e' he => .pure ?_
        rw [hr]
        exact he.mkUnary _ _ _
      · exact h.text_repeated hk name at₁ at₂
  · exact h.call_repeated s t

/-- At the end of a text no bracket is closed. -/
theorem never_enclosed {c : ParseContext} {s : ParseState} {right : Symbol} {at' : LocationId}
    (hs : s.tokens.lexemes = []) : Ensures c (do
      if ← eatSymbol right then return Expr.emptyAt at'
      let e ← Parser.expr n
      expectSymbol right
      return e) s fun _ _ => False := by
  refine .bind ((ensures_eat_first _).imp fun found s₁ h => .ite (fun hfound => ?_) fun hmissing => ?_)
  · rw [if_pos hfound, TokenStream.first, hs] at h
    cases h.1
  · rw [if_neg hmissing] at h
    refine .bind (((IsReading.all n).expr c s₁).imp fun e s₂ hreads => ?_)
    refine .bind ((ensures_expectSymbol _).imp fun _ s₃ hread => ?_)
    obtain ⟨-, l, hl, -⟩ := hread
    have hnil := hreads.grows.tokens
    rw [h, hs, List.suffix_nil, hl] at hnil
    cases hnil

theorem enclosed_succ (h : IsRepeating m n n') (left right : Symbol) :
    Repeats m m.Alike (Parser.enclosed (n + 1) left right) (Parser.enclosed (n' + 1) left right) := by
  refine repeats_location.bind fun at₁ at₂ _ => (repeats_expectSymbol _).next fun _ s t => ?_
  by_cases hs : s.tokens.lexemes = []
  · exact .never fun c => never_enclosed hs
  · refine .eat (fun _ => hs) (fun _ _ _ _ => .pure rfl) ?_
    exact (h.expr s t).bind fun e e' he => (repeats_expectSymbol _).next fun _ => .pure he

theorem functionCall_succ (h : IsRepeating m n n') :
    Repeats m m.Alike (Parser.functionCall (n + 1)) (Parser.functionCall (n' + 1)) := by
  refine repeats_location.bind fun at₁ at₂ _ => (repeats_qname _).bind fun r r' hr => ?_
  obtain ⟨name, l⟩ := r
  obtain ⟨name', l'⟩ := r'
  obtain rfl : name = name' := hr
  refine (repeats_expectSymbol _).next fun _ => ?_
  refine (repeats_eatSymbol (x := .rightParen) (by simp)).next fun _ => .ite ?_ ?_
  · exact (Repeats.pure Pairing.allAlike_nil).bind fun args args' hargs => repeats_applyFunction name l l' hargs at₁ at₂
  · exact h.arguments.bind fun args args' hargs => repeats_applyFunction name l l' hargs at₁ at₂

theorem arguments_succ (h : IsRepeating m n n') :
    Repeats m m.AllAlike (Parser.arguments (n + 1)) (Parser.arguments (n' + 1)) := by
  refine h.exprSingle.bind fun e e' he => (repeats_eatSymbol (x := .rightParen) (by simp)).next fun _ => .ite ?_ ?_
  · exact .pure (he.cons Pairing.allAlike_nil)
  · exact (repeats_expectSymbol _).next fun _ => h.arguments.bind fun es es' hes => .pure (he.cons hes)

theorem conditional_succ (h : IsRepeating m n n') :
    Repeats m m.Alike (Parser.conditional (n + 1)) (Parser.conditional (n' + 1)) := by
  refine repeats_location.bind fun at₁ at₂ _ => (repeats_expectName _).next fun _ => ?_
  refine (repeats_expectSymbol _).next fun _ => h.expr.bind fun a a' ha => (repeats_expectSymbol _).next fun _ => ?_
  refine (repeats_expectName _).next fun _ => h.exprSingle.bind fun b b' hb => (repeats_expectName _).next fun _ => ?_
  exact h.exprSingle.bind fun c c' hc => .pure (.ternary _ ha hb hc)

theorem bindingExpr_succ (h : IsRepeating m n n') (k : BindingKeyword) {s t : ParseState}
    (hs : s.tokens.lexemes ≠ []) :
    RepeatsFrom m s t m.Alike (Parser.bindingExpr (n + 1) k) (Parser.bindingExpr (n' + 1) k) :=
  .advance hs fun s t _ => ((h.clauses k).inScope s t).bind fun _ _ hr => .pure hr

theorem clauses_succ (h : IsRepeating m n n') (k : BindingKeyword) :
    Repeats m (fun r r' => m.Alike (BindingClause.wrap k r.1 r.2) (BindingClause.wrap k r'.1 r'.2))
      (Parser.clauses (n + 1) k) (Parser.clauses (n' + 1) k) := by
  refine repeats_location.bind fun at₁ at₂ _ => (repeats_clauseHead k).next fun r => ?_
  obtain ⟨name, type⟩ := r
  refine h.exprSingle.bind fun source source' hsource => (repeats_declare name type).bind fun slot slot' hslot => ?_
  have hop : (k.operator slot).relabel m.label = (k.operator slot').relabel m.label' := by
    rw [BindingKeyword.operator_relabel, BindingKeyword.operator_relabel, hslot]
  refine .popping ((repeats_eatSymbol (x := .comma) (by simp)).next fun _ => .ite ?_ ?_)
  · exact (h.clauses k).bind fun r r' hr => .pure (.binary _ _ hop hsource hr)
  · refine (repeats_expectName _).next fun _ => h.exprSingle.bind fun body body' hbody => ?_
    exact .pure (.binary _ _ hop hsource hbody)

theorem succ (h : IsRepeating m n n') : IsRepeating m (n + 1) (n' + 1) where
  expr := h.expr_succ
  commaItems := h.commaItems_succ
  exprSingle := h.exprSingle_succ
  operators := h.operators_succ
  moreOperators level _ _ := h.moreOperators_succ level
  concatItems := h.concatItems_succ
  operand := h.operand_succ
  unary := h.unary_succ
  path := h.path_succ
  relativePath sorted at₁ at₂ _ _ := h.relativePath_succ sorted at₁ at₂
  stepExpr := h.stepExpr_succ
  axisStep := h.axisStep_succ
  predicates := h.predicates_succ
  predicate := h.predicate_succ
  primary := h.primary_succ
  enclosed := h.enclosed_succ
  functionCall := h.functionCall_succ
  arguments := h.arguments_succ
  conditional := h.conditional_succ
  bindingExpr := h.bindingExpr_succ
  clauses := h.clauses_succ

/-- However much more fuel there is. -/
theorem all (hn : n ≤ n') : IsRepeating m n n' := by
  induction n generalizing n' with
  | zero => exact zero m n'
  | succ n ih =>
    obtain ⟨k, rfl⟩ := Nat.exists_eq_add_of_le' hn
    exact (ih (Nat.le_add_left n k)).succ

end IsRepeating

theorem fuel_le {m : Pairing} {s t : ParseState} (h : s.Beside m t) :
    40 * (s.tokens.lexemes.length + 2) ≤ 40 * (t.tokens.lexemes.length + 2) := by
  have hlength := congrArg List.length h.written
  simp only [ParseState.written, List.length_map, List.length_append] at hlength
  omega

theorem run_expectSymbol {x : Symbol} {s : ParseState} (h : s.nth 0 = some (.symbol x)) (c : ParseContext) :
    ((expectSymbol x c).run).run s = (.ok ⟨⟩, { s with tokens := s.tokens.next }) := by
  unfold expectSymbol eatSymbol eat
  rw [run_bind, run_bind, run_check, h, beq_self_eq_true]
  rfl

theorem run_fuel (c : ParseContext) (s : ParseState) :
    ((fuel c).run).run s = (.ok (40 * (s.tokens.lexemes.length + 2)), s) := rfl

end Parser

open XPath.Parser

namespace Expr

/-- What is read up to the end of a text is read up to a brace as well. -/
theorem ensures_reader_repeated {m : Pairing} {c : ParseContext} {s t : ParseState} (h : s.Beside m t) :
    Ensures c (reader .endOfInput) s fun e _ => ∃ e' t', ((reader .rightBrace c).run).run t = (.ok e', t') ∧
      m.Alike e e' ∧ t'.written = m.rest := by
  refine .inScope (.bind (.bind (.get (.pure ?_))))
  refine .bind (((IsRepeating.all (fuel_le h)).expr s t c h).imp fun e s₁ ⟨e', t₁, hrun, he, h₁⟩ => ?_)
  refine .bind (.bind (ensures_peek.imp fun o s₂ hpeek => .ite (fun _ => ?_) fun hnone => .pure (.pure ?_)))
  · exact (Fails.bind looks_describeCurrent fun _ => fails_syntaxError _).ensures
  · have hnil : s₁.tokens.lexemes = [] := by
      rw [hpeek.2, TokenStream.first, Option.isSome_map] at hnone
      simpa using hnone
    have hreader : ((reader .rightBrace c).run).run t = (.ok e', { t₁ with
        tokens := t₁.tokens.next, unit := t₁.unit.restore t.unit.scope.length }) := by
      unfold reader
      rw [run_inScope, run_unwinding, run_bind, run_fuel]
      dsimp only
      rw [run_bind, hrun]
      dsimp only
      rw [run_bind]
      unfold expectTerminator
      dsimp only
      rw [run_expectSymbol (h₁.nth_of_nil hnil)]
      rfl
    have hwritten := congrArg List.tail h₁.written
    rw [ParseState.written, ParseState.written, hnil, ← List.map_tail] at hwritten
    exact ⟨e', _, hreader, he, hwritten⟩

/-- Where the tokens of a text stand before a brace in another one, the text is read there as it is read alone. -/
theorem parse_repeated {m : Pairing} {text source : String} {start line : ℕ} {context : StaticContext}
    {unit unit' : CompileUnit} {e : Expr} (h : ParseState.Beside m ⟨.ofSource text.toList 0 1, unit, []⟩
      ⟨.ofSource source.toList start line, unit', []⟩) (he : (parse text 0 .endOfInput 1 context unit).1 = .ok e) :
    ∃ e', (parse source start .rightBrace line context unit').1 = .ok e' ∧ m.Alike e e' ∧
      (unread source start .rightBrace line context unit').length = m.rest.length := by
  rw [parse_eq_run] at he
  obtain ⟨e', t', hrun, halike, hrest⟩ := (ensures_reader_repeated h).of_run he
  have hresult : (parse source start .rightBrace line context unit').1 = .ok e' := congrArg Prod.fst hrun
  have hunread : unread source start .rightBrace line context unit' = t'.tokens.lexemes :=
    congrArg (fun r => r.2.tokens.lexemes) hrun
  rw [hunread, ← hrest, ParseState.written, List.length_map]
  exact ⟨e', hresult, halike, rfl⟩

end Expr
end XPath
