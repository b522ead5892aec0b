import XPath.Proofs.Chains

/-!
The operands of the operators: steps of a name, literals, variables and whole expressions in parentheses. What makes
something else of such an operand, a sign, a slash, a predicate or a type operator, does not stand beside a binary
operator.
-/
namespace XPath

namespace Parser
variable {c : ParseContext} {scope : Scope} {ts ts' rest : List Token} {e : Expr} {n : ℕ}

theorem takes_typeOperator {first : String} (h : rest.head? ≠ some (.name first)) (second : String)
    (type : Parser UnaryOp) (e : Expr) : Takes c scope rest (typeOperator first second type e) (· = e) rest := by
  refine (takes_peekNth 1).next ?_
  split
  · refine (takes_check _).next ?_
    rw [beq_eq_false_iff_ne.2 h]
    exact .pure rfl
  · exact .pure rfl

theorem takes_typeOperators (h : Ends 9 rest) (e : Expr) : Takes c scope rest (typeOperators e) (· = e) rest := by
  refine (takes_typeOperator (h.ne_name (by decide)) _ _ _).next ?_
  refine (takes_typeOperator (h.ne_name (by decide)) _ _ _).next ?_
  refine (takes_typeOperator (h.ne_name (by decide)) _ _ _).next ?_
  exact takes_typeOperator (h.ne_name (by decide)) _ _ _

theorem takes_signs (hminus : ts.head? ≠ some (.symbol .minus)) (hplus : ts.head? ≠ some (.symbol .plus)) (n : ℕ) :
    Takes c scope ts (signs n false false) (· = (false, false)) ts := by
  cases n with
  | zero => exact .pure rfl
  | succ n =>
    rw [signs]
    exact (takes_eat_not hminus).next ((takes_eat_not hplus).next (.pure rfl))

theorem takes_predicates (h : rest.head? ≠ some (.symbol .leftBracket)) (e : Expr) :
    Takes c scope rest (predicates (n + 1) e) (· = e) rest := by
  rw [predicates]
  refine (takes_check _).next ?_
  rw [beq_eq_false_iff_ne.2 h]
  exact .pure rfl

theorem takes_relativePath (hslash : rest.head? ≠ some (.symbol .slash))
    (hdouble : rest.head? ≠ some (.symbol .doubleSlash)) (e : Expr) (start : LocationId) :
    Takes c scope rest (relativePath (n + 1) e false start) (· = e) rest := by
  rw [relativePath]
  exact takes_location.bind fun at' _ => (takes_eat_not hslash).next ((takes_eat_not hdouble).next (.pure rfl))

/-- The tokens are one step or one primary expression. -/
structure IsStep (c : ParseContext) (scope : Scope) (ts rest : List Token) (e : Expr) : Prop where
  nonempty : ts ≠ []
  /-- It has no sign and begins with no slash. -/
  head x : ts.head? = some (.symbol x) → x ∉ [.minus, .plus, .slash, .doubleSlash]
  step n : 20 * ts.length ≤ n + 2 → Takes c scope (ts ++ rest) (stepExpr n) (·.unlocated = e) rest

theorem IsStep.operand (h : IsStep c scope ts rest e) (hrest : Ends 9 rest) :
    IsOperand c scope .intersect ts rest e := by
  intro n hn
  have hrank : OperatorLevel.intersect.rank = 8 := rfl
  have hlength := List.length_pos_iff.2 h.nonempty
  have hhead {x : Symbol} (hx : x ∈ [Symbol.minus, .plus, .slash, .doubleSlash]) :
      (ts ++ rest).head? ≠ some (.symbol x) := by
    rw [List.head?_append_of_ne_nil _ h.nonempty]
    exact fun heq => h.head x heq hx
  obtain _ | _ | _ | _ | n := n
  · omega
  · omega
  · omega
  · omega
  have hpath : Takes c scope (ts ++ rest) (path (n + 2)) (·.unlocated = e) rest := by
    rw [path]
    refine takes_location.bind fun at' _ => ?_
    refine (takes_eat_not (hhead (by decide))).next ((takes_eat_not (hhead (by decide))).next ?_)
    refine (h.step (n + 1) (by omega)).bind fun first hfirst => ?_
    exact (takes_relativePath (hrest.ne_symbol (by decide)) (hrest.ne_symbol (by decide)) _ _).imp fun e he =>
      he ▸ hfirst
  have hunary : Takes c scope (ts ++ rest) (unary (n + 3)) (·.unlocated = e) rest := by
    rw [unary]
    refine takes_location.bind fun at' _ => takes_get.bind fun s _ => ?_
    exact (takes_signs (hhead (by decide)) (hhead (by decide)) _).next (hpath.bind fun e he => .pure he)
  exact hunary.bind fun e he => (takes_typeOperators hrest e).imp fun e' h => h ▸ he

/-! Steps of a name. -/

/-- The children of this name. -/
def childStep (context : StaticContext) (s : String) : Expr :=
  .mkLeaf (.step .child (.name (.name ((QName.unprefixed s).withDefault context.namespaces.element)))) 0

/-- A name is a step, unless it is `element` with another name behind it. -/
theorem takes_startsAxisStep {s : String} (hrest : Ends 9 rest)
    (helement : s = "element" → rest.head?.any Token.isQName = false) :
    Takes c scope (.name s :: rest) startsAxisStep (· = true) (.name s :: rest) := by
  have hsecond : (Token.name s :: rest)[1]? = rest.head? := by cases rest <;> rfl
  have hnot {x : Symbol} (hx : x ∉ .rightParen :: Infix.symbols) :
      ((Token.name s :: rest)[1]? == some (.symbol x)) = false := by
    rw [hsecond, beq_eq_false_iff_ne.2 (hrest.ne_symbol hx)]
  refine takes_peek.next ?_
  dsimp only [List.head?_cons]
  refine (takes_checkNth 1 _).next ?_
  rw [hnot (by decide)]
  refine (takes_checkNthQName 1).next ?_
  have hname : (s == "element" && (Token.name s :: rest)[1]?.any Token.isQName) = false := by
    by_cases hs : s = "element"
    · rw [hsecond, helement hs, Bool.and_false]
    · rw [beq_eq_false_iff_ne.2 hs, Bool.false_and]
  rw [hname]
  refine (takes_checkNth 1 _).next ?_
  rw [hnot (by decide), Bool.and_false]
  refine (takes_checkNth 1 _).next ?_
  rw [hnot (by decide)]
  exact takes_checkKindTest.bind fun _ _ => .pure rfl

theorem takes_childTest {s : String} (hrest : Ends 9 rest) : Takes c scope (.name s :: rest) (axisAndTest nodeTest)
    (· = (.child, .name (.name ((QName.unprefixed s).withDefault c.static.namespaces.element)))) rest := by
  have hsecond : (Token.name s :: rest)[1]? = rest.head? := by cases rest <;> rfl
  refine (takes_eat_not (by simp)).next ((takes_eat_not (by simp)).next ((takes_checkNth 1 _).next ?_))
  rw [hsecond, beq_eq_false_iff_ne.2 (hrest.ne_symbol (by decide))]
  have htest : Takes c scope (.name s :: rest) (nodeTest .child)
      (· = .name (.name ((QName.unprefixed s).withDefault c.static.namespaces.element))) rest := by
    refine takes_checkKindTest.bind fun b hb => ?_
    rw [hb (hsecond ▸ hrest.ne_symbol (by decide))]
    refine takes_lexeme.bind fun o ⟨l, ho, hl⟩ => ?_
    subst ho
    dsimp only
    rw [hl]
    exact (takes_elementName s).bind fun r hr => .pure (by rw [← hr])
  exact htest.next (.pure rfl)

theorem isStep_name {s : String} (hrest : Ends 9 rest) (helement : s = "element" → rest.head?.any Token.isQName = false) :
    IsStep c scope [.name s] rest (childStep c.static s) where
  nonempty := List.cons_ne_nil _ _
  head _ h := by cases h
  step n hn := by
    rw [List.length_singleton] at hn
    obtain _ | _ | _ | n := n
    · omega
    · omega
    · omega
    rw [stepExpr]
    refine (takes_startsAxisStep hrest helement).next ?_
    change Takes c scope (.name s :: rest) (axisStep (n + 2)) _ rest
    rw [axisStep]
    refine takes_location.bind fun at' _ => (takes_childTest hrest).next ?_
    exact (takes_predicates (hrest.ne_symbol (by decide)) _).next (.pure rfl)

/-! Primary expressions. -/

/-- Whether the token begins a number, a variable or something in parentheses. -/
def startsPrimary : Token → Bool
  | .integer _ | .symbol .dollar | .symbol .leftParen => true
  | _ => false

theorem isStep_primary {first : Token} (hfirst : startsPrimary first) (hrest : Ends 9 rest)
    (h : ∀ n, 20 * (ts.length + 1) ≤ n + 3 → Takes c scope (first :: (ts ++ rest)) (primary n) (·.unlocated = e) rest) :
    IsStep c scope (first :: ts) rest e where
  nonempty := List.cons_ne_nil _ _
  head x hx := by
    obtain rfl := Option.some.inj hx
    cases x <;> first | decide | cases hfirst
  step n hn := by
    rw [List.length_cons] at hn
    obtain _ | _ | n := n
    · omega
    · omega
    rw [stepExpr]
    have hstarts : Takes c scope (first :: (ts ++ rest)) startsAxisStep (· = false) (first :: (ts ++ rest)) := by
      refine takes_peek.next ?_
      unfold startsPrimary at hfirst
      split at hfirst <;> first | exact .pure rfl | cases hfirst
    refine hstarts.next ((h (n + 1) (by omega)).bind fun base hbase => ?_)
    exact (takes_predicates (hrest.ne_symbol (by decide)) _).imp fun e he => he ▸ hbase

theorem isStep_integer (i : ℕ) (hrest : Ends 9 rest) :
    IsStep c scope [.integer i] rest (.constantAt (.integer i) 0) := by
  refine isStep_primary rfl hrest fun n hn => ?_
  obtain _ | n := n
  · simp at hn
  rw [primary]
  exact takes_location.bind fun at' _ => takes_peek.next (takes_advance.bind fun _ _ => .pure rfl)

/-- What a variable of that name refers to: one in scope, else one that the static context declares. -/
def reference? (context : StaticContext) (scope : Scope) (n : QName) : Option VariableRef :=
  match CompileUnit.lookup { scope } n with
  | some slot => some (.range slot)
  | none => if (context.variableType n).isSome then some (.global n) else none

theorem isStep_variable {t : Token} {n : QName} {ref : VariableRef} (hn : t.variableName? c.static.namespaces = some n)
    (href : reference? c.static scope n = some ref) (hrest : Ends 9 rest) :
    IsStep c scope [.symbol .dollar, t] rest (.mkLeaf (.variable ref) 0) := by
  refine isStep_primary rfl hrest fun k hk => ?_
  obtain _ | k := k
  · simp at hk
  rw [primary]
  refine takes_location.bind fun at' _ => takes_peek.next ?_
  change Takes c scope _ variableRef _ _
  refine takes_location.bind fun at' _ => (takes_expectSymbol _).bind fun _ _ => ?_
  refine (takes_variableName hn).bind fun r hr => takes_get.bind fun s hs => ?_
  obtain ⟨m, l⟩ := r
  obtain rfl : m = n := hr
  have hlookup : s.unit.lookup m = CompileUnit.lookup { scope } m := by
    rw [CompileUnit.lookup, hs.2]
    rfl
  unfold reference? at href
  dsimp only
  rw [hlookup]
  cases hslot : CompileUnit.lookup { scope } m with
  | some slot =>
    rw [hslot] at href
    exact .pure (by rw [← Option.some.inj href]; rfl)
  | none =>
    rw [hslot] at href
    dsimp only at href
    refine takes_static.next ?_
    split at href
    · next hglobal =>
      rw [if_pos hglobal]
      exact .pure (by rw [← Option.some.inj href]; rfl)
    · cases href

/-! Whole expressions. -/

/-- The tokens begin no conditional expression and none that binds variables. -/
def IsPlainStart (ts : List Token) : Prop :=
  (∀ s, ts.head? ≠ some (.name s)) ∨ ∀ x ∈ [Symbol.dollar, .leftParen], ts[1]? ≠ some (.symbol x)

theorem IsPlainStart.not_conditional (h : IsPlainStart ts) :
    (ts.head? == some (.name "if") && ts[1]? == some (.symbol .leftParen)) = false := by
  obtain hhead | hsecond := h
  · rw [beq_eq_false_iff_ne.2 (hhead _), Bool.false_and]
  · rw [beq_eq_false_iff_ne.2 (hsecond .leftParen (by decide)), Bool.and_false]

theorem IsPlainStart.not_binding (h : IsPlainStart ts) (hdollar : ts[1]? = some (.symbol .dollar)) :
    ts.head?.bind BindingKeyword.ofToken? = none := by
  obtain hhead | hsecond := h
  · rcases hfirst : ts.head? with _ | t
    · rfl
    · rw [Option.bind_some]
      unfold BindingKeyword.ofToken?
      split <;> first | rfl | exact absurd hfirst (hhead _)
  · exact absurd hdollar (hsecond .dollar (by decide))

theorem run_exprSingle {s : ParseState} (h : IsPlainStart s.upcoming) :
    ((exprSingle (n + 1) c).run).run s = ((operators n .or c).run).run s := by
  have hcheckNth (k : ℕ) (t : Token) : ((checkNth k t c).run).run s = (.ok (s.upcoming[k]? == some t), s) := by
    rw [ParseState.upcoming, List.getElem?_map]
    rfl
  have hcheck (t : Token) : ((check t c).run).run s = (.ok (s.upcoming.head? == some t), s) := by
    rw [ParseState.upcoming, List.head?_map]
    rfl
  have hpeek : ((peek c).run).run s = (.ok s.upcoming.head?, s) := by
    rw [ParseState.upcoming, List.head?_map]
    rfl
  have hlast : (((do
      if (← checkName "if") && (← checkNthSymbol 1 .leftParen) then conditional n else operators n .or :
      Parser Expr) c).run).run s = ((operators n .or c).run).run s := by
    rw [run_bind, checkName, hcheck]
    dsimp only
    rw [run_bind, checkNthSymbol, hcheckNth]
    dsimp only
    rw [h.not_conditional]
    rfl
  rw [exprSingle, run_bind, checkNthSymbol, hcheckNth]
  dsimp only
  split
  · next hdollar =>
    rw [run_bind, hpeek]
    dsimp only
    rw [h.not_binding (by simpa using hdollar)]
    exact hlast
  · exact hlast

theorem takes_exprSingle (h : IsPhrase c scope .or ts rest e) (hplain : IsPlainStart (ts ++ rest))
    (hn : 20 * ts.length + 18 ≤ n) : Takes c scope (ts ++ rest) (exprSingle (n + 1)) (·.unlocated = e) rest := by
  intro s htokens hscope
  rw [run_exprSingle (htokens ▸ hplain)]
  exact h n hn s htokens hscope

theorem takes_expr (h : IsPhrase c scope .or ts rest e) (hplain : IsPlainStart (ts ++ rest)) (hrest : Ends 0 rest)
    (hn : 20 * ts.length + 18 ≤ n) : Takes c scope (ts ++ rest) (expr (n + 2)) (·.unlocated = e) rest := by
  rw [expr]
  refine takes_location.bind fun at' _ => (takes_exprSingle h hplain hn).bind fun first hfirst => ?_
  refine (takes_check _).next ?_
  rw [beq_eq_false_iff_ne.2 (hrest.ne_symbol (by decide))]
  exact .pure hfirst

theorem takes_enclosed {t : Token} (ht : startsPrimary t) (h : IsPhrase c scope .or (t :: ts) (.symbol .rightParen :: rest) e)
    (hn : 20 * (ts.length + 1) + 18 ≤ n) :
    Takes c scope (.symbol .leftParen :: (t :: ts ++ .symbol .rightParen :: rest)) (enclosed (n + 3) .leftParen .rightParen)
      (·.unlocated = e) rest := by
  have hclose : t ≠ .symbol .rightParen := by
    rintro rfl
    cases ht
  have hplain : IsPlainStart (t :: ts ++ .symbol .rightParen :: rest) := by
    refine .inl fun s hs => ?_
    obtain rfl := Option.some.inj hs
    cases ht
  rw [enclosed]
  refine takes_location.bind fun at' _ => (takes_expectSymbol _).bind fun _ _ => ?_
  refine (takes_eat_not (by simpa using hclose)).next ?_
  refine (takes_expr h hplain (.close 0 rest) hn).bind fun inner hinner => ?_
  exact (takes_expectSymbol _).bind fun _ _ => .pure hinner

/-- A whole expression in parentheses. -/
theorem isStep_parenthesized {t : Token} (ht : startsPrimary t)
    (h : ∀ rest, Ends 0 rest → IsPhrase c scope .or (t :: ts) rest e) (hrest : Ends 9 rest) :
    IsStep c scope (.symbol .leftParen :: (t :: ts ++ [.symbol .rightParen])) rest e := by
  refine isStep_primary rfl hrest fun n hn => ?_
  rw [List.length_append, List.length_cons, List.length_singleton] at hn
  obtain _ | _ | _ | _ | n := n
  · omega
  · omega
  · omega
  · omega
  rw [List.append_assoc, List.singleton_append, primary]
  refine takes_location.bind fun at' _ => takes_peek.next ?_
  exact takes_enclosed ht (h _ (.close 0 rest)) (by omega)

/-! Whole texts. -/

variable {context : StaticContext} {unit : CompileUnit} {text : String}

/-- A text whose tokens are one whole expression is that expression. -/
theorem parse_of_phrase (htokens : Lexer.tokensOf text.toList = ts)
    (h : IsPhrase ⟨context, .expression⟩ unit.scope .or ts [] e) (hplain : IsPlainStart ts) (line : ℕ) :
    (Expr.parse text 0 .endOfInput line context unit).1.map Expr.unlocated = .ok e := by
  have hread : Takes ⟨context, .expression⟩ unit.scope ts (do
      let e ← expr (← fuel)
      expectTerminator .endOfInput
      return e) (·.unlocated = e) [] := by
    refine takes_fuel.next ?_
    have hexpr := takes_expr (n := 40 * ts.length + 78) h (by simpa using hplain) (.nil 0) (by omega)
    rw [List.append_nil] at hexpr
    exact hexpr.bind fun e he => takes_expectTerminator.bind fun _ _ => .pure he
  obtain ⟨e', s', hrun, he, -⟩ := hread ⟨.ofSource text.toList 0 line, unit, []⟩
    ((Lexer.tokensOf_ofSource _ line).trans htokens) rfl
  unfold Expr.parse run
  dsimp only
  rw [run_inScope, run_unwinding, hrun]
  exact congrArg Except.ok he

theorem parse_of_breaks {code : ErrorCode} (htokens : Lexer.tokensOf text.toList = ts)
    (h : Breaks ⟨context, .expression⟩ unit.scope ts (expr (40 * (ts.length + 2))) code) (line : ℕ) :
    ∃ err, (Expr.parse text 0 .endOfInput line context unit).1 = .error err ∧ err.code = code := by
  have hbreaks : Breaks ⟨context, .expression⟩ unit.scope ts (do
      let e ← expr (← fuel)
      expectTerminator .endOfInput
      return e) code := takes_fuel.next_breaks h.bind
  obtain ⟨err, s', hrun, hcode⟩ := hbreaks ⟨.ofSource text.toList 0 line, unit, []⟩
    ((Lexer.tokensOf_ofSource _ line).trans htokens) rfl
  refine ⟨err, ?_, hcode⟩
  unfold Expr.parse run
  dsimp only
  rw [run_inScope, run_unwinding, hrun]

end Parser
end XPath
