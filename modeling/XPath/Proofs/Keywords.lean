import XPath.Proofs.Operands

/-!
Names as operands. The words of the grammar are told from names by what stands beside them, so that every name can be
an operand of a binary operator; but `element` is taken for a constructor as soon as another name follows.
-/
namespace XPath

namespace Infix

/-- Whether the operator is spelled as a name. -/
def isWord (x : Infix) : Bool := x.token.isQName

/-- Two names with an operator between them, separated by spaces. -/
def between (n : NCName) (x : Infix) (m : NCName) : String := n.text ++ " " ++ x.spelling ++ " " ++ m.text

theorem tokensOf_between (n : NCName) (x : Infix) (m : NCName) :
    Lexer.tokensOf (between n x m).toList = [.name n.text, x.token, .name m.text] := by
  have hm := m.spells [] Lexer.isCut_nil
  rw [List.append_nil] at hm
  have hx := x.spells (' ' :: m.text.toList) (Lexer.isCut_space _)
  have hn := n.spells (' ' :: (x.spelling.toList ++ ' ' :: m.text.toList)) (Lexer.isCut_space _)
  rw [Lexer.tokensOf_space, hx, Lexer.tokensOf_space, hm] at hn
  rw [Lexer.tokensOf_nil] at hn
  rw [← hn, between]
  simp

end Infix

namespace Parser
variable {c : ParseContext} {scope : Scope} {rest : List Token} {n m : NCName} {x : Infix}

/-- Steps of two names with an operator between them. -/
theorem isPhrase_between (h : n.text = "element" → x.isWord = false) :
    IsPhrase c scope .or [.name n.text, x.token, .name m.text] []
      (x.apply (childStep c.static n.text) (childStep c.static m.text)) := by
  have hsecond : Ends 9 (x.token :: ([.name m.text] ++ [])) := .cons (by have := x.level.rank_le; omega) _
  have hleft : IsStep c scope [.name n.text] _ (childStep c.static n.text) := isStep_name hsecond fun hn => h hn
  have hright : IsStep c scope [.name m.text] [] (childStep c.static m.text) := isStep_name (.nil 9) fun _ => rfl
  have hlevel := x.level.rank_le
  have hphrase := isPhrase_apply (x := x) ((hleft.operand hsecond).looser hlevel (.cons (Nat.lt_succ_self _) _)) rfl
    ((hright.operand (.nil 9)).looser hlevel (.nil _)) (.nil _)
  exact hphrase.looser (Nat.zero_le _) (.nil _)

/-! A constructor with no content. -/

variable {ts : List Token} {t : Token} {code : ErrorCode} {k : ℕ} {ℓ ℓ' : OperatorLevel}

/-- No step, and no primary expression either. -/
theorem breaks_stepExpr (ht : t.isQName) (m : String) (k : ℕ) :
    Breaks c scope [.name "element", t, .name m] (stepExpr (k + 2)) c.kind.syntaxCode := by
  have hnot (x : Symbol) : ([Token.name "element", t, .name m][1]? == some (.symbol x)) = false := by
    refine beq_eq_false_iff_ne.2 fun heq => ?_
    obtain rfl : t = .symbol x := Option.some.inj heq
    cases ht
  have hname : [Token.name "element", t, .name m][1]?.any Token.isQName = true := ht
  have hstarts : Takes c scope [.name "element", t, .name m] startsAxisStep (· = false) [.name "element", t, .name m] := by
    refine takes_peek.next ((takes_checkNth 1 _).next ?_)
    rw [hnot]
    refine (takes_checkNthQName 1).next ?_
    rw [hname]
    exact .pure rfl
  have hprimary : Breaks c scope [.name "element", t, .name m] (primary (k + 1)) c.kind.syntaxCode := by
    rw [primary]
    refine takes_location.breaks fun at' _ => takes_peek.next_breaks ?_
    dsimp only [List.head?_cons]
    refine (takes_checkNthQName 1).next_breaks ((takes_checkNth 2 _).next_breaks ?_)
    rw [hname]
    refine (takes_checkNth 1 _).next_breaks ?_
    refine takes_checkQName.next_breaks ((takes_checkNth 1 _).next_breaks ?_)
    rw [hnot, Bool.and_false]
    exact breaks_expected _
  rw [stepExpr]
  exact hstarts.next_breaks hprimary.bind

theorem breaks_unary (h : ∀ k, 2 ≤ k → Breaks c scope ts (stepExpr k) code)
    (hhead : ∀ x ∈ [Symbol.minus, .plus, .slash, .doubleSlash], ts.head? ≠ some (.symbol x)) (hk : 4 ≤ k) :
    Breaks c scope ts (unary k) code := by
  obtain _ | _ | k := k
  · omega
  · omega
  rw [unary]
  refine takes_location.breaks fun at' _ => takes_get.breaks fun s _ => ?_
  refine (takes_signs (hhead _ (by simp)) (hhead _ (by simp)) _).next_breaks (Breaks.bind ?_)
  rw [path]
  refine takes_location.breaks fun at' _ => ?_
  refine (takes_eat_not (hhead _ (by simp))).next_breaks ((takes_eat_not (hhead _ (by simp))).next_breaks ?_)
  exact (h k (by omega)).bind

/-- What breaks below the tightest level breaks at every level. -/
theorem breaks_operators (h : ∀ k, 4 ≤ k → Breaks c scope ts (unary k) code)
    (hk : 2 * (9 - ℓ.rank) + 4 ≤ k) : Breaks c scope ts (operators k ℓ) code := by
  induction hd : 8 - ℓ.rank generalizing ℓ k with
  | zero =>
    have hle := ℓ.rank_le
    obtain rfl : ℓ = .intersect := OperatorLevel.eq_of_rank (show ℓ.rank = 8 by omega)
    obtain _ | _ | k := k
    · omega
    · omega
    rw [operators, operand]
    exact ((h k (by omega)).bind).bind
  | succ d ih =>
    obtain ⟨ℓ', htighter⟩ := OperatorLevel.exists_tighter (show ℓ.rank < 8 by omega)
    have hrank := OperatorLevel.rank_tighter htighter
    obtain _ | _ | k := k
    · omega
    · omega
    rw [operators, operand, htighter]
    exact (ih (by omega) (by omega)).bind

theorem breaks_expr (h : Breaks c scope ts (operators k .or) code) (hplain : IsPlainStart ts) :
    Breaks c scope ts (expr (k + 2)) code := by
  rw [expr]
  refine takes_location.breaks fun at' _ => Breaks.bind fun s htokens hscope => ?_
  rw [run_exprSingle (htokens ▸ hplain)]
  exact h s htokens hscope

end Parser

namespace Parser
variable {m : NCName} {x : Infix}

theorem isPlainStart_between (n m : NCName) (x : Infix) : IsPlainStart [.name n.text, x.token, .name m.text] := by
  refine .inr fun y hy heq => x.token_ne_symbol (y := y) ?_ (Option.some.inj heq)
  fin_cases hy <;> decide

/-- `element` and an operator that is a name are taken for the beginning of a constructor. -/
theorem parse_element {n : NCName} (hn : n.text = "element") (hx : x.isWord) (m : NCName) (line : ℕ)
    (context : StaticContext) (unit : CompileUnit) :
    ∃ err, (Expr.parse (Infix.between n x m) 0 .endOfInput line context unit).1 = .error err ∧ err.code = .grammar := by
  have htokens := Infix.tokensOf_between n x m
  have hplain := isPlainStart_between n m x
  rw [hn] at htokens hplain
  have hstep (k : ℕ) (hk : 2 ≤ k) : Breaks ⟨context, .expression⟩ unit.scope [.name "element", x.token, .name m.text]
      (stepExpr k) .grammar := by
    obtain ⟨k, rfl⟩ := Nat.exists_eq_add_of_le' hk
    exact breaks_stepExpr hx m.text k
  have hunary (k : ℕ) (hk : 4 ≤ k) := breaks_unary hstep (fun _ _ => nofun) hk
  exact parse_of_breaks htokens (breaks_expr (k := 198) (breaks_operators hunary (by decide)) hplain) line

end Parser

/-- Two names with an operator between them are the operator applied to steps of these names; only behind `element` an
operator that is a name is taken for the name of a constructor. -/
theorem Infix.parse_between (n m : NCName) (x : Infix) (line : ℕ) (context : StaticContext) (unit : CompileUnit) :
    if n.text = "element" ∧ x.isWord then
      ∃ err, (Expr.parse (Infix.between n x m) 0 .endOfInput line context unit).1 = .error err ∧ err.code = .grammar
    else (Expr.parse (Infix.between n x m) 0 .endOfInput line context unit).1.map Expr.unlocated =
      .ok (x.apply (Parser.childStep context n.text) (Parser.childStep context m.text)) := by
  split
  · next helement => exact Parser.parse_element helement.1 helement.2 m line context unit
  · next helement =>
    refine Parser.parse_of_phrase (Infix.tokensOf_between n x m) (Parser.isPhrase_between fun hn => ?_)
      (Parser.isPlainStart_between n m x) line
    exact Bool.eq_false_iff.2 fun hx => helement ⟨hn, hx⟩

/-- `element or b` is no disjunction of two steps. -/
theorem Infix.parse_between_element :
    (Expr.parse (Infix.between ⟨"element", by decide⟩ .or ⟨"b", by decide⟩) 0 .endOfInput 1 {} {}).1.map Expr.unlocated ≠
      .ok (Infix.or.apply (Parser.childStep {} "element") (Parser.childStep {} "b")) := by
  obtain ⟨err, herr, -⟩ := Parser.parse_element (n := ⟨"element", by decide⟩) (x := .or) rfl rfl ⟨"b", by decide⟩ 1 {} {}
  rw [herr]
  nofun

end XPath
