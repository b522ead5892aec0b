import XPath.Proofs.Operands

/-!
Printing and parsing of operators. A tree of binary operators is printed with parentheses only where precedence and
associativity call for them, and parsing the text gives the tree again.
-/
namespace XPath
open XPath.Parser

/-- A name as it can be written: alone, with a prefix or with a URI. -/
inductive VariableName where
  | plain (l : NCName)
  | prefixed (p l : NCName)
  | braced (uri : { u : String // ∀ c ∈ u.toList, c ≠ '\x7b' ∧ c ≠ '\x7d' }) (l : NCName)

namespace VariableName

def text : VariableName → String
  | plain l => l.text
  | prefixed p l => p.text ++ ":" ++ l.text
  | braced u l => "Q\x7b" ++ u.1 ++ "\x7d" ++ l.text

def token : VariableName → Token
  | plain l => .name l.text
  | prefixed p l => .prefixedName p.text l.text
  | braced u l => .uriName u.1 l.text

theorem spells (n : VariableName) : Lexer.Spells n.text.toList n.token := by
  cases n with
  | plain l => exact l.spells
  | prefixed p l =>
    have hspells := Lexer.spells_prefixedName p.isName l.isName
    rw [String.ofList_toList, String.ofList_toList] at hspells
    simpa [text, token] using hspells
  | braced u l =>
    have hspells := Lexer.spells_uriName u.2 l.isName
    rw [String.ofList_toList, String.ofList_toList] at hspells
    simpa [text, token] using hspells

end VariableName

/-- Binary operators over whole numbers and variables. -/
inductive InfixTree where
  | integer (i : ℕ)
  | reference (n : VariableName)
  | binary (x : Infix) (a b : InfixTree)

namespace Infix

/-- How tightly the left operand has to bind to need no parentheses. Comparisons and ranges do not associate, the other
operators associate to the left. -/
def leftRank (x : Infix) : ℕ :=
  match x.level with
  | .comparison | .range => x.level.rank + 1
  | ℓ => ℓ.rank

def rightRank (x : Infix) : ℕ := x.level.rank + 1

theorem leftRank_eq (x : Infix) : x.leftRank = if x.level.isSingle then x.level.rank + 1 else x.level.rank := by
  unfold leftRank
  cases x.level <;> rfl

end Infix

namespace InfixTree

/-- How tightly a tree binds. Numbers and variables bind more tightly than all operators. -/
def rank : InfixTree → ℕ
  | integer _ | reference _ => 9
  | binary x _ _ => x.level.rank

def enclosed (needed : Bool) (s : String) : String := if needed then "(" ++ s ++ ")" else s

/-- The tree with spaces around the operators and the parentheses that it needs. -/
def text : InfixTree → String
  | integer i => toString i
  | reference n => "$" ++ n.text
  | binary x a b => enclosed (a.rank < x.leftRank) a.text ++ " " ++ x.spelling ++ " " ++ enclosed (b.rank < x.rightRank) b.text

/-- What the tree stands for; nothing if a variable of it is not declared. -/
def expr? (context : StaticContext) (scope : Scope) : InfixTree → Option Expr
  | integer i => some (.constantAt (.integer i) 0)
  | reference n => do
    let name ← n.token.variableName? context.namespaces
    let ref ← Parser.reference? context scope name
    return .mkLeaf (.variable ref) 0
  | binary x a b => do return x.apply (← a.expr? context scope) (← b.expr? context scope)

/-! The tokens of a tree. -/

def bracketed (needed : Bool) (ts : List Token) : List Token :=
  if needed then .symbol .leftParen :: (ts ++ [.symbol .rightParen]) else ts

def tokens : InfixTree → List Token
  | integer i => [.integer i]
  | reference n => [.symbol .dollar, n.token]
  | binary x a b => bracketed (a.rank < x.leftRank) a.tokens ++ x.token :: bracketed (b.rank < x.rightRank) b.tokens

theorem enclosed_head {s : String} (h : ∀ c ∈ s.toList.head?, c ≠ ':') (needed : Bool) :
    ∀ c ∈ (enclosed needed s).toList.head?, c ≠ ':' := by
  unfold enclosed
  split
  · simp
  · exact h

theorem text_ne_nil (t : InfixTree) : t.text.toList ≠ [] := by
  cases t with
  | integer i =>
    rw [text, Nat.toString_eq_ofList_toDigits, String.toList_ofList]
    exact Nat.toDigits_ne_nil
  | reference n => simp [text]
  | binary x a b => simp [text]

/-- A text of a tree begins with a digit, a dollar sign or a parenthesis. -/
theorem text_head (t : InfixTree) : ∀ c ∈ t.text.toList.head?, c ≠ ':' := by
  induction t with
  | integer i =>
    rw [text, Nat.toString_eq_ofList_toDigits, String.toList_ofList]
    intro c hc
    have hdigit := Nat.isDigit_of_mem_toDigits (b := 10) (n := i) (c := c) (by decide) (by decide) (List.mem_of_mem_head? hc)
    rintro rfl
    cases hdigit
  | reference n => simp [text]
  | binary x a b iha ihb =>
    have hhead := enclosed_head iha (a.rank < x.leftRank)
    have hne : (enclosed (a.rank < x.leftRank) a.text).toList ≠ [] := by
      unfold enclosed
      split
      · simp
      · exact a.text_ne_nil
    intro c hc
    rw [text] at hc
    simp only [String.toList_append, List.append_assoc] at hc
    rw [List.head?_append_of_ne_nil _ hne] at hc
    exact hhead c hc

theorem tokensOf_enclosed {s : String} {ts : List Token} (hhead : ∀ c ∈ s.toList.head?, c ≠ ':') (hne : s.toList ≠ [])
    (h : ∀ rest, Lexer.IsCut rest → Lexer.tokensOf (s.toList ++ rest) = ts ++ Lexer.tokensOf rest) (needed : Bool)
    {rest : List Char} (hrest : Lexer.IsCut rest) :
    Lexer.tokensOf ((enclosed needed s).toList ++ rest) = bracketed needed ts ++ Lexer.tokensOf rest := by
  cases needed with
  | false => exact h rest hrest
  | true =>
    have hopen : (s.toList ++ ')' :: rest).head? ≠ some ':' := by
      rw [List.head?_append_of_ne_nil _ hne]
      exact fun heq => hhead ':' heq rfl
    have htext : (enclosed true s).toList ++ rest = '(' :: (s.toList ++ ')' :: rest) := by simp [enclosed]
    rw [htext, Lexer.tokensOf_leftParen hopen, h _ (Lexer.isCut_close rest), Lexer.tokensOf_rightParen]
    simp [bracketed]

theorem tokensOf_text (t : InfixTree) {rest : List Char} (hrest : Lexer.IsCut rest) :
    Lexer.tokensOf (t.text.toList ++ rest) = t.tokens ++ Lexer.tokensOf rest := by
  induction t generalizing rest with
  | integer i =>
    rw [text, Nat.toString_eq_ofList_toDigits, String.toList_ofList]
    exact Lexer.spells_integer i rest hrest
  | reference n =>
    have htext : (reference n).text.toList ++ rest = '$' :: (n.text.toList ++ rest) := by simp [text]
    rw [htext, Lexer.tokensOf_dollar, n.spells rest hrest]
    rfl
  | binary x a b iha ihb =>
    have htext : (binary x a b).text.toList ++ rest = (enclosed (a.rank < x.leftRank) a.text).toList ++
        ' ' :: (x.spelling.toList ++ ' ' :: ((enclosed (b.rank < x.rightRank) b.text).toList ++ rest)) := by
      simp [text]
    rw [htext, tokensOf_enclosed a.text_head a.text_ne_nil (fun _ => iha) _ (Lexer.isCut_space _), Lexer.tokensOf_space,
      x.spells _ (Lexer.isCut_space _), Lexer.tokensOf_space,
      tokensOf_enclosed b.text_head b.text_ne_nil (fun _ => ihb) _ hrest]
    simp [tokens]

/-! Reading the tokens of a tree. -/

variable {c : ParseContext} {scope : Scope} {t : InfixTree} {e : Expr} {ℓ : OperatorLevel} {rest : List Token}

theorem exists_tokens_cons (t : InfixTree) : ∃ first ts, t.tokens = first :: ts ∧ startsPrimary first := by
  induction t with
  | integer i => exact ⟨_, [], rfl, rfl⟩
  | reference n => exact ⟨_, [n.token], rfl, rfl⟩
  | binary x a b iha ihb =>
    obtain ⟨first, ts, hts, hfirst⟩ := iha
    rw [tokens, hts, bracketed]
    split
    · exact ⟨_, _, rfl, rfl⟩
    · exact ⟨first, _, rfl, hfirst⟩

/-- Only `||` becomes a call. -/
theorem level_of_isCallTo {x : Infix} {a b : Expr} (h : (x.apply a b).isCallTo .concat) : x.level = .concat := by
  cases hop : x.operator? with
  | none => exact Infix.operator?_eq_none hop ▸ rfl
  | some op =>
    rw [Infix.apply, hop] at h
    cases h

/-- As it is printed where something that binds with this rank is wanted. -/
def printed (r : ℕ) (t : InfixTree) : List Token := bracketed (t.rank < r) t.tokens

/-- The tokens of the tree are read as this expression wherever the tree can stand: as a whole expression, as an operand
of a level, and as the left part of a chain. -/
structure IsRead (c : ParseContext) (scope : Scope) (t : InfixTree) (e : Expr) : Prop where
  whole rest : Ends 0 rest → IsPhrase c scope .or t.tokens rest e
  operand ℓ rest : Ends (ℓ.rank + 1) rest → IsOperand c scope ℓ (t.printed (ℓ.rank + 1)) rest e
  left ℓ rest : ℓ.isSingle = false → Ends (ℓ.rank + 1) rest → IsLeft c scope ℓ (t.printed ℓ.rank) rest e

/-- A tree that is an expression can be put in parentheses. -/
theorem isOperand_bracketed (h : ∀ rest, Ends 0 rest → IsPhrase c scope .or t.tokens rest e)
    (hrest : Ends (ℓ.rank + 1) rest) : IsOperand c scope ℓ (bracketed true t.tokens) rest e := by
  obtain ⟨first, ts, hts, hfirst⟩ := t.exists_tokens_cons
  rw [hts] at h ⊢
  have hle := ℓ.rank_le
  have hends : Ends 9 rest := hrest.mono (by omega)
  exact ((isStep_parenthesized hfirst h hends).operand hends).looser hle hrest

theorem isRead_step (hrank : t.rank = 9) (he : e.isCallTo .concat = false)
    (h : ∀ rest, Ends 9 rest → IsStep c scope t.tokens rest e) : IsRead c scope t e := by
  have hoperand (ℓ : OperatorLevel) {rest : List Token} (hrest : Ends (ℓ.rank + 1) rest) :
      IsOperand c scope ℓ t.tokens rest e := by
    have hle := ℓ.rank_le
    have hends : Ends 9 rest := hrest.mono (by omega)
    exact ((h rest hends).operand hends).looser hle hrest
  have hprinted {r : ℕ} (hr : r ≤ 9) : t.printed r = t.tokens := by
    rw [printed, hrank, decide_eq_false (by omega)]
    rfl
  refine ⟨fun rest hrest => (hoperand .or (hrest.mono (Nat.zero_le _))).phrase hrest, fun ℓ rest hrest => ?_,
    fun ℓ rest _ hrest => ?_⟩
  · have hle := ℓ.rank_le
    exact hprinted (r := ℓ.rank + 1) (by omega) ▸ hoperand ℓ hrest
  · have hle := ℓ.rank_le
    exact hprinted (r := ℓ.rank) (by omega) ▸ (hoperand ℓ hrest).left fun _ => he

/-- An operator between trees that are read is read. -/
theorem isRead_binary {x : Infix} {a b : InfixTree} {ea eb : Expr} (ha : IsRead c scope a ea) (hb : IsRead c scope b eb) :
    IsRead c scope (binary x a b) (x.apply ea eb) := by
  have hlevel := x.level.rank_le
  have hright {rest : List Token} (hrest : Ends (x.level.rank + 1) rest) := hb.operand x.level rest hrest
  have hends (rest : List Token) : Ends (x.level.rank + 1) (x.token :: rest) := .cons (Nat.lt_succ_self _) rest
  have htokens (r : ℕ) (hr : x.leftRank = r) :
      (binary x a b).tokens = a.printed r ++ x.token :: b.printed (x.level.rank + 1) := hr ▸ rfl
  have hleft (hsingle : x.level.isSingle = false) {rest : List Token} (hrest : Ends (x.level.rank + 1) rest) :
      IsLeft c scope x.level (binary x a b).tokens rest (x.apply ea eb) := by
    rw [htokens x.level.rank (by rw [x.leftRank_eq, hsingle]; rfl)]
    exact (ha.left x.level _ hsingle (hends _)).cons hsingle (hright hrest)
  -- what the tree is at its own level
  have hown {rest : List Token} (hrest : Ends x.level.rank rest) :
      IsPhrase c scope x.level (binary x a b).tokens rest (x.apply ea eb) := by
    have hrest' := hrest.mono (Nat.le_succ _)
    cases hsingle : x.level.isSingle with
    | true =>
      rw [htokens (x.level.rank + 1) (by rw [x.leftRank_eq, hsingle]; rfl)]
      exact isPhrase_single hsingle (ha.operand x.level _ (hends _)) (hright hrest')
    | false => exact (hleft hsingle hrest').phrase hrest
  have hwhole (rest : List Token) (hrest : Ends 0 rest) :
      IsPhrase c scope .or (binary x a b).tokens rest (x.apply ea eb) :=
    (hown (hrest.mono (Nat.zero_le _))).looser (Nat.zero_le _) hrest
  have hbare {ℓ : OperatorLevel} (hrank : ℓ.rank < x.level.rank) {rest : List Token} (hrest : Ends (ℓ.rank + 1) rest) :
      IsOperand c scope ℓ (binary x a b).tokens rest (x.apply ea eb) := by
    obtain ⟨ℓ', htighter⟩ := OperatorLevel.exists_tighter (show ℓ.rank < 8 by omega)
    have hnext := OperatorLevel.rank_tighter htighter
    exact ((hown (hrest.mono hrank)).looser (show ℓ'.rank ≤ x.level.rank by omega) (hnext ▸ hrest)).operand htighter
  have hprinted {r : ℕ} (hr : r ≤ x.level.rank) : (binary x a b).printed r = (binary x a b).tokens := by
    rw [printed, rank, decide_eq_false (by omega)]
    rfl
  have hparens {r : ℕ} (hr : x.level.rank < r) : (binary x a b).printed r = bracketed true (binary x a b).tokens := by
    rw [printed, rank, decide_eq_true hr]
  refine ⟨hwhole, fun ℓ rest hrest => ?_, fun ℓ rest hsingle hrest => ?_⟩
  · obtain hlt | hle := Nat.lt_or_ge ℓ.rank x.level.rank
    · exact hprinted hlt ▸ hbare hlt hrest
    · exact hparens (Nat.lt_succ_of_le hle) ▸ isOperand_bracketed hwhole hrest
  · have hcall (hne : ℓ.rank ≠ x.level.rank) (hℓ : ℓ = .concat) : (x.apply ea eb).isCallTo .concat = false :=
      Bool.eq_false_iff.2 fun hcall => hne (by rw [hℓ, level_of_isCallTo hcall])
    obtain hlt | heq | hgt := Nat.lt_trichotomy ℓ.rank x.level.rank
    · exact hprinted hlt.le ▸ (hbare hlt hrest).left (hcall hlt.ne)
    · obtain rfl := OperatorLevel.eq_of_rank heq
      exact hprinted le_rfl ▸ hleft hsingle hrest
    · exact hparens hgt ▸ (isOperand_bracketed hwhole hrest).left (hcall hgt.ne')

theorem isRead (ht : t.expr? c.static scope = some e) : IsRead c scope t e := by
  induction t generalizing e with
  | integer i =>
    obtain rfl := Option.some.inj ht
    exact isRead_step rfl rfl fun rest hrest => isStep_integer i hrest
  | reference n =>
    simp only [expr?, Option.bind_eq_bind, Option.bind_eq_some_iff] at ht
    obtain ⟨name, hname, ref, href, ht⟩ := ht
    obtain rfl := Option.some.inj ht
    exact isRead_step rfl rfl fun rest hrest => isStep_variable hname href hrest
  | binary x a b iha ihb =>
    simp only [expr?, Option.bind_eq_bind, Option.bind_eq_some_iff] at ht
    obtain ⟨ea, hea, eb, heb, ht⟩ := ht
    obtain rfl := Option.some.inj ht
    exact isRead_binary (iha hea) (ihb heb)

/-- Parsing undoes printing: the text of a tree over declared variables is the expression that the tree stands for. -/
theorem parse_text (t : InfixTree) {context : StaticContext} {unit : CompileUnit} {e : Expr}
    (h : t.expr? context unit.scope = some e) (line : ℕ) :
    (Expr.parse t.text 0 .endOfInput line context unit).1.map Expr.unlocated = .ok e := by
  have htokens := t.tokensOf_text Lexer.isCut_nil
  rw [List.append_nil, Lexer.tokensOf_nil, List.append_nil] at htokens
  refine parse_of_phrase htokens ((isRead (c := ⟨context, .expression⟩) h).whole [] (.nil 0)) ?_ line
  obtain ⟨first, ts, hts, hfirst⟩ := t.exists_tokens_cons
  refine .inl fun s hs => ?_
  rw [hts] at hs
  obtain rfl := Option.some.inj hs
  cases hfirst

/-- A sum in a product, a chain of `||` and a comparison that does not associate. -/
theorem parse_text_parentheses :
    let x : InfixTree := reference (.plain ⟨"x", by decide⟩)
    let product := binary (.arithmetic .multiply) (binary (.arithmetic .add) (integer 1) x) (integer 2)
    let chain := binary .concat (binary .concat product x) (binary .concat (integer 3) x)
    let t := binary (.general .eq) (binary (.value .lt) chain x) (integer 40)
    let context : StaticContext := { globals := [(⟨"x", none⟩, none)] }
    let ref : Expr := .mkLeaf (.variable (.global (.unprefixed "x"))) 0
    let number (i : ℕ) : Expr := .constantAt (.integer i) 0
    t.text = "((1 + $x) * 2 || $x || (3 || $x) lt $x) = 40" ∧
    (Expr.parse t.text 0 .endOfInput 1 context {}).1.map Expr.unlocated =
      .ok (.mkBinary (.generalComparison .eq) (.mkBinary (.valueComparison .lt) (.callAt .concat
        [.mkBinary (.arithmetic .multiply) (.mkBinary (.arithmetic .add) (number 1) ref 0) (number 2) 0, ref,
          .callAt .concat [number 3, ref] 0] 0) ref 0) (number 40) 0) :=
  ⟨by decide, parse_text _ rfl 1⟩

end InfixTree
end XPath
