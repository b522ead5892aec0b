import XPath.Proofs.Infix

/-!
How operands that are joined by binary operators are read. At each level an operand is something of the next tighter
level; the operators of a level go on as long as the next token is one of them, and a chain of them is read from the
left. The fuel for it grows with the number of tokens.
-/
namespace XPath
open Infix

/-- The text, or what is in parentheses, ends here, or an operator that binds less tightly than `r` follows. -/
def Ends (r : ℕ) (rest : List Token) : Prop :=
  ∀ t ∈ rest.head?, t = .symbol .rightParen ∨ ∃ x : Infix, x.token = t ∧ x.level.rank < r

namespace Ends
variable {r r' : ℕ} {rest : List Token} {ℓ : OperatorLevel}

theorem nil (r : ℕ) : Ends r [] := nofun

theorem close (r : ℕ) (rest : List Token) : Ends r (.symbol .rightParen :: rest) :=
  fun _ h => .inl (Option.some.inj h).symm

theorem cons {x : Infix} (h : x.level.rank < r) (rest : List Token) : Ends r (x.token :: rest) :=
  fun _ ht => .inr ⟨x, Option.some.inj ht, h⟩

theorem mono (h : Ends r rest) (hr : r ≤ r') : Ends r' rest :=
  fun t ht => (h t ht).imp_right fun ⟨x, hx, hrank⟩ => ⟨x, hx, hrank.trans_le hr⟩

theorem ne_symbol (h : Ends r rest) {y : Symbol} (hy : y ∉ .rightParen :: Infix.symbols) :
    rest.head? ≠ some (.symbol y) := by
  intro hhead
  obtain hclose | ⟨x, htoken, -⟩ := h _ hhead
  · exact hy (Token.symbol.inj hclose ▸ List.mem_cons_self ..)
  · exact x.token_ne_symbol (fun hmem => hy (List.mem_cons_of_mem _ hmem)) htoken

theorem ne_name (h : Ends r rest) {s : String} (hs : s ∉ Infix.names) : rest.head? ≠ some (.name s) := by
  intro hhead
  obtain hclose | ⟨x, htoken, -⟩ := h _ hhead
  · cases hclose
  · exact x.token_ne_name hs htoken

theorem ne_doublePipe (h : Ends OperatorLevel.concat.rank rest) : rest.head? ≠ some (.symbol .doublePipe) := by
  intro hhead
  obtain hclose | ⟨x, htoken, hrank⟩ := h _ hhead
  · cases hclose
  · rw [Infix.eq_concat htoken] at hrank
    exact lt_irrefl _ hrank

theorem operator?_eq_none (h : Ends ℓ.rank rest) : rest.head?.bind ℓ.operator? = none := by
  cases hhead : rest.head? with
  | none => rfl
  | some t =>
    obtain rfl | ⟨x, rfl, hrank⟩ := h t hhead
    · cases ℓ <;> rfl
    · exact Infix.operator?_of_level fun hlevel => absurd hrank (hlevel ▸ lt_irrefl _)

end Ends

namespace Parser
variable {c : ParseContext} {scope : Scope} {ℓ ℓ' : OperatorLevel} {ts ts' ts₁ ts₂ rest : List Token} {e e₁ e₂ : Expr}
  {x : Infix} {n : ℕ}

/-- Where `rest` follows, the tokens `ts` are an operand of the level with this meaning. -/
def IsOperand (c : ParseContext) (scope : Scope) (ℓ : OperatorLevel) (ts rest : List Token) (e : Expr) : Prop :=
  ∀ n, 20 * ts.length + 2 * (9 - ℓ.rank) ≤ n + 1 → Takes c scope (ts ++ rest) (operand n ℓ) (·.unlocated = e) rest

/-- Where `rest` follows, the tokens `ts` are operands of the level with its operators, and this is their meaning. -/
def IsPhrase (c : ParseContext) (scope : Scope) (ℓ : OperatorLevel) (ts rest : List Token) (e : Expr) : Prop :=
  ∀ n, 20 * ts.length + 2 * (9 - ℓ.rank) ≤ n → Takes c scope (ts ++ rest) (operators n ℓ) (·.unlocated = e) rest

theorem IsPhrase.operand (h : IsPhrase c scope ℓ' ts rest e) (hℓ : ℓ.tighter? = some ℓ') :
    IsOperand c scope ℓ ts rest e := by
  intro n hn
  have hrank := OperatorLevel.rank_tighter hℓ
  have hle := ℓ'.rank_le
  obtain _ | n := n
  · omega
  rw [Parser.operand, hℓ]
  exact h n (by omega)

/-! The end of a chain. -/

theorem takes_moreOperators_end (h : Ends ℓ.rank rest) (e : Expr) :
    Takes c scope rest (moreOperators (n + 1) ℓ e) (· = e) rest := by
  rw [moreOperators]
  refine takes_peek.next ?_
  rw [h.operator?_eq_none]
  exact .pure rfl

theorem takes_concatItems_end (h : Ends OperatorLevel.concat.rank rest) :
    Takes c scope rest (concatItems (n + 1)) (· = []) rest := by
  rw [concatItems]
  exact (takes_eat_not h.ne_doublePipe).next (.pure rfl)

theorem IsOperand.phrase (h : IsOperand c scope ℓ ts rest e) (hrest : Ends ℓ.rank rest) :
    IsPhrase c scope ℓ ts rest e := by
  intro n hn
  have hle := ℓ.rank_le
  obtain _ | _ | n := n
  · omega
  · omega
  rw [operators]
  refine (h (n + 1) (by omega)).bind fun left hleft => ?_
  split
  · refine (takes_check _).next ?_
    rw [beq_eq_false_iff_ne.2 hrest.ne_doublePipe]
    exact .pure hleft
  · exact (takes_moreOperators_end hrest left).imp fun e he => he ▸ hleft

theorem IsPhrase.looser (h : IsPhrase c scope ℓ' ts rest e) (hrank : ℓ.rank ≤ ℓ'.rank) (hrest : Ends ℓ.rank rest) :
    IsPhrase c scope ℓ ts rest e := by
  induction hd : ℓ'.rank - ℓ.rank generalizing ℓ with
  | zero => exact OperatorLevel.eq_of_rank (show ℓ'.rank = ℓ.rank by omega) ▸ h
  | succ d ih =>
    have hle := ℓ'.rank_le
    obtain ⟨ℓ₁, htighter⟩ := OperatorLevel.exists_tighter (show ℓ.rank < 8 by omega)
    have hnext := OperatorLevel.rank_tighter htighter
    have hphrase : IsPhrase c scope ℓ₁ ts rest e := ih (by omega) (hrest.mono (by omega)) (by omega)
    exact (hphrase.operand htighter).phrase hrest

theorem IsOperand.looser (h : IsOperand c scope ℓ' ts rest e) (hrank : ℓ.rank ≤ ℓ'.rank)
    (hrest : Ends (ℓ.rank + 1) rest) : IsOperand c scope ℓ ts rest e := by
  obtain heq | hlt := hrank.eq_or_lt
  · exact OperatorLevel.eq_of_rank heq ▸ h
  · have hle := ℓ'.rank_le
    obtain ⟨ℓ₁, htighter⟩ := OperatorLevel.exists_tighter (show ℓ.rank < 8 by omega)
    have hnext := OperatorLevel.rank_tighter htighter
    have hphrase := (h.phrase (hrest.mono hlt)).looser (show ℓ₁.rank ≤ ℓ'.rank by omega) (hnext ▸ hrest)
    exact hphrase.operand htighter

/-! Operators of one level. -/

/-- Where an operator of a level follows an operand, it is applied to that and to the operand after it. -/
theorem takes_moreOperators {R : Expr → Prop} {op : BinaryOp} (hop : x.operator? = some op)
    (hright : IsOperand c scope x.level ts rest e) (hn : 20 * ts.length + 2 * (9 - x.level.rank) ≤ n + 1) (left : Expr)
    (hmore : ∀ e', e'.unlocated = x.apply left.unlocated e →
      Takes c scope rest (if x.level.isSingle then pure e' else moreOperators n x.level e') R ts') :
    Takes c scope (x.token :: (ts ++ rest)) (moreOperators (n + 1) x.level left) R ts' := by
  rw [moreOperators]
  refine takes_peek.next ?_
  rw [List.head?_cons, Option.bind_some, Infix.operator?_token hop]
  refine takes_location.bind fun at' _ => takes_advance.bind fun _ _ => ?_
  refine (hright n hn).bind fun right hright' => hmore _ ?_
  rw [Expr.unlocated_mkBinary, hright', Infix.apply, hop]

/-- Two operands of a level that does not go on after the second one. -/
theorem isPhrase_single (hsingle : x.level.isSingle) (hleft : IsOperand c scope x.level ts₁ (x.token :: (ts₂ ++ rest)) e₁)
    (hright : IsOperand c scope x.level ts₂ rest e₂) :
    IsPhrase c scope x.level (ts₁ ++ x.token :: ts₂) rest (x.apply e₁ e₂) := by
  intro n hn
  have hle := x.level.rank_le
  rw [List.length_append, List.length_cons] at hn
  rw [List.append_assoc, List.cons_append]
  obtain _ | _ | n := n
  · omega
  · omega
  rw [operators]
  refine (hleft (n + 1) (by omega)).bind fun left hleft' => ?_
  split
  · next hconcat =>
    rw [hconcat] at hsingle
    cases hsingle
  · next hconcat =>
    obtain ⟨op, hop⟩ := x.exists_operator? hconcat
    refine takes_moreOperators hop hright (by omega) left fun e' he' => ?_
    rw [hsingle]
    exact .pure (hleft' ▸ he')

/-- Where `rest` follows, the tokens are read as a chain of operands at a level whose operators associate to the left:
the reader has this much of the chain when it comes to `rest`, and then it goes on. -/
def IsChain (c : ParseContext) (scope : Scope) (ℓ : OperatorLevel) (ts rest : List Token) (e : Expr) : Prop :=
  ∀ (m : ℕ) (R : Expr → Prop) (ts' : List Token),
    (∀ n left, m < n → left.unlocated = e → Takes c scope rest (moreOperators n ℓ left) R ts') →
    ∀ n, m + 20 * ts.length + 2 * (9 - ℓ.rank) ≤ n → Takes c scope (ts ++ rest) (operators n ℓ) R ts'

theorem IsOperand.chain (h : IsOperand c scope ℓ ts rest e) (hℓ : ℓ ≠ .concat) : IsChain c scope ℓ ts rest e := by
  intro m R ts' hmore n hn
  have hle := ℓ.rank_le
  obtain _ | n := n
  · omega
  rw [operators]
  refine (h n (by omega)).bind fun left hleft => ?_
  split
  · exact absurd rfl hℓ
  · exact hmore n left (by omega) hleft

/-- A chain gets longer by an operator and an operand. -/
theorem IsChain.cons {op : BinaryOp} (hop : x.operator? = some op) (hsingle : x.level.isSingle = false)
    (h : IsChain c scope x.level ts₁ (x.token :: (ts₂ ++ rest)) e₁) (hright : IsOperand c scope x.level ts₂ rest e₂) :
    IsChain c scope x.level (ts₁ ++ x.token :: ts₂) rest (x.apply e₁ e₂) := by
  intro m R ts' hmore n hn
  rw [List.length_append, List.length_cons] at hn
  rw [List.append_assoc, List.cons_append]
  refine h (m + 20 * ts₂.length + 2 * (9 - x.level.rank)) R ts' (fun k left hk hleft => ?_) n (by omega)
  obtain _ | k := k
  · omega
  have hle := x.level.rank_le
  refine takes_moreOperators hop hright (by omega) left fun e' he' => ?_
  rw [hsingle]
  exact hmore k e' (by omega) (hleft ▸ he')

theorem IsChain.phrase (h : IsChain c scope ℓ ts rest e) (hrest : Ends ℓ.rank rest) : IsPhrase c scope ℓ ts rest e := by
  intro n hn
  refine h 0 _ rest (fun k left hk hleft => ?_) n (by omega)
  obtain _ | k := k
  · omega
  exact (takes_moreOperators_end hrest left).imp fun e he => he ▸ hleft

/-! Concatenation. -/

/-- Where `rest` follows, the tokens are operands of concatenation: when the reader comes to `rest`, it goes on with the
other operands. -/
def IsJoined (c : ParseContext) (scope : Scope) (ts rest : List Token) (e : Expr) : Prop :=
  ∀ (m : ℕ) (items : List Expr) (ts' : List Token),
    (∀ n, m < n → Takes c scope rest (concatItems n) (·.map Expr.unlocated = items) ts') →
    (if rest.head? = some (.symbol .doublePipe) then items ≠ [] else items = [] ∧ ts' = rest) →
    ∀ n, m + 20 * ts.length + 2 * (9 - OperatorLevel.concat.rank) ≤ n →
      Takes c scope (ts ++ rest) (operators n .concat) (·.unlocated = items.foldl Expr.joined e) ts'

/-- An operand that is no concatenation is the first of a chain. -/
theorem IsOperand.joined (h : IsOperand c scope .concat ts rest e) (he : e.isCallTo .concat = false) :
    IsJoined c scope ts rest e := by
  intro m items ts' hmore hend n hn
  have hrank : OperatorLevel.concat.rank = 3 := rfl
  obtain _ | n := n
  · omega
  rw [operators]
  refine (h n (by omega)).bind fun left hleft => ?_
  refine (takes_check _).next ?_
  by_cases hnext : rest.head? = some (.symbol .doublePipe)
  · rw [hnext, beq_self_eq_true]
    rw [if_pos hnext] at hend
    refine takes_location.bind fun at' _ => (hmore n (by omega)).bind fun es hes => .pure ?_
    rw [Expr.unlocated_callAt, List.map_cons, hes, hleft, Expr.foldl_joined he hend]
  · rw [if_neg hnext] at hend
    obtain ⟨rfl, rfl⟩ := hend
    rw [beq_eq_false_iff_ne.2 hnext]
    exact .pure hleft

theorem IsJoined.cons (h : IsJoined c scope ts₁ (Infix.concat.token :: (ts₂ ++ rest)) e₁)
    (hright : IsOperand c scope .concat ts₂ rest e₂) : IsJoined c scope (ts₁ ++ Infix.concat.token :: ts₂) rest (e₁.joined e₂) := by
  intro m items ts' hmore hend n hn
  have hrank : OperatorLevel.concat.rank = 3 := rfl
  rw [List.length_append, List.length_cons] at hn
  rw [List.append_assoc, List.cons_append]
  refine h (m + 20 * ts₂.length + 2 * (9 - OperatorLevel.concat.rank)) (e₂ :: items) ts' (fun k hk => ?_)
    (by simp [Infix.token]) n (by omega)
  obtain _ | k := k
  · omega
  rw [concatItems]
  refine takes_eat.next ((hright k (by omega)).bind fun e he => ?_)
  exact (hmore k (by omega)).bind fun es hes => .pure (by rw [List.map_cons, he, hes])

theorem IsJoined.phrase (h : IsJoined c scope ts rest e) (hrest : Ends OperatorLevel.concat.rank rest) :
    IsPhrase c scope .concat ts rest e := by
  intro n hn
  refine h 0 [] rest (fun k hk => ?_) (by rw [if_neg hrest.ne_doublePipe]; exact ⟨rfl, rfl⟩) n (by omega)
  obtain _ | k := k
  · omega
  exact (takes_concatItems_end hrest).imp fun es hes => by rw [hes]; rfl

/-! Both kinds of chains. -/

/-- The left part of a chain at a level whose operators associate to the left. -/
def IsLeft (c : ParseContext) (scope : Scope) (ℓ : OperatorLevel) (ts rest : List Token) (e : Expr) : Prop :=
  if ℓ = .concat then IsJoined c scope ts rest e else IsChain c scope ℓ ts rest e

theorem IsOperand.left (h : IsOperand c scope ℓ ts rest e) (he : ℓ = .concat → e.isCallTo .concat = false) :
    IsLeft c scope ℓ ts rest e := by
  unfold IsLeft
  split
  · next hℓ =>
    subst hℓ
    exact h.joined (he rfl)
  · next hℓ => exact h.chain hℓ

theorem IsLeft.cons (hsingle : x.level.isSingle = false) (h : IsLeft c scope x.level ts₁ (x.token :: (ts₂ ++ rest)) e₁)
    (hright : IsOperand c scope x.level ts₂ rest e₂) :
    IsLeft c scope x.level (ts₁ ++ x.token :: ts₂) rest (x.apply e₁ e₂) := by
  unfold IsLeft at h ⊢
  cases hop : x.operator? with
  | none =>
    obtain rfl := Infix.operator?_eq_none hop
    have hℓ : Infix.concat.level = .concat := rfl
    rw [if_pos hℓ] at h ⊢
    exact h.cons hright
  | some op =>
    have hℓ : x.level ≠ .concat := x.level_ne_concat hop
    rw [if_neg hℓ] at h ⊢
    exact h.cons hop hsingle hright

theorem IsLeft.phrase (h : IsLeft c scope ℓ ts rest e) (hrest : Ends ℓ.rank rest) : IsPhrase c scope ℓ ts rest e := by
  unfold IsLeft at h
  split at h
  · next hℓ =>
    subst hℓ
    exact h.phrase hrest
  · exact h.phrase hrest

/-- Two operands of a level, of which the first is no concatenation, with an operator of the level between them. -/
theorem isPhrase_apply (hleft : IsOperand c scope x.level ts₁ (x.token :: (ts₂ ++ rest)) e₁)
    (he : e₁.isCallTo .concat = false) (hright : IsOperand c scope x.level ts₂ rest e₂)
    (hrest : Ends x.level.rank rest) : IsPhrase c scope x.level (ts₁ ++ x.token :: ts₂) rest (x.apply e₁ e₂) := by
  cases hsingle : x.level.isSingle with
  | true => exact isPhrase_single hsingle hleft hright
  | false => exact ((hleft.left fun _ => he).cons hsingle hright).phrase hrest

end Parser
end XPath
