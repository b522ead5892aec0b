import XPath.Proofs.Lexing

/-!
Comments are skipped after the raw tokens have been found, by the marks that are left among them. So a comment
is invisible in front of every text if it is when it stands alone, and it is if its marks nest and no character
of it hides a mark inside a longer token.
-/
namespace XPath
open Lexer

namespace Comment
variable {c : Char} {cs body : List Char} {depth n : ℕ}

/-- A comment with this body. -/
def text (body : List Char) : List Char := '(' :: ':' :: (body ++ [':', ')'])

/-- Whether the comment marks nest, with so many comments open before. -/
def nests : ℕ → List Char → Bool
  | depth, '(' :: ':' :: cs => nests (depth + 1) cs
  | depth + 1, ':' :: ')' :: cs => nests depth cs
  | 0, ':' :: ')' :: _ => false
  | depth, _ :: cs => nests depth cs
  | depth, [] => depth == 0

/-- Whether a character of a body can hide a comment mark: a quote and the start of a braced URI begin a literal,
which may go on over a mark, and a character right before a mark may be joined with the first one of the mark. -/
def hides (c : Char) (next : List Char) : Bool :=
  c = '"' || c = '\'' || (c = 'Q' && next.head? = some '\x7b') || (c = '(' && next = []) ||
    ((c = ':' || c = '*') && (next = [] || next.take 2 = [':', ')']))

/-- Whether no character of a body hides a mark. -/
def isClear : List Char → Bool
  | '(' :: ':' :: cs | ':' :: ')' :: cs => isClear cs
  | c :: cs => !hides c cs && isClear cs
  | [] => true

def startsMark : List Char → Bool
  | '(' :: ':' :: _ | ':' :: ')' :: _ => true
  | _ => false

theorem nests_cons (h : startsMark (c :: cs) = false) (depth : ℕ) : nests depth (c :: cs) = nests depth cs := by
  unfold startsMark at h
  rw [nests.eq_4] <;> grind

theorem isClear_cons (h : startsMark (c :: cs) = false) : isClear (c :: cs) = (!hides c cs && isClear cs) := by
  unfold startsMark at h
  rw [isClear.eq_3] <;> grind

theorem startsMark_of_ne (h : c ≠ ':' ∧ c ≠ '(') (cs : List Char) : startsMark (c :: cs) = false := by
  unfold startsMark
  split <;> simp_all

/-- Whether the marks that follow a raw token nest. -/
def nestsAfter (depth : ℕ) (rest : List Char) : RawToken → Bool
  | .commentOpen => nests (depth + 1) rest
  | .commentClose => 0 < depth && nests (depth - 1) rest
  | .space | .token _ => nests depth rest

/-- The raw token of `n` characters that begins with `c` ends inside the body `c :: cs`, and it is a mark just where
a mark is read. -/
structure Steps (c : Char) (cs : List Char) (raw : RawToken) (n : ℕ) : Prop where
  length : n ≤ cs.length + 1
  isClear : isClear (cs.drop (n - 1))
  nests depth : nests depth (c :: cs) = nestsAfter depth (cs.drop (n - 1)) raw

theorem skip {ys : List Char} (h : ∀ x ∈ ys, x ≠ ':' ∧ x ≠ '(') (rest : List Char) :
    (∀ depth, nests depth (ys ++ rest) = nests depth rest) ∧ (isClear (ys ++ rest) → isClear rest) := by
  induction ys with
  | nil => exact ⟨fun _ => rfl, id⟩
  | cons y ys ih =>
    obtain ⟨hy, hys⟩ := List.forall_mem_cons.1 h
    have hmark := startsMark_of_ne hy (ys ++ rest)
    refine ⟨fun depth => (nests_cons hmark depth).trans ((ih hys).1 depth), fun hclear => (ih hys).2 ?_⟩
    rw [List.cons_append, isClear_cons hmark, Bool.and_eq_true] at hclear
    exact hclear.2

theorem steps_plain {raw : RawToken} (hraw : raw ≠ .commentOpen ∧ raw ≠ .commentClose) (hc : c ≠ ':' ∧ c ≠ '(')
    (h : ∀ x ∈ (cs ++ [':', ')']).take (n - 1), x ≠ ':' ∧ x ≠ '(') (hclear : isClear (c :: cs)) :
    Steps c cs raw n := by
  have hn : n - 1 ≤ cs.length := by
    by_contra hlt
    have hmem : ':' ∈ (cs ++ [':', ')']).take (n - 1) := by
      rw [List.take_append, List.mem_append, show n - 1 - cs.length = (n - 1 - cs.length - 1) + 1 by omega]
      exact .inr (List.mem_cons_self ..)
    exact (h ':' hmem).1 rfl
  rw [List.take_append_of_le_length hn] at h
  obtain ⟨hnests, hrest⟩ := skip (List.forall_mem_cons.2 ⟨hc, h⟩) (cs.drop (n - 1))
  rw [List.cons_append, List.take_append_drop] at hnests hrest
  refine ⟨by omega, hrest hclear, fun depth => (hnests depth).trans ?_⟩
  cases raw <;> simp_all [nestsAfter]

theorem steps_one {t : Token} (hmark : startsMark (c :: cs) = false) (hclear : isClear (c :: cs)) :
    Steps c cs (.token t) 1 where
  length := Nat.le_add_left _ _
  isClear := by
    rw [isClear_cons hmark, Bool.and_eq_true] at hclear
    exact hclear.2
  nests := nests_cons hmark

theorem steps_two {d : Char} {t : Token} (hmark : startsMark (c :: d :: cs) = false)
    (hnext : startsMark (d :: cs) = false) (hclear : isClear (c :: d :: cs)) : Steps c (d :: cs) (.token t) 2 where
  length := by simp
  isClear := by
    rw [isClear_cons hmark, Bool.and_eq_true, isClear_cons hnext, Bool.and_eq_true] at hclear
    exact hclear.2.2
  nests depth := (nests_cons hmark depth).trans (nests_cons hnext depth)

theorem not_hides (hmark : startsMark (c :: cs) = false) (hclear : isClear (c :: cs)) : hides c cs = false := by
  rw [isClear_cons hmark, Bool.and_eq_true] at hclear
  simpa using hclear.1

theorem steps_paren (hmark : startsMark ('(' :: cs) = false) (hclear : isClear ('(' :: cs)) :
    Steps '(' cs (rawToken '(' (cs ++ [':', ')'])).1 (rawToken '(' (cs ++ [':', ')'])).2 := by
  have hhides := not_hides hmark hclear
  obtain _ | ⟨d, cs⟩ := cs
  · cases hhides
  · have hd : d ≠ ':' := by
      rintro rfl
      cases hmark
    have htoken : rawToken '(' (d :: (cs ++ [':', ')'])) = (.token (.symbol .leftParen), 1) := by
      change (symbol? _).getD _ = _
      simp [symbol?, hd]
    rw [List.cons_append, htoken]
    exact steps_one hmark hclear

theorem steps_asterisk (hmark : startsMark ('*' :: cs) = false) (hclear : isClear ('*' :: cs)) :
    Steps '*' cs (rawToken '*' (cs ++ [':', ')'])).1 (rawToken '*' (cs ++ [':', ')'])).2 := by
  have hhides := not_hides hmark hclear
  obtain _ | ⟨d, cs⟩ := cs
  · cases hhides
  · by_cases hd : d = ':'
    · subst hd
      have hnext : startsMark (':' :: cs) = false := by
        unfold startsMark
        split <;> simp_all [hides]
      exact steps_two hmark hnext hclear
    · have htoken : rawToken '*' (d :: (cs ++ [':', ')'])) = (.token (.symbol .asterisk), 1) := by
        change (symbol? _).getD _ = _
        simp [symbol?, hd]
      rw [List.cons_append, htoken]
      exact steps_one hmark hclear

theorem steps_colon (hmark : startsMark (':' :: cs) = false) (hclear : isClear (':' :: cs)) :
    Steps ':' cs (rawToken ':' (cs ++ [':', ')'])).1 (rawToken ':' (cs ++ [':', ')'])).2 := by
  have hhides := not_hides hmark hclear
  obtain _ | ⟨d, cs⟩ := cs
  · cases hhides
  · by_cases hjoined : d = '*' ∨ d = ':' ∨ d = '='
    · have hnext : startsMark (d :: cs) = false := by
        unfold startsMark
        split <;> simp_all [hides]
      have htoken : ∃ t, rawToken ':' (d :: (cs ++ [':', ')'])) = (.token t, 2) := by
        rcases hjoined with rfl | rfl | rfl <;> exact ⟨_, rfl⟩
      obtain ⟨t, htoken⟩ := htoken
      rw [List.cons_append, htoken]
      exact steps_two hmark hnext hclear
    · have hd : d ≠ ')' := by
        rintro rfl
        cases hmark
      have htoken : rawToken ':' (d :: (cs ++ [':', ')'])) = (.token (.symbol .colon), 1) := by
        change (symbol? _).getD _ = _
        simp_all [symbol?]
      rw [List.cons_append, htoken]
      exact steps_one hmark hclear

theorem symbol?_plain {t : RawToken × ℕ} (hc : c ≠ ':' ∧ c ≠ '(' ∧ c ≠ '*') (h : symbol? (c :: cs) = some t) :
    (∃ k, t.1 = .token k) ∧ ∀ x ∈ cs.take (t.2 - 1), x ≠ ':' ∧ x ≠ '(' := by
  unfold symbol? at h
  split at h <;> cases h
  all_goals
    rename_i h
    obtain ⟨rfl, rfl⟩ := List.cons.inj h
    simp at hc ⊢

theorem steps_other (hc : c ≠ ':' ∧ c ≠ '(' ∧ c ≠ '*') (hclear : isClear (c :: cs)) :
    Steps c cs (rawToken c (cs ++ [':', ')'])).1 (rawToken c (cs ++ [':', ')'])).2 := by
  have hhides := not_hides (startsMark_of_ne ⟨hc.1, hc.2.1⟩ cs) hclear
  have hplain {raw : RawToken} {n : ℕ} (hraw : raw ≠ .commentOpen ∧ raw ≠ .commentClose)
      (h : ∀ x ∈ (cs ++ [':', ')']).take (n - 1), x ≠ ':' ∧ x ≠ '(') : Steps c cs raw n :=
    steps_plain hraw ⟨hc.1, hc.2.1⟩ h hclear
  have hwhile {P : Char → Bool} (hP : P ':' = false ∧ P '(' = false) :
      ∀ x ∈ (cs ++ [':', ')']).take ((cs ++ [':', ')']).takeWhile P).length, x ≠ ':' ∧ x ≠ '(' := by
    intro x hx
    rw [← List.prefix_iff_eq_take.1 (List.takeWhile_prefix _)] at hx
    have := List.mem_takeWhile_imp hx
    constructor
    · rintro rfl
      simp_all
    · rintro rfl
      simp_all
  unfold rawToken
  split
  · refine hplain (by simp) ?_
    rw [Nat.add_sub_cancel_left]
    exact hwhile ⟨rfl, rfl⟩
  split
  · refine hplain (by simp) fun x hx => ?_
    have hmem : x ∈ (c :: (cs ++ [':', ')'])).take (number (c :: (cs ++ [':', ')']))).2 := by
      generalize (number (c :: (cs ++ [':', ')']))).2 = n at hx ⊢
      cases n with
      | zero => cases hx
      | succ n => exact List.mem_cons_of_mem c hx
    constructor
    · rintro rfl
      exact number_text rfl _ hmem
    · rintro rfl
      exact number_text rfl _ hmem
  split
  · simp_all [hides]
  split
  · cases cs <;> simp_all [hides]
  split
  · exact hplain (by simp) (hwhile (by decide))
  rcases hsymbol : symbol? (c :: (cs ++ [':', ')'])) with _ | t
  · exact hplain (by simp) (by simp)
  · obtain ⟨⟨k, hk⟩, htext⟩ := symbol?_plain hc hsymbol
    exact hplain (by simp [hk]) htext

theorem steps (hclear : isClear (c :: cs)) :
    Steps c cs (rawToken c (cs ++ [':', ')'])).1 (rawToken c (cs ++ [':', ')'])).2 := by
  by_cases hmark : startsMark (c :: cs)
  · unfold startsMark at hmark
    split at hmark
    · rename_i rest h
      obtain ⟨rfl, rfl⟩ := List.cons.inj h
      exact ⟨by simp [rawToken_open], hclear, fun _ => rfl⟩
    · rename_i rest h
      obtain ⟨rfl, rfl⟩ := List.cons.inj h
      exact ⟨by simp [rawToken_close], hclear, fun depth => by cases depth <;> rfl⟩
    · cases hmark
  · rw [Bool.not_eq_true] at hmark
    by_cases hparen : c = '('
    · exact hparen ▸ steps_paren (hparen ▸ hmark) (hparen ▸ hclear)
    by_cases hasterisk : c = '*'
    · exact hasterisk ▸ steps_asterisk (hasterisk ▸ hmark) (hasterisk ▸ hclear)
    by_cases hcolon : c = ':'
    · exact hcolon ▸ steps_colon (hcolon ▸ hmark) (hcolon ▸ hclear)
    exact steps_other ⟨hcolon, hparen, hasterisk⟩ hclear

/-- A body between its two marks leaves no token. The induction goes from one raw token to the next. -/
theorem delimit_body {o : OpenComment} (hnests : nests o.depth body) (hclear : isClear body) (p : Place) :
    delimit (some o) (rawLexemes p (body ++ [':', ')'])) = [] := by
  induction h : body.length using Nat.strong_induction_on generalizing body o p with
  | _ k ih =>
    obtain _ | ⟨c, cs⟩ := body
    · obtain hdepth : o.depth = 0 := by simpa [nests] using hnests
      rw [List.nil_append, rawLexemes_close]
      simp [delimit, hdepth, rawLexemes]
    · have hsteps := steps hclear
      rw [List.cons_append, rawLexemes_cons]
      generalize rawToken c (cs ++ [':', ')']) = t at hsteps ⊢
      obtain ⟨raw, n⟩ := t
      obtain ⟨hlength, hrest, hdepth⟩ := hsteps
      rw [hdepth] at hnests
      have hdrop : (cs ++ [':', ')']).drop (n - 1) = cs.drop (n - 1) ++ [':', ')'] :=
        List.drop_append_of_le_length (by omega)
      have hshorter : (cs.drop (n - 1)).length < k := by
        rw [← h, List.length_cons, List.length_drop]
        omega
      have hnext {o : OpenComment} (hnests : nests o.depth (cs.drop (n - 1))) (q : Place) :
          delimit (some o) (rawLexemes q ((cs ++ [':', ')']).drop (n - 1))) = [] := by
        rw [hdrop]
        exact ih _ hshorter hnests hrest q rfl
      cases raw with
      | commentOpen => exact hnext (o := ⟨o.depth + 1, _, _⟩) hnests _
      | commentClose =>
        obtain ⟨depth, otext, place⟩ := o
        obtain _ | depth := depth
        · cases hnests
        · exact hnext (by simpa [nestsAfter] using hnests) _
      | space | token k =>
        exact hnext (o := ⟨o.depth, o.text ++ (c :: _), o.place⟩) hnests _

/-- The tokens of every text after the comment are those of the text alone, behind the comment. -/
def Invisible (body : List Char) : Prop :=
  ∀ (rest : List Char) (line : ℕ), TokenStream.ofSource (text body ++ rest) 0 line =
    (TokenStream.ofSource rest 0 1).behind ((Place.mk 0 line 1).after (text body))

theorem ofSource_zero (cs : List Char) (line : ℕ) : TokenStream.ofSource cs 0 line =
    ⟨delimit none (joinNames (rawLexemes ⟨0, line, 1⟩ cs)), (Place.mk 0 line 1).after cs⟩ := by
  cases cs <;> rfl

theorem isCounted_first : (Place.mk 0 1 1).IsCounted := ⟨le_rfl, le_rfl⟩

theorem delimit_rawLexemes (p : Place) (cs : List Char) : delimit none (joinNames (rawLexemes p cs)) =
    (delimit none (joinNames (rawLexemes ⟨0, 1, 1⟩ cs))).map (.behind p) := by
  rw [← p.behind_first, rawLexemes_behind isCounted_first, joinNames_behind]
  exact delimit_behind none _

theorem exists_last_mark {p : Place} (h : delimit none (rawLexemes p (text body)) = []) :
    ∃ ls m, rawLexemes p (text body) = ls ++ [m] ∧ m.raw = .commentClose := by
  have htext := rawLexemes_text p (text body)
  rcases List.eq_nil_or_concat' (rawLexemes p (text body)) with hnil | ⟨ls, m, hls⟩
  · rw [hnil] at htext
    cases htext
  · have hmem : m ∈ rawLexemes p (text body) := by simp [hls]
    refine ⟨ls, m, hls, (delimit_last h (by simp [hls])).resolve_left fun hspace => ?_⟩
    refine not_mem_space hmem hspace ?_
    rcases List.eq_nil_or_concat' m.text with hempty | ⟨cs, c, hcs⟩
    · exact absurd hempty (text_ne_nil hmem)
    · rw [hls, List.flatMap_append, List.flatMap_singleton, hcs, ← List.append_assoc,
        show text body = '(' :: ':' :: (body ++ [':']) ++ [')'] by simp [text]] at htext
      obtain ⟨-, hc⟩ := List.append_inj' htext rfl
      rw [hcs, hc]
      exact List.mem_append_right cs (List.mem_singleton_self _)

theorem invisible_of_alone (h : (TokenStream.ofSource (text body) 0 1).lexemes = []) : Invisible body := by
  intro rest line
  rw [ofSource_zero] at h
  have hnil : delimit none (joinNames (rawLexemes ⟨0, line, 1⟩ (text body))) = [] := by
    rw [delimit_rawLexemes]
    exact congrArg _ h
  obtain ⟨ls, m, hls, hm⟩ := exists_last_mark ((delimit_joinNames_eq_nil none _).1 hnil)
  have hmark : joins m.raw = false := by rw [hm]; rfl
  have hjoin (ms : List RawLexeme) : joinNames (ls ++ [m] ++ ms) = joinNames (ls ++ [m]) ++ joinNames ms := by
    rw [List.append_assoc, List.singleton_append, joinNames_append hmark, joinNames_append hmark, List.append_assoc]
    rfl
  have hfinish : (Place.mk 0 line 1).after (text body ++ rest) =
      ((Place.mk 0 line 1).after (text body)).behind ((Place.mk 0 1 1).after rest) := by
    rw [Place.after_append, Place.behind_after isCounted_first, Place.behind_first]
  rw [ofSource_zero, ofSource_zero, rawLexemes_append hls hm, hls, hjoin, ← hls, delimit_append hnil,
    delimit_rawLexemes, hfinish]
  rfl

theorem alone_of_invisible (h : Invisible body) : (TokenStream.ofSource (text body) 0 1).lexemes = [] := by
  have halone := h [] 1
  rw [List.append_nil] at halone
  rw [halone, ofSource_zero, rawLexemes]
  rfl

theorem invisible_of_clear (hnests : nests 0 body) (hclear : isClear body) : Invisible body := by
  refine invisible_of_alone ?_
  rw [ofSource_zero]
  refine (delimit_joinNames_eq_nil none _).2 ?_
  rw [text, rawLexemes_open]
  exact delimit_body (o := ⟨0, _, _⟩) hnests hclear _

/-- A comment is invisible in front of every text exactly if no token is left of it when it stands alone. It is
invisible if its marks nest and no other character hides one of them. -/
theorem invisible_exactly (body : List Char) :
    (Invisible body ↔ (TokenStream.ofSource (text body) 0 1).lexemes = []) ∧
      (nests 0 body → isClear body → Invisible body) :=
  ⟨⟨alone_of_invisible, invisible_of_alone⟩, invisible_of_clear⟩

theorem invisible_exactly_banner : Invisible " ** \x7b1\x7d (: a := b*c :) 2::- ** ".toList :=
  (invisible_exactly _).2 (by decide) (by decide)

/-- An apostrophe begins a string literal, which goes on over the end of the comment. -/
theorem visible_apostrophe : nests 0 " don't ".toList ∧ ¬ Invisible " don't ".toList := by
  refine ⟨by decide, fun h => ?_⟩
  have halone := alone_of_invisible h
  revert halone
  decide +kernel

end Comment
end XPath
