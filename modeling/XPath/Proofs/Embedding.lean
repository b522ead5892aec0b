import XPath.Proofs.Positions
import XPath.Proofs.Spelling

/-!
The tokens of a text that a right brace follows. No token goes on over the brace, unless it is one that is not closed;
so if the text alone is well-formed, its tokens are found before the brace as well, whatever stands behind it.
-/
namespace XPath
open Lexer

namespace Lexer
variable {c : Char} {cs xs zs : List Char} {p : Place} {r m : RawLexeme} {rs ms : List RawLexeme}

theorem stringBody_append {q a : Char} (ha : a ≠ q) {t : List Char × ℕ} (h : stringBody q xs = some t)
    (zs : List Char) : stringBody q (xs ++ a :: zs) = some t ∧ t.2 ≤ xs.length := by
  fun_induction stringBody q xs generalizing t with
  | case1 => cases h
  | case2 =>
    cases h
    simp [stringBody, ha]
  | case3 => cases h
  | case4 rest ih =>
    obtain ⟨⟨v, n⟩, hbody, rfl⟩ := Option.map_eq_some_iff.1 h
    obtain ⟨hbody, hn⟩ := ih hbody
    simp only [List.cons_append, stringBody, if_true, hbody, Option.map_some, List.length_cons, true_and]
    omega
  | case5 d rest hd =>
    cases h
    simp [stringBody, hd]
  | case6 c d rest hc ih =>
    obtain ⟨⟨v, n⟩, hbody, rfl⟩ := Option.map_eq_some_iff.1 h
    obtain ⟨hbody, hn⟩ := ih hbody
    rw [List.cons_append] at hbody
    simp only [List.cons_append, stringBody, hc, if_false, hbody, Option.map_some, List.length_cons, true_and] at hn ⊢
    omega

theorem symbol?_length {t : RawToken × ℕ} (h : symbol? (c :: cs) = some t) : t.2 ≤ cs.length + 1 := by
  unfold symbol? at h
  split at h <;> cases h
  all_goals
    rename_i h
    obtain ⟨rfl, rfl⟩ := List.cons.inj h
    simp

/-- A braced URI that is not closed goes on to the end, and any other one ends before the brace. -/
theorem bracedUri_brace (xs : List Char) : bracedUri xs = (.error, xs.length) ∨
    (bracedUri xs).2 ≤ xs.length ∧ ∀ zs, bracedUri (xs ++ '\x7d' :: zs) = bracedUri xs := by
  have hle := (List.takeWhile_prefix (fun c => decide (c ≠ '\x7b' ∧ c ≠ '\x7d')) (l := xs)).length_le
  have hwhile (zs : List Char) := takeWhile_append_stop (a := '\x7d')
    (P := fun c => decide (c ≠ '\x7b' ∧ c ≠ '\x7d')) rfl xs zs
  have hlength := List.length_drop (i := (xs.takeWhile fun c => decide (c ≠ '\x7b' ∧ c ≠ '\x7d')).length) (l := xs)
  unfold bracedUri
  simp only [hwhile, drop_append_cons hle]
  rcases hrest : xs.drop (xs.takeWhile fun c => decide (c ≠ '\x7b' ∧ c ≠ '\x7d')).length with _ | ⟨d, rest⟩
  · rw [hrest] at hlength
    left
    simp only [List.head?_nil, reduceCtorEq, if_false, Prod.mk.injEq, true_and]
    simp only [List.length_nil] at hlength
    omega
  · rw [hrest, List.length_cons] at hlength
    right
    simp only [List.head?_cons, List.cons_append]
    refine ⟨?_, fun _ => rfl⟩
    by_cases hd : some d = some '\x7d' <;> simp only [hd, if_true, if_false] <;> omega

/-- No symbol goes on with a right brace. -/
theorem symbol?_brace (c : Char) (zs : List Char) : symbol? (c :: '\x7d' :: zs) = symbol? [c] := by
  refine Option.ext fun t => ⟨fun h => ?_, fun h => ?_⟩
  all_goals
    unfold symbol? at h
    split at h <;> cases h
  all_goals
    rename_i h
    obtain ⟨rfl, htail⟩ := List.cons.inj h
    first
      | rfl
      | simp at htail

/-- A raw token that is not closed goes on to the end, and any other one ends before the brace. -/
theorem rawToken_brace (c : Char) (cs : List Char) : rawToken c cs = (.token .error, cs.length + 1) ∨
    (rawToken c cs).2 ≤ cs.length + 1 ∧ ∀ zs, rawToken c (cs ++ '\x7d' :: zs) = rawToken c cs := by
  have hwhile (P : Char → Bool) : (cs.takeWhile P).length ≤ cs.length := (List.takeWhile_prefix P).length_le
  by_cases hspace : Blank.isSpace c
  · right
    simp only [rawToken, hspace, if_true]
    have := hwhile Blank.isSpace
    exact ⟨by omega, fun zs => by rw [takeWhile_append_stop (show Blank.isSpace '\x7d' = false from rfl)]⟩
  have hhead (zs : List Char) : (cs ++ '\x7d' :: zs).head?.any Char.isDigit = cs.head?.any Char.isDigit := by
    cases cs <;> rfl
  have hopen (zs : List Char) : (cs ++ '\x7d' :: zs).head? = some '\x7b' ↔ cs.head? = some '\x7b' := by
    cases cs <;> simp
  by_cases hdigit : c.isDigit || (c = '.' && cs.head?.any Char.isDigit)
  · right
    simp only [rawToken, hspace, hhead, hdigit, if_true, Bool.false_eq_true, if_false]
    exact ⟨number_length (c :: cs), fun zs => by rw [← List.cons_append, number_append rfl]⟩
  by_cases hquote : c = '"' || c = '\''
  · simp only [rawToken, hspace, hhead, hdigit, hquote, if_true, Bool.false_eq_true, if_false]
    rcases hbody : stringBody c cs with _ | t
    · exact .inl rfl
    · have hc : '\x7d' ≠ c := by rintro rfl; cases hquote
      right
      refine ⟨Nat.succ_le_succ (stringBody_append hc hbody []).2, fun zs => ?_⟩
      rw [(stringBody_append hc hbody zs).1]
  by_cases huri : c = 'Q' && cs.head? = some '\x7b'
  · obtain ⟨rfl, xs, rfl⟩ : c = 'Q' ∧ ∃ xs, cs = '\x7b' :: xs := by
      cases cs <;> simp_all
    rw [rawToken_uri]
    obtain herror | ⟨hle, hsame⟩ := bracedUri_brace xs
    · left
      rw [herror]
      rfl
    · right
      refine ⟨Nat.add_le_add_right hle 2, fun zs => ?_⟩
      rw [List.cons_append, rawToken_uri, hsame]
  right
  have hname (zs : List Char) : (cs ++ '\x7d' :: zs).takeWhile isNameChar = cs.takeWhile isNameChar :=
    takeWhile_append_stop (show isNameChar '\x7d' = false by decide) cs zs
  have hsymbol (zs : List Char) : symbol? (c :: (cs ++ '\x7d' :: zs)) = symbol? (c :: cs) := by
    cases cs with
    | nil => exact symbol?_brace c zs
    | cons d cs => exact symbol?_congr c d _ _
  simp only [rawToken, hspace, hhead, hopen, hdigit, hquote, huri, hname, hsymbol, Bool.false_eq_true, if_false,
    implies_true, and_true]
  split
  · exact Nat.succ_le_succ (hwhile isNameChar)
  · rcases h : symbol? (c :: cs) with _ | t
    · exact Nat.le_add_left 1 _
    · exact symbol?_length h

/-- If the last raw token is closed, all of them are the same before a brace. -/
theorem rawLexemes_brace (h : ∀ r ∈ (rawLexemes p cs).getLast?, r.raw ≠ .token .error) (zs : List Char) :
    rawLexemes p (cs ++ '\x7d' :: zs) = rawLexemes p cs ++
      ⟨.token (.symbol .rightBrace), ['\x7d'], p.after cs⟩ :: rawLexemes (p.after (cs ++ ['\x7d'])) zs := by
  fun_induction rawLexemes p cs with
  | case1 p =>
    have htoken : rawToken '\x7d' zs = (.token (.symbol .rightBrace), 1) := rfl
    exact rawLexemes_of_rawToken_one htoken p
  | case2 p c cs raw n hraw text =>
    rename_i ih
    obtain herror | ⟨hn, hsame⟩ := rawToken_brace c cs
    · obtain ⟨rfl, rfl⟩ := Prod.mk.inj (hraw.symm.trans herror)
      refine absurd rfl (h ⟨.token .error, text, p⟩ ?_)
      rw [Nat.add_sub_cancel, List.drop_length, rawLexemes]
      rfl
    · rw [hraw] at hn hsame
      have hle : n - 1 ≤ cs.length := by dsimp only at hn; omega
      have hrest := ih fun r hr => h r (by rw [List.getLast?_cons]; simp_all)
      have hafter (ds : List Char) : (p.after text).after (cs.drop (n - 1) ++ ds) = p.after (c :: cs ++ ds) := by
        rw [← Place.after_append, ← List.append_assoc, List.cons_append, List.take_append_drop]
      rw [List.cons_append, rawLexemes_cons, hsame, List.take_append_of_le_length hle,
        List.drop_append_of_le_length hle, hrest, hafter]
      have hplace := hafter []
      rw [List.append_nil, List.append_nil] at hplace
      rw [hplace]
      rfl

/-- An error at the end of a text is found there, or else a comment is not closed. -/
theorem exists_error {o : Option OpenComment} (hr : r.raw = .token .error) (rs : List RawLexeme) :
    ∃ l ∈ delimit o (rs ++ [r]), l.token = .error := by
  fun_induction delimit o rs with
  | case1 =>
    have hnone : collides .error none = false := rfl
    simp [delimit, hr, hnone]
  | case2 o => simp [delimit, hr]
  | _ => grind [delimit]

theorem collides_brace (hm : m.raw = .token (.symbol .rightBrace)) (t : Token) (rs ms : List RawLexeme) :
    collides t (rs ++ m :: ms).head? = collides t rs.head? := by
  obtain ⟨raw, text, place⟩ := m
  obtain rfl : raw = _ := hm
  cases rs with
  | nil => cases t <;> rfl
  | cons r rs => rfl

/-- Without errors, the tokens before a brace are those of the text alone. -/
theorem delimit_brace {o : Option OpenComment} (h : ∀ l ∈ delimit o rs, l.token ≠ .error)
    (hm : m.raw = .token (.symbol .rightBrace)) (ms : List RawLexeme) :
    delimit o (rs ++ m :: ms) = delimit o rs ++ ⟨.symbol .rightBrace, m.text, m.place, m.stop⟩ :: delimit none ms := by
  have hcollides := collides_brace hm
  fun_induction delimit o rs with
  | case2 o => simp at h
  | _ => grind [delimit, collides_symbol]

/-- The tokens of a text that is well-formed alone, before a brace. -/
theorem lexemes_brace (h : ∀ l ∈ delimit none (joinNames (rawLexemes p cs)), l.token ≠ .error) (zs : List Char) :
    ∃ stop more, delimit none (joinNames (rawLexemes p (cs ++ '\x7d' :: zs))) =
      delimit none (joinNames (rawLexemes p cs)) ++ ⟨.symbol .rightBrace, ['\x7d'], p.after cs, stop⟩ :: more := by
  have hlast : ∀ r ∈ (rawLexemes p cs).getLast?, r.raw ≠ .token .error := by
    intro r hr herror
    obtain ⟨rs, hrs⟩ := List.getLast?_eq_some_iff.1 hr
    have hjoin : joinNames (rs ++ [r]) = joinNames rs ++ [r] := joinNames_append (by rw [herror]; rfl) rs []
    obtain ⟨l, hl, htoken⟩ := exists_error (o := none) herror (joinNames rs)
    rw [← hjoin, ← hrs] at hl
    exact h l hl htoken
  rw [rawLexemes_brace hlast, joinNames_append rfl, delimit_brace h rfl]
  exact ⟨_, _, rfl⟩

end Lexer

/-- A text that is well-formed alone has the same tokens, with the same texts, where a brace ends it in a source. -/
theorem TokenStream.ofSource_brace {text : List Char} (h : ∀ l ∈ (ofSource text 0 1).lexemes, l.token ≠ .error)
    (before rest : List Char) (line : ℕ) : ∃ ls brace more,
      (ofSource (before ++ (text ++ '\x7d' :: rest)) (String.utf8Len before) line).lexemes = ls ++ brace :: more ∧
      ls.map (fun l => (l.token, l.text)) = (ofSource text 0 1).lexemes.map (fun l => (l.token, l.text)) ∧
      (brace.token, brace.text) = (.symbol .rightBrace, ['\x7d']) ∧
      brace.place.offset = String.utf8Len (before ++ text) := by
  rw [Comment.ofSource_zero] at h ⊢
  dsimp only at h ⊢
  have halone := Comment.delimit_rawLexemes (Place.start before line) text
  have hvalid : ∀ l ∈ delimit none (joinNames (rawLexemes (Place.start before line) text)), l.token ≠ .error := by
    rw [halone]
    exact List.forall_mem_map.2 h
  obtain ⟨stop, more, hmore⟩ := lexemes_brace hvalid rest
  have hsource : (ofSource (before ++ (text ++ '\x7d' :: rest)) (String.utf8Len before) line).lexemes =
      delimit none (joinNames (rawLexemes (Place.start before line) (text ++ '\x7d' :: rest))) := by
    rw [ofSource, Place.splitAtOffset_utf8Len]
  refine ⟨_, _, more, hsource.trans hmore, ?_, rfl, ?_⟩
  · rw [halone, List.map_map]
    rfl
  · rw [Place.offset_after, Place.offset_start, String.utf8Len_append]

/-- The scanner passes over no error. -/
theorem Scan.valid_of_walk {finish : Place} {awaited : List Symbol} {ls : List Lexeme} {n : ℕ}
    (h : walk .endOfInput finish awaited ls = .ok n) : ∀ l ∈ ls, l.token ≠ .error := by
  induction ls generalizing awaited with
  | nil => exact List.forall_mem_nil _
  | cons l ls ih =>
    have hpass {awaited : List Symbol} (h : walk .endOfInput finish awaited ls = .ok n) (hl : l.token ≠ .error) :
        ∀ x ∈ l :: ls, x.token ≠ .error := List.forall_mem_cons.2 ⟨hl, ih h⟩
    rw [walk.eq_def] at h
    dsimp only at h
    split at h
    · next x hx =>
      refine hpass h fun herror => ?_
      rw [herror] at hx
      cases hx
    · split_ifs at h with herror hclosing hend
      · exact hpass h herror
      · exact absurd hend.2 id
      · split at h
        · split_ifs at h with hclose
          exact hpass h herror
        · cases h

end XPath
