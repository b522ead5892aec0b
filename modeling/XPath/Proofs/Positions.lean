import XPath.Token.Reader
import XPath.Proofs.Comments

/-!
Where the tokens of a source stand, and what stands between them. A text is laid out as gaps and tokens: every
token begins where the gap before it ends, and a gap is white space and comments that the lexer skips.
-/
namespace XPath
open Lexer

namespace Place
variable {p q : Place}

theorem line_advance (p : Place) (c : Char) : (p.advance c).line = p.line + if c = '\n' then 1 else 0 := by
  unfold advance
  split <;> rfl

theorem line_after (p : Place) (cs : List Char) : (p.after cs).line = p.line + cs.count '\n' := by
  induction cs generalizing p with
  | nil => rfl
  | cons c cs ih =>
    change ((p.advance c).after cs).line = _
    rw [ih, line_advance, List.count_cons, Nat.add_assoc, Nat.add_comm (ite _ _ _)]
    simp

theorem column_after_congr (h : p.column = q.column) (cs : List Char) : (p.after cs).column = (q.after cs).column := by
  induction cs generalizing p q with
  | nil => exact h
  | cons c cs ih =>
    refine ih (p := p.advance c) (q := q.advance c) ?_
    unfold advance
    split <;> simp [h]

/-- The characters of a text after its last line break. -/
def lastLine (cs : List Char) : List Char := (cs.reverse.takeWhile (· ≠ '\n')).reverse

theorem lastLine_concat (cs : List Char) (c : Char) :
    lastLine (cs ++ [c]) = if c = '\n' then [] else lastLine cs ++ [c] := by
  unfold lastLine
  rw [List.reverse_append, List.reverse_singleton, List.singleton_append, List.takeWhile_cons]
  by_cases h : c = '\n' <;> simp [h]

theorem column_after (cs : List Char) : ((Place.mk 0 1 1).after cs).column = (lastLine cs).length + 1 := by
  induction cs using List.reverseRecOn with
  | nil => rfl
  | append_singleton cs c ih =>
    rw [after_append, lastLine_concat]
    change (advance _ c).column = _
    unfold advance
    split
    · rfl
    · simp [ih]

/-- A place behind the start of a source, from the text before the start and the text since. -/
theorem start_after (before done : List Char) (line : ℕ) : (Place.start before line).after done =
    ⟨String.utf8Len (before ++ done), line + done.count '\n', (lastLine (before ++ done)).length + 1⟩ := by
  have hoffset : ((Place.start before line).after done).offset = String.utf8Len (before ++ done) := by
    rw [offset_after, String.utf8Len_append, offset_start]
  have hline : ((Place.start before line).after done).line = line + done.count '\n' := line_after _ done
  have hcolumn : ((Place.start before line).after done).column = (((Place.mk 0 1 1).after before).after done).column :=
    column_after_congr (show (Place.start before line).column = ((Place.mk 0 1 1).after before).column from rfl) done
  rw [← after_append, column_after] at hcolumn
  rw [← hoffset, ← hline, ← hcolumn]

theorem splitAtOffset_utf8Len (xs ys : List Char) : splitAtOffset (String.utf8Len xs) (xs ++ ys) = (xs, ys) := by
  induction xs with
  | nil => cases ys <;> rfl
  | cons x xs ih =>
    have hpos := x.utf8Size_pos
    rw [List.cons_append, splitAtOffset, String.utf8Len_cons, if_neg (by omega), Nat.add_sub_cancel, ih]

end Place

theorem sourceSlice_append (xs ys zs : List Char) :
    sourceSlice (xs ++ (ys ++ zs)) (String.utf8Len xs) (String.utf8Len (xs ++ ys)) = ys := by
  unfold sourceSlice
  rw [Place.splitAtOffset_utf8Len, String.utf8Len_append, Nat.add_sub_cancel_left, Place.splitAtOffset_utf8Len]

namespace Lexer
variable {p : Place} {cs : List Char} {r : RawLexeme} {rs : List RawLexeme} {depth : ℕ}

/-- What is left after the end of a comment when so many more are open around it. -/
def closes : ℕ → List RawLexeme → Option (List RawLexeme)
  | _, [] => none
  | depth, r :: rest =>
    match r.raw with
    | .commentOpen => closes (depth + 1) rest
    | .commentClose => if depth = 0 then some rest else closes (depth - 1) rest
    | _ => closes depth rest

theorem closes_joinNames (depth : ℕ) (rs : List RawLexeme) :
    closes depth (joinNames rs) = (closes depth rs).map joinNames := by
  fun_induction joinNames rs generalizing depth <;> grind [closes]

theorem text_joinNames (rs : List RawLexeme) : (joinNames rs).flatMap (·.text) = rs.flatMap (·.text) := by
  fun_induction joinNames rs <;> simp_all

theorem delimit_open (o : OpenComment) (rs : List RawLexeme) : delimit (some o) rs =
    match closes o.depth rs with
    | some rest => delimit none rest
    | none => [⟨.error, o.text ++ rs.flatMap (·.text), o.place,
        (o.place.after (o.text ++ rs.flatMap (·.text))).offset⟩] := by
  induction rs generalizing o with
  | nil => simp [delimit, closes]
  | cons r rs ih =>
    rcases hraw : r.raw
    · simp [delimit, closes, hraw, ih]
    · simp [delimit, closes, hraw, ih]
    · simp [delimit, closes, hraw, ih]
    · rcases hdepth : o.depth <;> simp [delimit, closes, hraw, ih, hdepth]

theorem rawLexemes_ne_nil (hcs : cs ≠ []) : rawLexemes p cs ≠ [] := by
  obtain ⟨c, cs, rfl⟩ := List.exists_cons_of_ne_nil hcs
  rw [rawLexemes_cons]
  exact List.cons_ne_nil _ _

theorem eq_of_rawLexemes (h : rawLexemes p cs = r :: rs) :
    r.place = p ∧ r.text ≠ [] ∧ ∃ rest, cs = r.text ++ rest ∧ rs = rawLexemes (p.after r.text) rest := by
  obtain _ | ⟨c, cs⟩ := cs
  · simp [rawLexemes] at h
  · rw [rawLexemes_cons] at h
    obtain ⟨rfl, rfl⟩ := List.cons.inj h
    exact ⟨rfl, List.cons_ne_nil _ _, _, by rw [List.cons_append, List.take_append_drop], rfl⟩

/-- A comment that is skipped is skipped as well when nothing stands after it. -/
theorem closes_rawLexemes (h : closes depth (rawLexemes p cs) = some rs) : ∃ body rest,
    cs = body ++ ':' :: ')' :: rest ∧ rs = rawLexemes (p.after (body ++ [':', ')'])) rest ∧
      closes depth (rawLexemes p (body ++ [':', ')'])) = some [] := by
  fun_induction rawLexemes p cs generalizing depth with
  | case1 => cases h
  | case2 p c cs raw n hraw text =>
    rename_i ih
    by_cases hclose : raw = .commentClose ∧ depth = 0
    · obtain ⟨rfl, rfl⟩ := hclose
      have hat := rawToken_isAt c cs
      rw [hraw] at hat
      obtain ⟨hn, rfl, rest, rfl⟩ := hat
      obtain rfl : n = 2 := hn
      refine ⟨[], rest, rfl, (Option.some.inj h).symm, ?_⟩
      rw [List.nil_append, rawLexemes_close]
      simp [closes, rawLexemes]
    · -- The text goes on behind this raw token.
      obtain ⟨depth', hstep⟩ : ∃ depth', ∀ q qs, closes depth (⟨raw, text, q⟩ :: qs) = closes depth' qs := by
        cases raw with
        | commentOpen => exact ⟨depth + 1, fun _ _ => rfl⟩
        | commentClose => exact ⟨depth - 1, fun _ _ => if_neg (by simpa using hclose)⟩
        | space | token _ => exact ⟨depth, fun _ _ => rfl⟩
      rw [hstep] at h
      obtain ⟨body, rest, hcs, hrs, hbody⟩ := ih h
      have hn : n - 1 < cs.length := by
        have := congrArg List.length hcs
        simp at this
        omega
      have hsplit (more : List Char) :
          cs.take (n - 1) ++ (body ++ ':' :: more) = (cs.take (n - 1) ++ body) ++ ':' :: more :=
        (List.append_assoc _ _ _).symm
      have hcs' : cs = cs.take (n - 1) ++ (body ++ ':' :: ')' :: rest) := by rw [← hcs, List.take_append_drop]
      have htoken : rawToken c (cs.take (n - 1) ++ (body ++ [':', ')'])) = (raw, n) := by
        rw [← hraw, hsplit]
        nth_rewrite 2 [hcs']
        rw [hsplit]
        refine rawToken_mark ?_ [')']
        rw [← hsplit, ← hcs', hraw]
        simp
        omega
      have htake : (cs.take (n - 1)).length = n - 1 := List.length_take_of_le hn.le
      refine ⟨text ++ body, rest, ?_, ?_, ?_⟩
      · rw [List.append_assoc, ← hcs, List.cons_append, List.take_append_drop]
      · rw [hrs, ← Place.after_append, List.append_assoc]
      · rw [List.append_assoc, List.cons_append, rawLexemes_cons, htoken]
        dsimp only
        rw [List.take_left' htake, List.drop_left' htake, hstep]
        exact hbody

theorem isSpace_of_mem_text (hr : r ∈ rawLexemes p cs) (h : r.raw = .space) {c : Char} (hc : c ∈ r.text) :
    Blank.isSpace c := by
  obtain ⟨d, ds, hraw, htext⟩ := exists_rawToken hr
  have hat := rawToken_isAt d ds
  rw [← hraw, h] at hat
  obtain ⟨hd, hn⟩ := hat
  rw [htext, hn, Nat.add_sub_cancel_left, ← List.prefix_iff_eq_take.1 (List.takeWhile_prefix _),
    ← List.takeWhile_cons_of_pos hd] at hc
  exact List.mem_takeWhile_imp hc

theorem text_commentOpen (hr : r ∈ rawLexemes p cs) (h : r.raw = .commentOpen) : r.text = ['(', ':'] := by
  obtain ⟨c, ds, hraw, htext⟩ := exists_rawToken hr
  have hat := rawToken_isAt c ds
  rw [← hraw, h] at hat
  obtain ⟨hn, rfl, rest, rfl⟩ := hat
  rw [htext, hn]
  rfl

theorem rawLexemes_split {xs ys : List RawLexeme} (h : rawLexemes p cs = xs ++ ys) : ∃ rest,
    cs = xs.flatMap (·.text) ++ rest ∧ ys = rawLexemes (p.after (xs.flatMap (·.text))) rest := by
  induction xs generalizing p cs with
  | nil => exact ⟨cs, rfl, h.symm⟩
  | cons x xs ih =>
    obtain ⟨-, -, rest, rfl, hrest⟩ := eq_of_rawLexemes h
    obtain ⟨rest, rfl, rfl⟩ := ih hrest.symm
    exact ⟨rest, (List.append_assoc _ _ _).symm, by rw [List.flatMap_cons, Place.after_append]⟩

theorem joinNames_cons (r : RawLexeme) (rs : List RawLexeme) : joinNames (r :: rs) =
    let (raw, n) := Cursor.join r.raw (rs[0]?.map (·.raw)) (rs[1]?.map (·.raw))
    ⟨raw, r.text ++ (rs.take n).flatMap (·.text), r.place⟩ :: joinNames (rs.drop n) := by
  generalize hall : r :: rs = all
  fun_cases joinNames all with
  | case6 r' rest h₁ h₂ h₃ h₄ h₅ =>
    obtain ⟨rfl, rfl⟩ := List.cons.inj hall
    have hjoin : Cursor.join r.raw (rs[0]?.map (·.raw)) (rs[1]?.map (·.raw)) = (r.raw, 0) := by
      obtain ⟨raw, text, place⟩ := r
      refine Cursor.join.eq_6 _ _ _ ?_ ?_ ?_ ?_ ?_
      rotate_right
      · intro p l hr hsecond hthird
        obtain rfl : raw = _ := hr
        rcases rs with _ | ⟨⟨second, _, _⟩, _ | ⟨⟨third, _, _⟩, rs⟩⟩
        · cases hsecond
        · cases hthird
        · cases hsecond
          cases hthird
          exact h₁ _ _ _ _ _ _ _ _ _ rfl rfl
      all_goals
        intros
        rename_i hr hsecond
        obtain rfl : raw = _ := hr
        rcases rs with _ | ⟨⟨second, _, _⟩, rs⟩
        · cases hsecond
        · cases hsecond
          first
            | exact h₂ _ _ _ _ _ _ rfl rfl
            | exact h₃ _ _ _ _ _ _ rfl rfl
            | exact h₄ _ _ _ _ _ _ _ rfl rfl
            | exact h₅ _ _ _ _ _ _ rfl rfl
    simp [hjoin]
  | case7 => cases hall
  | _ =>
    obtain ⟨rfl, rfl⟩ := List.cons.inj hall
    simp [Cursor.join]

theorem join_eq_or_token (t : RawToken) (u v : Option RawToken) :
    Cursor.join t u v = (t, 0) ∨ ∃ k, (Cursor.join t u v).1 = .token k := by
  unfold Cursor.join
  split <;> simp

/-- The text of a joined token that is white space or a comment mark. -/
def IsMarkText (text : List Char) : RawToken → Prop
  | .space => ∀ c ∈ text, Blank.isSpace c
  | .commentOpen => text = ['(', ':']
  | .commentClose => text = [':', ')']
  | .token _ => True

/-- The first of the joined tokens of a text that is not empty, and the rest of the text. -/
theorem joinNames_rawLexemes (p : Place) (hcs : cs ≠ []) : ∃ raw text rest, cs = text ++ rest ∧ text ≠ [] ∧
    joinNames (rawLexemes p cs) = ⟨raw, text, p⟩ :: joinNames (rawLexemes (p.after text) rest) ∧
    IsMarkText text raw := by
  obtain ⟨r, rs, hr⟩ := List.exists_cons_of_ne_nil (rawLexemes_ne_nil (p := p) hcs)
  obtain ⟨rfl, htext, -⟩ := eq_of_rawLexemes hr
  have hjoin := joinNames_cons r rs
  have hraw := join_eq_or_token r.raw (rs[0]?.map (·.raw)) (rs[1]?.map (·.raw))
  generalize Cursor.join r.raw _ _ = t at hjoin hraw
  obtain ⟨raw, n⟩ := t
  rw [← List.take_append_drop n rs, ← List.cons_append] at hr
  obtain ⟨ds, hcs, hdrop⟩ := rawLexemes_split hr
  refine ⟨raw, _, ds, hcs, by simp [htext], ?_, ?_⟩
  · rw [← hdrop, hr, List.cons_append, List.take_append_drop]
    exact hjoin
  have hmem : r ∈ rawLexemes r.place cs := hr ▸ List.mem_cons_self ..
  obtain hraw | ⟨t, rfl⟩ := hraw
  · obtain ⟨rfl, rfl⟩ := Prod.mk.inj hraw
    rw [List.take_zero, List.flatMap_singleton]
    rcases hraw : r.raw
    · trivial
    · exact fun c hc => isSpace_of_mem_text hmem hraw hc
    · exact text_commentOpen hmem hraw
    · exact text_commentClose hmem hraw
  · trivial

end Lexer

theorem Comment.invisible_of_closes {p : Place} {body : List Char}
    (h : closes 0 (rawLexemes (p.after ['(', ':']) (body ++ [':', ')'])) = some []) : Invisible body := by
  have hnil : delimit none (joinNames (rawLexemes p (text body))) = [] := by
    refine (delimit_joinNames_eq_nil none _).2 ?_
    rw [text, rawLexemes_open, delimit, delimit_open, h]
    rfl
  rw [delimit_rawLexemes, List.map_eq_nil_iff] at hnil
  exact invisible_of_alone (by rw [ofSource_zero]; exact hnil)

theorem Comment.nests_of_closes {p : Place} {body : List Char} {depth : ℕ}
    (h : closes depth (rawLexemes p (body ++ [':', ')'])) = some []) (hclear : isClear body) : nests depth body := by
  induction hlength : body.length using Nat.strong_induction_on generalizing body depth p with
  | _ k ih =>
    obtain _ | ⟨c, cs⟩ := body
    · rw [List.nil_append, rawLexemes_close] at h
      simp only [closes, rawLexemes] at h
      split at h
      · next hdepth => simp [hdepth, nests]
      · cases h
    · have hsteps := steps hclear
      rw [List.cons_append, rawLexemes_cons] at h
      generalize rawToken c (cs ++ [':', ')']) = t at hsteps h
      obtain ⟨raw, n⟩ := t
      obtain ⟨hn, hrest, hdepth⟩ := hsteps
      rw [hdepth]
      dsimp only at h
      have hdrop : (cs ++ [':', ')']).drop (n - 1) = cs.drop (n - 1) ++ [':', ')'] :=
        List.drop_append_of_le_length (by omega)
      rw [hdrop] at h
      have hshorter : (cs.drop (n - 1)).length < k := by
        rw [← hlength, List.length_cons, List.length_drop]
        omega
      have hnext {depth : ℕ} {q : Place} (h : closes depth (rawLexemes q (cs.drop (n - 1) ++ [':', ')'])) = some []) :
          nests depth (cs.drop (n - 1)) := ih _ hshorter h hrest rfl
      cases raw with
      | commentOpen => exact hnext h
      | commentClose =>
        simp only [closes] at h
        split at h
        · exact absurd (Option.some.inj h) (rawLexemes_ne_nil (by simp))
        · next hpos => simpa [nestsAfter, Nat.pos_of_ne_zero hpos] using hnext h
      | space | token _ => exact hnext h

/-- The lexer skips the comment. Unless a character of it hides a mark, its marks nest. -/
def Comment.IsSkipped (body : List Char) : Prop := Invisible body ∧ (isClear body → nests 0 body)

theorem Comment.isSkipped_of_closes {p : Place} {body : List Char}
    (h : closes 0 (rawLexemes (p.after ['(', ':']) (body ++ [':', ')'])) = some []) : IsSkipped body :=
  ⟨invisible_of_closes h, nests_of_closes h⟩

/-- White space, and comments with such bodies. -/
inductive IsGap (B : List Char → Prop) : List Char → Prop
  | nil : IsGap B []
  | space {c : Char} {cs : List Char} : Blank.isSpace c → IsGap B cs → IsGap B (c :: cs)
  | comment {body cs : List Char} : B body → IsGap B cs → IsGap B (Comment.text body ++ cs)

namespace IsGap
variable {B B' : List Char → Prop} {xs ys : List Char}

theorem append (hxs : IsGap B xs) (hys : IsGap B ys) : IsGap B (xs ++ ys) := by
  induction hxs with
  | nil => exact hys
  | space hc _ ih => exact .space hc ih
  | comment hbody _ ih =>
    rw [List.append_assoc]
    exact .comment hbody ih

theorem spaces (h : ∀ c ∈ xs, Blank.isSpace c) : IsGap B xs := by
  induction xs with
  | nil => exact .nil
  | cons x xs ih =>
    obtain ⟨hx, hxs⟩ := List.forall_mem_cons.1 h
    exact .space hx (ih hxs)

theorem of_cons {c : Char} {cs : List Char} (h : IsGap B (c :: cs)) :
    Blank.isSpace c ∧ IsGap B cs ∨ ∃ body rest, c :: cs = Comment.text body ++ rest ∧ B body ∧ IsGap B rest := by
  generalize htext : c :: cs = text at h
  cases h with
  | nil => cases htext
  | space hc h =>
    obtain ⟨rfl, rfl⟩ := List.cons.inj htext
    exact .inl ⟨hc, h⟩
  | comment hbody h => exact .inr ⟨_, _, rfl, hbody, h⟩

end IsGap

/-- A text that begins at `p` is made of gaps and of these tokens, which stand where the text has them. -/
inductive IsLaidOut (B : List Char → Prop) : Place → List Char → List Lexeme → Prop
  | finish {p : Place} {gap : List Char} : IsGap B gap → IsLaidOut B p gap []
  | token {p : Place} {gap text rest : List Char} {t : Token} {ls : List Lexeme} : IsGap B gap → text ≠ [] →
      IsLaidOut B (p.after (gap ++ text)) rest ls →
      IsLaidOut B p (gap ++ (text ++ rest)) (⟨t, text, p.after gap, (p.after (gap ++ text)).offset⟩ :: ls)

theorem IsLaidOut.head {B : List Char → Prop} {p : Place} {text rest : List Char} {t : Token} {ls : List Lexeme}
    (htext : text ≠ []) (h : IsLaidOut B (p.after text) rest ls) :
    IsLaidOut B p (text ++ rest) (⟨t, text, p, (p.after text).offset⟩ :: ls) :=
  .token .nil htext h

theorem IsLaidOut.behind {B : List Char → Prop} {p : Place} {gap cs : List Char} {ls : List Lexeme} (hgap : IsGap B gap)
    (h : IsLaidOut B (p.after gap) cs ls) : IsLaidOut B p (gap ++ cs) ls := by
  cases h with
  | finish h => exact .finish (hgap.append h)
  | @token _ _ _ _ t _ h htext hrest =>
    rw [← Place.after_append, ← List.append_assoc] at hrest
    have htoken := IsLaidOut.token (t := t) (hgap.append h) htext hrest
    simpa only [List.append_assoc, Place.after_append] using htoken

/-- The tokens of a text are laid out in it. -/
theorem isLaidOut (p : Place) (cs : List Char) :
    IsLaidOut Comment.IsSkipped p cs (delimit none (joinNames (rawLexemes p cs))) := by
  induction h : cs.length using Nat.strong_induction_on generalizing p cs with
  | _ k ih =>
    by_cases hcs : cs = []
    · rw [hcs, rawLexemes]
      exact .finish .nil
    obtain ⟨raw, text, rest, rfl, htext, hjoin, hmark⟩ := joinNames_rawLexemes p hcs
    have hpos := List.length_pos_of_ne_nil htext
    rw [List.length_append] at h
    have hrest := ih rest.length (by omega) (p.after text) rest rfl
    rw [hjoin]
    cases raw with
    | token t => exact .head htext hrest
    | space => exact hrest.behind (.spaces hmark)
    | commentClose => exact .head htext hrest
    | commentOpen =>
      obtain rfl : text = ['(', ':'] := hmark
      rw [delimit, delimit_open, closes_joinNames]
      rcases hcloses : closes 0 (rawLexemes (p.after ['(', ':']) rest) with _ | rs
      · -- The comment is never closed, and all the rest is one token.
        have hlast : IsLaidOut Comment.IsSkipped p (['(', ':'] ++ rest ++ []) [⟨.error, _, p, _⟩] :=
          .head hcs (.finish .nil)
        simpa [text_joinNames, rawLexemes_text] using hlast
      · obtain ⟨body, rest, rfl, rfl, hbody⟩ := closes_rawLexemes hcloses
        have hafter := ih rest.length (by simp at h; omega) (p.after (Comment.text body)) rest rfl
        have hgap := IsGap.comment (Comment.isSkipped_of_closes hbody) .nil
        rw [List.append_nil] at hgap
        have hlaid := hafter.behind hgap
        simpa [Comment.text, ← Place.after_append] using hlaid


/-- What stands between the tokens of a source, and around them, from this offset on. -/
def gapsFrom (source : List Char) : ℕ → List Lexeme → List (List Char)
  | start, [] => [sourceSlice source start (String.utf8Len source)]
  | start, l :: ls => sourceSlice source start l.place.offset :: gapsFrom source l.stop ls

/-- The tokens of a source from the offset `start` on, where the line is `line`, with exact places and nothing lost
but gaps. -/
structure IsExact (B : List Char → Prop) (source : List Char) (start line : ℕ) (ls : List Lexeme) : Prop where
  within : ∀ l ∈ ls, start ≤ l.place.offset ∧ l.place.offset < l.stop ∧ l.stop ≤ String.utf8Len source
  apart : ls.Pairwise fun l m => l.stop ≤ m.place.offset
  text : ∀ l ∈ ls, sourceSlice source l.place.offset l.stop = l.text
  line : ∀ l ∈ ls, l.place.line = line + (sourceSlice source start l.place.offset).count '\n'
  column : ∀ l ∈ ls, l.place.column = 1 + (Place.lastLine (sourceSlice source 0 l.place.offset)).length
  gaps : ∀ gap ∈ gapsFrom source start ls, IsGap B gap

namespace IsLaidOut
variable {B : List Char → Prop} {p : Place} {cs : List Char} {ls : List Lexeme} {l : Lexeme}

theorem exists_of_mem (h : IsLaidOut B p cs ls) (hl : l ∈ ls) : ∃ xs ys, cs = xs ++ (l.text ++ ys) ∧ l.text ≠ [] ∧
    l.place = p.after xs ∧ l.stop = (p.after (xs ++ l.text)).offset := by
  induction h with
  | finish => cases hl
  | @token p gap text rest _ _ _ htext _ ih =>
    rcases List.mem_cons.1 hl with rfl | hl
    · exact ⟨gap, rest, rfl, htext, rfl, rfl⟩
    · obtain ⟨xs, ys, rfl, hne, hplace, hstop⟩ := ih hl
      refine ⟨gap ++ (text ++ xs), ys, by simp, hne, ?_, ?_⟩
      · rw [hplace, ← Place.after_append, List.append_assoc]
      · rw [hstop, ← Place.after_append, List.append_assoc, List.append_assoc, List.append_assoc]

theorem apart (h : IsLaidOut B p cs ls) : ls.Pairwise fun l m => l.stop ≤ m.place.offset := by
  induction h with
  | finish => exact .nil
  | token _ _ hrest ih =>
    refine .cons (fun m hm => ?_) ih
    obtain ⟨xs, _, -, -, hplace, -⟩ := hrest.exists_of_mem hm
    rw [hplace, Place.offset_after _ xs]
    exact Nat.le_add_right _ _

theorem gaps (h : IsLaidOut B p cs ls) {done : List Char} (hp : p.offset = String.utf8Len done) :
    ∀ gap ∈ gapsFrom (done ++ cs) p.offset ls, IsGap B gap := by
  induction h generalizing done with
  | @finish p gap hgap =>
    have hslice := sourceSlice_append done gap []
    rw [List.append_nil, ← hp] at hslice
    rw [gapsFrom, hslice]
    exact List.forall_mem_singleton.2 hgap
  | @token p gap text rest _ _ hgap _ _ ih =>
    have hslice := sourceSlice_append done gap (text ++ rest)
    have hoffset (xs : List Char) : (p.after xs).offset = String.utf8Len (done ++ xs) := by
      rw [Place.offset_after, hp, String.utf8Len_append]
    have hrest := ih (hoffset (gap ++ text))
    rw [gapsFrom, hoffset gap, hp, hslice]
    refine List.forall_mem_cons.2 ⟨hgap, ?_⟩
    simpa only [List.append_assoc] using hrest

theorem isExact {before : List Char} {line : ℕ} (h : IsLaidOut B (Place.start before line) cs ls) :
    IsExact B (before ++ cs) (String.utf8Len before) line ls := by
  have hplace {l : Lexeme} (hl : l ∈ ls) : ∃ xs ys, cs = xs ++ (l.text ++ ys) ∧ l.text ≠ [] ∧
      l.place = ⟨String.utf8Len (before ++ xs), line + xs.count '\n', (Place.lastLine (before ++ xs)).length + 1⟩ ∧
      l.stop = String.utf8Len (before ++ (xs ++ l.text)) := by
    obtain ⟨xs, ys, hcs, htext, hplace, hstop⟩ := h.exists_of_mem hl
    rw [Place.start_after] at hplace hstop
    exact ⟨xs, ys, hcs, htext, hplace, hstop⟩
  refine ⟨fun l hl => ?_, h.apart, fun l hl => ?_, fun l hl => ?_, fun l hl => ?_, ?_⟩
  · obtain ⟨xs, ys, rfl, htext, hplace, hstop⟩ := hplace hl
    have hpos := utf8Len_pos htext
    rw [hplace, hstop]
    simp only [String.utf8Len_append]
    omega
  · obtain ⟨xs, ys, rfl, htext, hplace, hstop⟩ := hplace hl
    have hslice := sourceSlice_append (before ++ xs) l.text ys
    simp only [List.append_assoc] at hslice
    rw [hplace, hstop, hslice]
  · obtain ⟨xs, ys, rfl, htext, hplace, hstop⟩ := hplace hl
    rw [hplace, sourceSlice_append]
  · obtain ⟨xs, ys, rfl, htext, hplace, hstop⟩ := hplace hl
    have hslice := sourceSlice_append [] (before ++ xs) (l.text ++ ys)
    simp only [List.nil_append, String.utf8Len_nil, List.append_assoc] at hslice
    rw [hplace, hslice]
    exact Nat.add_comm _ _
  · have hstart := Place.offset_start before line
    rw [← hstart]
    exact h.gaps hstart

end IsLaidOut

namespace Lexer
variable {x y : RawLexeme} {rs : List RawLexeme}

/-- How many comments are open after some raw tokens, when so many are before. -/
def openAfter : ℕ → List RawLexeme → ℕ
  | depth, [] => depth
  | depth, r :: rest =>
    match r.raw with
    | .commentOpen => openAfter (depth + 1) rest
    | .commentClose => openAfter (depth - 1) rest
    | _ => openAfter depth rest

def openDepth : Option OpenComment → ℕ
  | none => 0
  | some o => o.depth + 1

theorem delimit_step (o : Option OpenComment) (r : RawLexeme) : ∃ o',
    (∀ rs, openAfter (openDepth o) (r :: rs) = openAfter (openDepth o') rs) ∧
      ∀ rs, delimit o' rs <:+ delimit o (r :: rs) := by
  obtain ⟨raw, text, place⟩ := r
  obtain _ | ⟨depth, opened, start⟩ := o
  · cases raw with
    | token t => exact ⟨none, fun _ => rfl, fun _ => List.suffix_cons _ _⟩
    | space => exact ⟨none, fun _ => rfl, fun _ => List.suffix_rfl⟩
    | commentOpen => exact ⟨some ⟨0, text, place⟩, fun _ => rfl, fun _ => List.suffix_rfl⟩
    | commentClose => exact ⟨none, fun _ => rfl, fun _ => List.suffix_cons _ _⟩
  · cases raw with
    | token _ | space => exact ⟨some ⟨depth, opened ++ text, start⟩, fun _ => rfl, fun _ => List.suffix_rfl⟩
    | commentOpen => exact ⟨some ⟨depth + 1, opened ++ text, start⟩, fun _ => rfl, fun _ => List.suffix_rfl⟩
    | commentClose =>
      obtain _ | depth := depth
      · exact ⟨none, fun _ => rfl, fun _ => List.suffix_rfl⟩
      · exact ⟨some ⟨depth, opened ++ text, start⟩, fun _ => rfl, fun _ => List.suffix_rfl⟩

/-- Behind a point where no comment is open, the tokens are those of the rest alone. -/
theorem delimit_suffix {pre : List RawLexeme} (o : Option OpenComment) (h : openAfter (openDepth o) pre = 0)
    (rest : List RawLexeme) : delimit none rest <:+ delimit o (pre ++ rest) := by
  induction pre generalizing o with
  | nil =>
    obtain _ | o := o
    · exact List.suffix_rfl
    · cases h
  | cons r pre ih =>
    obtain ⟨o', hopen, hsuffix⟩ := delimit_step o r
    exact (ih o' (hopen pre ▸ h)).trans (hsuffix _)

/-- Of two tokens that must not follow each other directly, the first is an error. -/
theorem error_of_adjacent {pre post : List RawLexeme} {t u : Token} (h : openAfter 0 pre = 0)
    (hx : x.raw = .token t) (hy : y.raw = .token u) (ht : t.isNonDelimiting) (hu : u.isNonDelimiting) :
    ⟨.error, x.text, x.place, x.stop⟩ ∈ delimit none (pre ++ x :: y :: post) := by
  refine (delimit_suffix none h (x :: y :: post)).subset ?_
  obtain ⟨raw, _, _⟩ := y
  obtain rfl : raw = .token u := hy
  simp [delimit, hx, collides, ht, hu]

end Lexer
end XPath
