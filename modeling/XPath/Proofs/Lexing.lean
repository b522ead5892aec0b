import XPath.Proofs.Balance

/-!
How the tokens of a text depend on what stands around it. Where the text begins only shifts the places of its
tokens; what stands after a comment mark does not change the raw tokens before the mark, nor how they are
joined.
-/
namespace XPath

namespace Place
variable {p q : Place}

/-- Where a place of a text is when the text begins at `p`. -/
def behind (p q : Place) : Place :=
  ⟨p.offset + q.offset, p.line + (q.line - 1), if q.line = 1 then p.column + (q.column - 1) else q.column⟩

/-- Lines and columns count from one. -/
def IsCounted (q : Place) : Prop := 1 ≤ q.line ∧ 1 ≤ q.column

theorem IsCounted.advance (h : q.IsCounted) (c : Char) : (q.advance c).IsCounted := by
  unfold Place.advance
  split
  · exact ⟨Nat.le_add_left _ _, le_rfl⟩
  · exact ⟨h.1, Nat.le_add_left _ _⟩

theorem IsCounted.after (h : q.IsCounted) (cs : List Char) : (q.after cs).IsCounted := by
  induction cs generalizing q with
  | nil => exact h
  | cons c cs ih => exact ih (h.advance c)

@[simp] theorem behind_first (p : Place) : p.behind ⟨0, 1, 1⟩ = p := rfl

theorem behind_advance (h : q.IsCounted) (c : Char) : p.behind (q.advance c) = (p.behind q).advance c := by
  obtain ⟨hline, hcolumn⟩ := h
  unfold Place.advance behind
  split
  · simp only [mk.injEq, Nat.add_assoc, true_and]
    exact ⟨by omega, if_neg (by omega)⟩
  · simp only [mk.injEq, Nat.add_assoc, true_and]
    split <;> omega

theorem behind_after (h : q.IsCounted) (cs : List Char) : p.behind (q.after cs) = (p.behind q).after cs := by
  induction cs generalizing q with
  | nil => rfl
  | cons c cs ih =>
    change p.behind ((q.advance c).after cs) = ((p.behind q).advance c).after cs
    rw [ih (h.advance c), behind_advance h]

theorem after_append (p : Place) (cs ds : List Char) : p.after (cs ++ ds) = (p.after cs).after ds :=
  List.foldl_append

end Place

namespace RawLexeme
variable {p q : Place} {r : RawLexeme}

def behind (p : Place) (r : RawLexeme) : RawLexeme := { r with place := p.behind r.place }

@[simp] theorem behind_raw (r : RawLexeme) : (r.behind p).raw = r.raw := rfl

@[simp] theorem behind_text (r : RawLexeme) : (r.behind p).text = r.text := rfl

@[simp] theorem behind_place (r : RawLexeme) : (r.behind p).place = p.behind r.place := rfl

@[simp] theorem stop_behind (r : RawLexeme) : (r.behind p).stop = p.offset + r.stop := by
  simp [stop, behind, Place.offset_after, Place.behind, Nat.add_assoc]

theorem eq_of_behind {k : RawToken} {t : List Char} (h : r.behind p = ⟨k, t, q⟩) : r = ⟨k, t, r.place⟩ := by
  obtain ⟨rfl, rfl, -⟩ := RawLexeme.mk.inj h
  rfl

end RawLexeme

def Lexeme.behind (p : Place) (l : Lexeme) : Lexeme := { l with place := p.behind l.place, stop := p.offset + l.stop }

/-- The tokens of a text that begins at `p`, from those of the text alone. -/
def TokenStream.behind (p : Place) (t : TokenStream) : TokenStream := ⟨t.lexemes.map (.behind p), p.behind t.finish⟩

namespace Lexer
variable {p q : Place}

theorem rawLexemes_behind (hq : q.IsCounted) (cs : List Char) :
    rawLexemes (p.behind q) cs = (rawLexemes q cs).map (.behind p) := by
  fun_induction rawLexemes q cs with
  | case1 => simp [rawLexemes]
  | case2 place c cs raw n hraw text ih =>
    rw [rawLexemes, hraw, List.map_cons, ← ih (hq.after _), Place.behind_after hq]
    rfl

theorem joinNames_behind (rs : List RawLexeme) : joinNames (rs.map (.behind p)) = (joinNames rs).map (.behind p) := by
  fun_induction joinNames rs with
  | case6 r rest h₁ h₂ h₃ h₄ h₅ ih =>
    rw [List.map_cons, List.map_cons, ← ih]
    refine joinNames.eq_6 _ _ ?_ ?_ ?_ ?_ ?_
    · intro _ _ _ _ _ _ _ _ _ hr hrest
      obtain ⟨x, _, rfl, hx, hrest⟩ := List.map_eq_cons_iff.1 hrest
      obtain ⟨y, _, rfl, hy, rfl⟩ := List.map_eq_cons_iff.1 hrest
      rw [RawLexeme.eq_of_behind hx, RawLexeme.eq_of_behind hy] at h₁
      exact h₁ _ _ _ _ _ _ _ _ _ (RawLexeme.eq_of_behind hr) rfl
    all_goals
      intros
      rename_i hr hrest
      obtain ⟨x, _, rfl, hx, hrest⟩ := List.map_eq_cons_iff.1 hrest
      rw [RawLexeme.eq_of_behind hx] at h₂ h₃ h₄ h₅
      have hr := RawLexeme.eq_of_behind hr
      first
        | exact h₂ _ _ _ _ _ _ hr rfl
        | exact h₃ _ _ _ _ _ _ hr rfl
        | exact h₄ _ _ _ _ _ _ _ hr rfl
        | exact h₅ _ _ _ _ _ _ hr rfl
  | case7 => rfl
  | _ => simp_all [joinNames, RawLexeme.behind]

/-- Whether a raw token can be a part of a name. -/
def joins : RawToken → Bool
  | .token (.name _) | .token (.bracedUri _) | .token (.symbol .colon) | .token (.symbol .colonAsterisk)
  | .token (.symbol .asteriskColon) | .token (.symbol .asterisk) => true
  | _ => false

theorem eq_cons_of_append {m r : RawLexeme} {ls ms rest : List RawLexeme} (hm : joins m.raw = false)
    (hr : joins r.raw) (h : ls ++ m :: ms = r :: rest) : ∃ ls', ls = r :: ls' ∧ ls' ++ m :: ms = rest := by
  obtain _ | ⟨l, ls'⟩ := ls
  · obtain ⟨rfl, rfl⟩ := List.cons.inj h
    cases hm.symm.trans hr
  · obtain ⟨rfl, hrest⟩ := List.cons.inj h
    exact ⟨ls', rfl, hrest⟩

theorem joinNames_append {m : RawLexeme} (hm : joins m.raw = false) (ls ms : List RawLexeme) :
    joinNames (ls ++ m :: ms) = joinNames ls ++ m :: joinNames ms := by
  fun_induction joinNames ls with
  | case6 r rest h₁ h₂ h₃ h₄ h₅ ih =>
    rw [List.cons_append, List.cons_append, ← ih]
    refine joinNames.eq_6 _ _ ?_ ?_ ?_ ?_ ?_
    · intro _ _ _ _ _ _ _ _ _ hr hrest
      obtain ⟨_, rfl, hnext⟩ := eq_cons_of_append hm rfl hrest
      obtain ⟨_, rfl, -⟩ := eq_cons_of_append hm rfl hnext
      exact h₁ _ _ _ _ _ _ _ _ _ hr rfl
    all_goals
      intros
      rename_i hr hrest
      obtain ⟨_, rfl, -⟩ := eq_cons_of_append hm rfl hrest
      first
        | exact h₂ _ _ _ _ _ _ hr rfl
        | exact h₃ _ _ _ _ _ _ hr rfl
        | exact h₄ _ _ _ _ _ _ _ hr rfl
        | exact h₅ _ _ _ _ _ _ hr rfl
  | case7 =>
    refine joinNames.eq_6 _ _ ?_ ?_ ?_ ?_ ?_
    all_goals
      intros
      rename_i hr _
      rw [hr] at hm
      cases hm
  | _ => simp_all [joinNames]

theorem delimit_append {o : Option OpenComment} {rs : List RawLexeme} (h : delimit o rs = []) (rest : List RawLexeme) :
    delimit o (rs ++ rest) = delimit none rest := by
  fun_induction delimit o rs <;> grind [delimit]

theorem delimit_last {o : Option OpenComment} {rs : List RawLexeme} {m : RawLexeme} (h : delimit o rs = [])
    (hm : rs.getLast? = some m) : m.raw = .space ∨ m.raw = .commentClose := by
  fun_induction delimit o rs <;> grind [delimit, List.getLast?_cons]

theorem delimit_joinNames_eq_nil (o : Option OpenComment) (rs : List RawLexeme) :
    delimit o (joinNames rs) = [] ↔ delimit o rs = [] := by
  fun_induction joinNames rs generalizing o <;> cases o <;> grind [delimit]

def OpenComment.behind (p : Place) (o : OpenComment) : OpenComment := { o with place := p.behind o.place }

theorem collides_behind (t : Token) (o : Option RawLexeme) : collides t (o.map (.behind p)) = collides t o := by
  obtain _ | ⟨⟨_ | _⟩, _, _⟩ := o <;> rfl

theorem delimit_behind (o : Option OpenComment) (rs : List RawLexeme) :
    delimit (o.map (.behind p)) (rs.map (.behind p)) = (delimit o rs).map (.behind p) := by
  fun_induction delimit o rs with
  | case2 o => simp [delimit, OpenComment.behind, Lexeme.behind, Place.behind, Place.offset_after, Nat.add_assoc]
  | case10 r rest t hraw ih =>
    simp only [Option.map_none, List.map_cons, delimit, RawLexeme.behind_raw, hraw, List.head?_map, collides_behind,
      RawLexeme.stop_behind, ← ih]
    rfl
  | case9 r rest hraw ih =>
    simp only [Option.map_none, List.map_cons, delimit, RawLexeme.behind_raw, hraw, RawLexeme.stop_behind, ← ih]
    rfl
  | _ => simp_all +zetaDelta [delimit, OpenComment.behind]

section Marks
variable {c : Char} {cs xs zs zs' : List Char} {p : Place}

theorem symbol?_congr_of_some {c d : Char} {xs : List Char} {t : RawToken × ℕ} (h : symbol? (c :: d :: xs) = some t)
    (ys : List Char) : symbol? (c :: d :: ys) = some t := by
  unfold symbol? at h
  split at h <;> cases h
  all_goals
    rename_i h
    simp only [List.cons.injEq] at h
    first
      | obtain ⟨rfl, rfl, -⟩ := h
        rfl
      | obtain ⟨rfl, rfl⟩ := h
        first
          | rfl
          | simp_all [symbol?]

/-- A symbol has two characters at most. -/
theorem symbol?_congr (c d : Char) (xs ys : List Char) : symbol? (c :: d :: xs) = symbol? (c :: d :: ys) :=
  Option.ext fun _ => ⟨fun h => symbol?_congr_of_some h ys, fun h => symbol?_congr_of_some h xs⟩

/-- Whether no number goes on with the character. -/
def endsNumber (a : Char) : Bool := !a.isDigit && a != '.' && a != '-' && a != '+' && a != 'e' && a != 'E'

variable {a : Char}

theorem takeWhile_append_stop {P : Char → Bool} (hP : P a = false) (xs zs : List Char) :
    (xs ++ a :: zs).takeWhile P = xs.takeWhile P := by
  induction xs with
  | nil => simp [hP]
  | cons x xs ih => simp [List.takeWhile_cons, ih]

theorem exponent?_append (ha : endsNumber a) (xs zs : List Char) : exponent? (xs ++ a :: zs) = exponent? xs := by
  have hstop : a.isDigit = false := by simp_all [endsNumber]
  have hdigits (ys : List Char) : (ys ++ a :: zs).takeWhile Char.isDigit = ys.takeWhile Char.isDigit :=
    takeWhile_append_stop hstop ys zs
  have hnone : (a :: zs).takeWhile Char.isDigit = [] := hdigits []
  have hsign : a ≠ '-' ∧ a ≠ '+' ∧ a ≠ 'e' ∧ a ≠ 'E' := by simp_all [endsNumber]
  rcases xs with _ | ⟨e, _ | ⟨d, ys⟩⟩
  · simp [exponent?, hsign]
  · simp [exponent?, hnone, hsign]
  · by_cases hminus : d = '-'
    · subst hminus
      simp [exponent?, hdigits]
    · by_cases hplus : d = '+'
      · subst hplus
        simp [exponent?, hdigits]
      · have := hdigits (d :: ys)
        rw [List.cons_append] at this
        simp [exponent?, hminus, hplus, this]

theorem drop_append_cons {n : ℕ} (h : n ≤ xs.length) (zs : List Char) :
    (xs ++ a :: zs).drop n = xs.drop n ++ a :: zs := by
  rw [List.drop_append_of_le_length h]

theorem exponent?_length {e : ℤ} {n : ℕ} (h : exponent? xs = some (e, n)) : n ≤ xs.length := by
  have hdigits (ys : List Char) : (ys.takeWhile Char.isDigit).length ≤ ys.length := (List.takeWhile_prefix _).length_le
  unfold exponent? at h
  grind

theorem number_length (xs : List Char) : (number xs).2 ≤ xs.length := by
  have hdigits (ys : List Char) : (ys.takeWhile Char.isDigit).length ≤ ys.length := (List.takeWhile_prefix _).length_le
  have hrest := List.length_drop (i := (xs.takeWhile Char.isDigit).length) (l := xs)
  have hwhole := hdigits xs
  have hexponent {k n : ℕ} {e : ℤ} (h : exponent? (xs.drop k) = some (e, n)) (hk : k ≤ xs.length) :
      k + n ≤ xs.length := by
    have := exponent?_length h
    rw [List.length_drop] at this
    omega
  unfold number
  dsimp only
  split
  · rename_i e n h
    refine hexponent h ?_
    split <;> grind
  · by_cases hdot : ∃ r, xs.drop (xs.takeWhile Char.isDigit).length = '.' :: r
    · obtain ⟨r, hr⟩ := hdot
      rw [hr, List.length_cons] at hrest
      have hfraction := hdigits r
      simp only [hr, one_ne_zero, if_false]
      split <;> (dsimp only; omega)
    · split
      · split <;> grind
      · grind

theorem number_append (ha : endsNumber a) (xs zs : List Char) : number (xs ++ a :: zs) = number xs := by
  have hstop : a.isDigit = false := by simp_all [endsNumber]
  have hpoint : a ≠ '.' := by simp_all [endsNumber]
  have hdigits (ys : List Char) : (ys ++ a :: zs).takeWhile Char.isDigit = ys.takeWhile Char.isDigit :=
    takeWhile_append_stop hstop ys zs
  have hwhole : (xs.takeWhile Char.isDigit).length ≤ xs.length := (List.takeWhile_prefix _).length_le
  unfold number
  simp only [hdigits, drop_append_cons hwhole]
  rcases hrest : xs.drop (xs.takeWhile Char.isDigit).length with _ | ⟨d, r⟩
  · simp [hpoint, drop_append_cons hwhole, exponent?_append ha]
  · by_cases hd : d = '.'
    · subst hd
      have hfraction : (r.takeWhile Char.isDigit).length ≤ r.length := (List.takeWhile_prefix _).length_le
      have hfit : (xs.takeWhile Char.isDigit).length + 1 + (r.takeWhile Char.isDigit).length ≤ xs.length := by
        have hlength := congrArg List.length hrest
        rw [List.length_drop, List.length_cons] at hlength
        omega
      simp [hdigits, drop_append_cons hfit, exponent?_append ha, List.take_append_of_le_length hfit]
    · simp [hd, drop_append_cons hwhole, exponent?_append ha]

theorem number_text (ha : endsNumber a) (xs : List Char) : a ∉ xs.take (number xs).2 := by
  intro hmem
  obtain ⟨pre, post, rfl, hpre⟩ := List.eq_append_cons_of_mem (List.mem_of_mem_take hmem)
  rw [number_append ha, List.take_append_of_le_length (number_length pre)] at hmem
  exact hpre (List.mem_of_mem_take hmem)

theorem one_le_of_stringBody {q : Char} {v : List Char} {n : ℕ} (h : stringBody q xs = some (v, n)) : 1 ≤ n := by
  fun_induction stringBody q xs generalizing v n <;> grind [Option.map_eq_some_iff]

/-- A literal that is closed before a colon does not depend on what follows the colon. -/
theorem stringBody_mark {q : Char} {v : List Char} {n : ℕ} (h : stringBody q (xs ++ ':' :: zs) = some (v, n))
    (hn : n ≤ xs.length) (hq : ':' ≠ q) (zs' : List Char) : stringBody q (xs ++ ':' :: zs') = some (v, n) := by
  fun_induction stringBody q xs generalizing v n with
  | case1 => exact absurd (one_le_of_stringBody h) (by simp at hn; omega)
  | case2 => simpa [stringBody, hq] using h
  | case3 c hc =>
    simp only [List.cons_append, List.nil_append, stringBody, hc, if_false, Option.map_eq_some_iff, Prod.exists] at h
    obtain ⟨w, k, hbody, hwn⟩ := h
    have := one_le_of_stringBody hbody
    obtain ⟨rfl, rfl⟩ := Prod.mk.inj hwn
    simp at hn
    omega
  | case4 rest ih =>
    simp only [List.cons_append, stringBody, if_true, Option.map_eq_some_iff, Prod.exists] at h ⊢
    obtain ⟨w, k, hbody, hwn⟩ := h
    obtain ⟨rfl, rfl⟩ := Prod.mk.inj hwn
    exact ⟨w, k, ih hbody (by simp at hn; omega), rfl⟩
  | case5 d rest hd => simpa [stringBody, hd] using h
  | case6 c d rest hc ih =>
    simp only [List.cons_append, stringBody, hc, if_false, Option.map_eq_some_iff, Prod.exists] at h ⊢
    obtain ⟨w, k, hbody, hwn⟩ := h
    obtain ⟨rfl, rfl⟩ := Prod.mk.inj hwn
    exact ⟨w, k, ih hbody (by simp at hn ⊢; omega), rfl⟩

/-- A braced URI that ends before a colon does not depend on what follows the colon. -/
theorem bracedUri_mark (h : (bracedUri (xs ++ ':' :: zs)).2 ≤ xs.length) (zs' : List Char) :
    bracedUri (xs ++ ':' :: zs') = bracedUri (xs ++ ':' :: zs) := by
  unfold bracedUri at h ⊢
  simp only [List.takeWhile_append] at h ⊢
  split
  · rename_i hall
    exfalso
    rw [if_pos hall] at h
    split at h <;> simp at h
  · rename_i hstop
    have hle := (List.takeWhile_prefix (fun c => decide (c ≠ '\x7b' ∧ c ≠ '\x7d')) (l := xs)).length_le
    simp only [drop_append_cons hle, List.head?_append]
    rcases hrest : xs.drop (xs.takeWhile fun c => decide (c ≠ '\x7b' ∧ c ≠ '\x7d')).length with _ | ⟨d, rest⟩
    · exact absurd (le_antisymm hle (List.drop_eq_nil_iff.1 hrest)) hstop
    · rfl

theorem symbol?_mark (c : Char) (xs zs zs' : List Char) :
    symbol? (c :: (xs ++ ':' :: zs')) = symbol? (c :: (xs ++ ':' :: zs)) := by
  cases xs with
  | nil => exact symbol?_congr c ':' zs' zs
  | cons d xs => exact symbol?_congr c d _ _

theorem isNameChar_colon : isNameChar ':' = false := by decide

theorem rawToken_uri (cs : List Char) :
    rawToken 'Q' ('\x7b' :: cs) = (.token (bracedUri cs).1, (bracedUri cs).2 + 2) := by
  simp [rawToken, Blank.isSpace]

/-- A raw token that ends before a colon does not depend on what follows the colon. -/
theorem rawToken_mark (h : (rawToken c (xs ++ ':' :: zs)).2 ≤ xs.length + 1) (zs' : List Char) :
    rawToken c (xs ++ ':' :: zs') = rawToken c (xs ++ ':' :: zs) := by
  have hhead : (xs ++ ':' :: zs').head? = (xs ++ ':' :: zs).head? := by cases xs <;> rfl
  have hnumber (ys : List Char) : number (c :: (xs ++ ':' :: ys)) = number (c :: xs) :=
    number_append rfl (c :: xs) ys
  by_cases hspace : Blank.isSpace c
  · simp only [rawToken, hspace, if_true, takeWhile_append_stop (show Blank.isSpace ':' = false from rfl)]
  by_cases hdigit : c.isDigit || (c = '.' && (xs ++ ':' :: zs).head?.any Char.isDigit)
  · simp only [rawToken, hspace, hhead, hdigit, hnumber, if_true, Bool.false_eq_true, if_false]
  by_cases hquote : c = '"' || c = '\''
  · simp only [rawToken, hspace, hhead, hdigit, hquote, if_true, Bool.false_eq_true, if_false] at h ⊢
    rcases hbody : stringBody c (xs ++ ':' :: zs) with _ | ⟨v, n⟩
    · rw [hbody] at h
      simp at h
    · rw [hbody] at h
      have hcolon : ':' ≠ c := by rintro rfl; cases hquote
      rw [stringBody_mark hbody (by simpa using h) hcolon zs']
  by_cases huri : c = 'Q' && (xs ++ ':' :: zs).head? = some '\x7b'
  · obtain ⟨rfl, ys, rfl⟩ : c = 'Q' ∧ ∃ ys, xs = '\x7b' :: ys := by
      cases xs <;> simp_all
    rw [List.cons_append, rawToken_uri] at h ⊢
    rw [List.cons_append, rawToken_uri, bracedUri_mark (by simpa using h)]
  simp only [rawToken, hspace, hhead, hdigit, hquote, huri, Bool.false_eq_true, if_false,
    takeWhile_append_stop isNameChar_colon, symbol?_mark c xs zs zs']

/-- What is known of the text of a raw token that is no token: `c` and some of `cs`, `n` characters. -/
def RawToken.IsAt (c : Char) (cs : List Char) (n : ℕ) : RawToken → Prop
  | .space => Blank.isSpace c ∧ n = 1 + (cs.takeWhile Blank.isSpace).length
  | .commentOpen => n = 2 ∧ c = '(' ∧ ∃ rest, cs = ':' :: rest
  | .commentClose => n = 2 ∧ c = ':' ∧ ∃ rest, cs = ')' :: rest
  | .token _ => True

theorem symbol?_isAt {t : RawToken × ℕ} (h : symbol? (c :: cs) = some t) : RawToken.IsAt c cs t.2 t.1 := by
  unfold symbol? at h
  split at h <;> cases h
  all_goals
    rename_i h
    obtain ⟨rfl, rfl⟩ := List.cons.inj h
    simp [RawToken.IsAt]

theorem rawToken_isAt (c : Char) (cs : List Char) : RawToken.IsAt c cs (rawToken c cs).2 (rawToken c cs).1 := by
  unfold rawToken
  split
  · exact ⟨‹_›, rfl⟩
  split
  · trivial
  split
  · split <;> trivial
  split
  · trivial
  split
  · trivial
  rcases hsymbol : symbol? (c :: cs) with _ | t
  · trivial
  · exact symbol?_isAt hsymbol

theorem rawLexemes_text (p : Place) (cs : List Char) : (rawLexemes p cs).flatMap (·.text) = cs := by
  fun_induction rawLexemes p cs with
  | case1 => rfl
  | case2 p c cs raw n hraw text ih => rw [List.flatMap_cons, ih, List.cons_append, List.take_append_drop]

theorem exists_rawToken {m : RawLexeme} (hm : m ∈ rawLexemes p cs) :
    ∃ c ds, m.raw = (rawToken c ds).1 ∧ m.text = c :: ds.take ((rawToken c ds).2 - 1) := by
  fun_induction rawLexemes p cs with
  | case1 => cases hm
  | case2 p c cs raw n hraw text ih =>
    rcases List.mem_cons.1 hm with rfl | hm
    · exact ⟨c, cs, by rw [hraw], by rw [hraw]⟩
    · exact ih hm

theorem text_ne_nil {m : RawLexeme} (hm : m ∈ rawLexemes p cs) : m.text ≠ [] := by
  obtain ⟨c, ds, -, htext⟩ := exists_rawToken hm
  exact htext ▸ List.cons_ne_nil _ _

theorem text_commentClose {m : RawLexeme} (hm : m ∈ rawLexemes p cs) (h : m.raw = .commentClose) :
    m.text = [':', ')'] := by
  obtain ⟨c, ds, hraw, htext⟩ := exists_rawToken hm
  have hat := rawToken_isAt c ds
  rw [← hraw, h] at hat
  obtain ⟨hn, rfl, rest, rfl⟩ := hat
  rw [htext, hn]
  rfl

theorem not_mem_space {m : RawLexeme} (hm : m ∈ rawLexemes p cs) (h : m.raw = .space) : ')' ∉ m.text := by
  obtain ⟨c, ds, hraw, htext⟩ := exists_rawToken hm
  have hat := rawToken_isAt c ds
  rw [← hraw, h] at hat
  obtain ⟨hc, hn⟩ := hat
  rw [htext, hn, Nat.add_sub_cancel_left, ← List.prefix_iff_eq_take.1 (List.takeWhile_prefix _),
    ← List.takeWhile_cons_of_pos hc]
  exact fun h => absurd (List.mem_takeWhile_imp h) (by decide)

theorem eq_append_mark {m : RawLexeme} {ls : List RawLexeme} (h : rawLexemes p cs = ls ++ [m])
    (hm : m.raw = .commentClose) : ∃ ys, cs = ys ++ [':', ')'] := by
  have htext := rawLexemes_text p cs
  have hmark := text_commentClose (h ▸ List.mem_append_right ls (List.mem_singleton_self m)) hm
  rw [h, List.flatMap_append, List.flatMap_singleton, hmark] at htext
  exact ⟨_, htext.symm⟩

theorem rawToken_close (cs : List Char) : rawToken ':' (')' :: cs) = (.commentClose, 2) := rfl

theorem rawToken_open (cs : List Char) : rawToken '(' (':' :: cs) = (.commentOpen, 2) := rfl

theorem rawLexemes_cons (p : Place) (c : Char) (cs : List Char) : rawLexemes p (c :: cs) =
    ⟨(rawToken c cs).1, c :: cs.take ((rawToken c cs).2 - 1), p⟩ ::
      rawLexemes (p.after (c :: cs.take ((rawToken c cs).2 - 1))) (cs.drop ((rawToken c cs).2 - 1)) := by
  rw [rawLexemes]

theorem rawLexemes_close (p : Place) (cs : List Char) : rawLexemes p (':' :: ')' :: cs) =
    ⟨.commentClose, [':', ')'], p⟩ :: rawLexemes (p.after [':', ')']) cs := by
  rw [rawLexemes_cons, rawToken_close]
  rfl

theorem rawLexemes_open (p : Place) (cs : List Char) : rawLexemes p ('(' :: ':' :: cs) =
    ⟨.commentOpen, ['(', ':'], p⟩ :: rawLexemes (p.after ['(', ':']) cs := by
  rw [rawLexemes_cons, rawToken_open]
  rfl

/-- The lexer cuts a text where a comment is closed. -/
theorem rawLexemes_append {m : RawLexeme} {ls : List RawLexeme} (h : rawLexemes p cs = ls ++ [m])
    (hm : m.raw = .commentClose) (rest : List Char) :
    rawLexemes p (cs ++ rest) = rawLexemes p cs ++ rawLexemes (p.after cs) rest := by
  fun_induction rawLexemes p cs generalizing ls with
  | case1 => simp at h
  | case2 p c cs raw n hraw text =>
    rename_i ih
    obtain _ | ⟨l, ls⟩ := ls
    · -- The text is the mark.
      obtain ⟨rfl, hnil⟩ := List.cons.inj h
      obtain rfl : raw = .commentClose := hm
      have hat := rawToken_isAt c cs
      rw [hraw] at hat
      obtain ⟨hn, rfl, ds, rfl⟩ := hat
      obtain rfl : n = 2 := hn
      obtain rfl : ds = [] := by
        have htext := rawLexemes_text (p.after text) ds
        rwa [show rawLexemes (p.after text) ds = [] from hnil, List.flatMap_nil, eq_comm] at htext
      rw [hnil]
      exact rawLexemes_close p rest
    · obtain ⟨-, hrest⟩ := List.cons.inj h
      obtain ⟨ys, hys⟩ := eq_append_mark hrest hm
      have hcs : cs = (cs.take (n - 1) ++ ys) ++ ':' :: [')'] := by
        rw [List.append_assoc, ← hys, List.take_append_drop]
      have hn : n - 1 < cs.length := by
        have := congrArg List.length hys
        simp at this
        omega
      have htoken : rawToken c (cs ++ rest) = (raw, n) := by
        rw [← hraw, hcs, List.append_assoc]
        refine rawToken_mark ?_ (')' :: rest)
        rw [← hcs, hraw]
        simp
        omega
      have hafter : (p.after text).after (cs.drop (n - 1)) = p.after (c :: cs) := by
        rw [← Place.after_append, List.cons_append, List.take_append_drop]
      rw [List.cons_append, rawLexemes_cons, htoken, List.take_append_of_le_length hn.le,
        List.drop_append_of_le_length hn.le, ih hrest, hafter]
      rfl

end Marks

end Lexer
end XPath
