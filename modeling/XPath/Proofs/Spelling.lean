import XPath.Proofs.Comments

/-!
How tokens are written. Names, whole numbers and symbols stand for themselves where they are cut off, by a space, a
closing parenthesis or the end of the text; so a text that is put together from them has just those tokens.
-/
namespace XPath
namespace Lexer
variable {c : Char} {cs rest : List Char} {p : Place} {t : Token} {raw : RawToken}

/-- Whether the characters make up a name with no prefix. -/
def isName : List Char → Bool
  | [] => false
  | c :: cs => isNameStart c && cs.all isNameChar

/-- The tokens of a text. -/
def tokensOf (cs : List Char) : List Token := (delimit none (joinNames (rawLexemes ⟨0, 1, 1⟩ cs))).map (·.token)

@[simp] theorem tokensOf_nil : tokensOf [] = [] := by simp [tokensOf, rawLexemes, joinNames, delimit]

/-- They do not depend on where the text begins. -/
theorem tokensOf_eq (p : Place) (cs : List Char) :
    tokensOf cs = (delimit none (joinNames (rawLexemes p cs))).map (·.token) := by
  rw [Comment.delimit_rawLexemes, List.map_map]
  rfl

theorem tokensOf_ofSource (cs : List Char) (line : ℕ) :
    (TokenStream.ofSource cs 0 line).lexemes.map (·.token) = tokensOf cs := by
  rw [Comment.ofSource_zero, ← tokensOf_eq]

theorem rawLexemes_of_rawToken (h : rawToken c (cs ++ rest) = (raw, cs.length + 1)) (p : Place) :
    rawLexemes p (c :: (cs ++ rest)) = ⟨raw, c :: cs, p⟩ :: rawLexemes (p.after (c :: cs)) rest := by
  rw [rawLexemes_cons, h, Nat.add_sub_cancel, List.take_left, List.drop_left]

theorem rawLexemes_of_rawToken_one (h : rawToken c cs = (raw, 1)) (p : Place) :
    rawLexemes p (c :: cs) = ⟨raw, [c], p⟩ :: rawLexemes (p.after [c]) cs := by
  rw [rawLexemes_cons, h]
  rfl

theorem tokensOf_cons {text : List Char} {q : Place}
    (h : joinNames (rawLexemes p cs) = ⟨.token t, text, p⟩ :: joinNames (rawLexemes q rest))
    (hnext : collides t (joinNames (rawLexemes q rest)).head? = false) : tokensOf cs = t :: tokensOf rest := by
  rw [tokensOf_eq p, h, delimit, tokensOf_eq q]
  simp [hnext]

/-! White space. -/

theorem tokensOf_spaces {ws : List Char} (hc : Blank.isSpace c) (hws : ∀ d ∈ ws, Blank.isSpace d)
    (hrest : rest.takeWhile Blank.isSpace = []) : tokensOf (c :: (ws ++ rest)) = tokensOf rest := by
  have hraw : rawToken c (ws ++ rest) = (.space, ws.length + 1) := by
    rw [rawToken, if_pos hc, List.takeWhile_append_of_pos hws, hrest, List.append_nil, Nat.add_comm]
  rw [tokensOf, rawLexemes_of_rawToken hraw, tokensOf_eq (Place.after ⟨0, 1, 1⟩ (c :: ws))]
  have hjoin := joinNames_append (m := ⟨.space, c :: ws, ⟨0, 1, 1⟩⟩) rfl []
    (rawLexemes (Place.after ⟨0, 1, 1⟩ (c :: ws)) rest)
  rw [List.nil_append] at hjoin
  rw [hjoin]
  rfl

theorem takeWhile_dropWhile (P : Char → Bool) (cs : List Char) : (cs.dropWhile P).takeWhile P = [] := by
  induction cs with
  | nil => rfl
  | cons c cs ih =>
    rw [List.dropWhile_cons]
    split
    · exact ih
    · simp_all

theorem tokensOf_space (cs : List Char) : tokensOf (' ' :: cs) = tokensOf cs := by
  have hall : ∀ d ∈ cs.takeWhile Blank.isSpace, Blank.isSpace d := fun _ => List.mem_takeWhile_imp
  have hstop := takeWhile_dropWhile Blank.isSpace cs
  have hcs := List.takeWhile_append_dropWhile (p := Blank.isSpace) (l := cs)
  have hskip := tokensOf_spaces (c := ' ') rfl hall hstop
  rw [hcs] at hskip
  rw [hskip]
  cases hws : cs.takeWhile Blank.isSpace with
  | nil =>
    rw [hws, List.nil_append] at hcs
    rw [hcs]
  | cons w ws =>
    rw [hws] at hcs hall
    obtain ⟨hw, hws⟩ := List.forall_mem_cons.1 hall
    rw [← tokensOf_spaces hw hws hstop, ← List.cons_append, hcs]

/-! What stands at the end of a token. -/

/-- What follows cuts off a name or a number before it. -/
def IsCut (rest : List Char) : Prop := ∀ c ∈ rest.head?, c = ' ' ∨ c = ')'

theorem isCut_nil : IsCut [] := nofun

theorem isCut_space (cs : List Char) : IsCut (' ' :: cs) := fun _ h => .inl (Option.some.inj h).symm

theorem isCut_close (cs : List Char) : IsCut (')' :: cs) := fun _ h => .inr (Option.some.inj h).symm

theorem IsCut.cases (h : IsCut rest) : rest = [] ∨ (∃ cs, rest = ' ' :: cs) ∨ ∃ cs, rest = ')' :: cs := by
  cases rest with
  | nil => exact .inl rfl
  | cons c cs =>
    obtain rfl | rfl := h c rfl
    · exact .inr (.inl ⟨cs, rfl⟩)
    · exact .inr (.inr ⟨cs, rfl⟩)

theorem IsCut.takeWhile {P : Char → Bool} (h : IsCut rest) (hspace : P ' ' = false) (hclose : P ')' = false) :
    rest.takeWhile P = [] := by
  obtain rfl | ⟨cs, rfl⟩ | ⟨cs, rfl⟩ := h.cases <;> simp [hspace, hclose]

theorem IsCut.not_brace (h : IsCut rest) : rest.head? ≠ some '\x7b' := by
  obtain rfl | ⟨cs, rfl⟩ | ⟨cs, rfl⟩ := h.cases <;> simp

/-- The raw token after a cut is white space or a parenthesis. -/
theorem IsCut.head_rawLexemes (h : IsCut rest) (p : Place) : ∀ r ∈ (rawLexemes p rest).head?,
    r.raw = .space ∨ r.raw = .token (.symbol .rightParen) := by
  obtain rfl | ⟨cs, rfl⟩ | ⟨cs, rfl⟩ := h.cases
  · simp [rawLexemes]
  · rw [rawLexemes_cons]
    rintro _ ⟨⟩
    exact .inl rfl
  · rw [rawLexemes_cons]
    rintro _ ⟨⟩
    exact .inr rfl

/-- No name goes on over a cut. -/
theorem IsCut.joinNames_cons (h : IsCut rest) (r : RawLexeme) (p : Place) :
    joinNames (r :: rawLexemes p rest) = r :: joinNames (rawLexemes p rest) := by
  have hnext := h.head_rawLexemes p
  refine joinNames.eq_6 _ _ ?_ ?_ ?_ ?_ ?_
  all_goals
    intros
    rename_i hr hrest
    rw [hrest] at hnext
    simpa using hnext _ rfl

theorem head_joinNames (rs : List RawLexeme)
    (h : ∀ r ∈ rs.head?, r.raw = .space ∨ r.raw = .token (.symbol .rightParen)) : (joinNames rs).head? = rs.head? := by
  fun_induction joinNames rs <;> simp_all

theorem IsCut.collides_eq_false (h : IsCut rest) (t : Token) (p : Place) :
    collides t (joinNames (rawLexemes p rest)).head? = false := by
  have hnext := h.head_rawLexemes p
  rw [head_joinNames _ hnext]
  rcases hr : (rawLexemes p rest).head? with _ | ⟨raw, text, q⟩
  · rfl
  · obtain rfl | rfl := hnext _ hr
    · rfl
    · cases t <;> rfl

/-- Where they are cut off, the characters are this token. -/
def Spells (cs : List Char) (t : Token) : Prop := ∀ rest, IsCut rest → tokensOf (cs ++ rest) = t :: tokensOf rest

/-- One raw token, cut off, is a token. -/
theorem spells_of_rawToken (h : ∀ rest, IsCut rest → rawToken c (cs ++ rest) = (.token t, cs.length + 1)) :
    Spells (c :: cs) t := by
  intro rest hrest
  have hlexemes : joinNames (rawLexemes ⟨0, 1, 1⟩ (c :: cs ++ rest)) =
      ⟨.token t, c :: cs, ⟨0, 1, 1⟩⟩ :: joinNames (rawLexemes (Place.after ⟨0, 1, 1⟩ (c :: cs)) rest) := by
    rw [List.cons_append, rawLexemes_of_rawToken (h rest hrest), hrest.joinNames_cons]
  exact tokensOf_cons hlexemes (hrest.collides_eq_false t _)

/-! Names. -/

theorem isSpace_eq_false {P : Char → Bool} (hc : P c) (h : [' ', '\t', '\r', '\n'].any P = false) :
    Blank.isSpace c = false := by
  have hne : ∀ d ∈ [' ', '\t', '\r', '\n'], c ≠ d := by
    rintro _ hd rfl
    exact List.any_eq_false.1 h _ hd hc
  simp_all [Blank.isSpace]

theorem isDigit_eq_false (hc : isNameStart c) : c.isDigit = false := by
  by_contra hdigit
  simp [isNameStart, within, startRanges] at hc
  simp [Char.isDigit, UInt32.le_iff_toNat_le] at hdigit
  have : c.toNat = c.val.toNat := rfl
  omega

/-- A name is read up to the first character that it cannot have. -/
theorem rawToken_name (h : isName (c :: cs)) (hrest : rest.takeWhile isNameChar = []) (hbrace : rest.head? ≠ some '\x7b') :
    rawToken c (cs ++ rest) = (.token (.name (String.ofList (c :: cs))), cs.length + 1) := by
  obtain ⟨hc, hcs⟩ := Bool.and_eq_true_iff.1 h
  have hne {d : Char} (hd : isNameStart d = false) : c ≠ d := by
    rintro rfl
    cases hd.symm.trans hc
  have hdot : c ≠ '.' := hne rfl
  have hdouble : c ≠ '"' := hne rfl
  have hsingle : c ≠ '\'' := hne rfl
  have huri : (decide (c = 'Q') && decide ((cs ++ rest).head? = some '\x7b')) = false := by
    cases cs with
    | nil => simp [hbrace]
    | cons d cs =>
      have hd : isNameChar d := (List.forall_mem_cons.1 (List.all_eq_true.1 hcs)).1
      have : d ≠ '\x7b' := by
        rintro rfl
        cases hd
      simp [this]
  have hall : (cs ++ rest).takeWhile isNameChar = cs := by
    rw [List.takeWhile_append_of_pos (List.all_eq_true.1 hcs), hrest, List.append_nil]
  unfold rawToken
  rw [isSpace_eq_false hc rfl, isDigit_eq_false hc, huri, hall]
  simp [hdot, hdouble, hsingle, hc]

theorem spells_name (h : isName cs) : Spells cs (.name (String.ofList cs)) := by
  cases cs with
  | nil => cases h
  | cons c cs =>
    exact spells_of_rawToken fun rest hrest => rawToken_name h (hrest.takeWhile rfl rfl) hrest.not_brace

/-! Whole numbers. -/

theorem digitsValue_toDigits (n : ℕ) : digitsValue (Nat.toDigits 10 n) = n := by
  have hvalue := Nat.ofDigitChars_toDigits (b := 10) (n := n) (by decide) (by decide)
  unfold Nat.ofDigitChars at hvalue
  unfold digitsValue
  simpa only [Nat.mul_comm] using hvalue

theorem IsCut.exponent? (h : IsCut rest) : Lexer.exponent? rest = none := by
  obtain rfl | ⟨cs, rfl⟩ | ⟨cs, rfl⟩ := h.cases <;> rfl

theorem IsCut.takeWhile_digits (h : IsCut rest) (hcs : ∀ c ∈ cs, c.isDigit) :
    (cs ++ rest).takeWhile Char.isDigit = cs := by
  rw [List.takeWhile_append_of_pos hcs, h.takeWhile rfl rfl, List.append_nil]

theorem number_whole (hcs : ∀ c ∈ cs, c.isDigit) (hrest : IsCut rest) :
    number (cs ++ rest) = (.integer (digitsValue cs), cs.length) := by
  have hpoint : ∀ r, rest ≠ '.' :: r := by
    rintro r rfl
    exact absurd (hrest '.' rfl) (by decide)
  unfold number
  rw [hrest.takeWhile_digits hcs]
  simp [hrest.exponent?]

theorem rawToken_of_number {n : ℕ} (hc : c.isDigit ∨ c = '.' ∧ cs.head?.any Char.isDigit)
    (h : number (c :: cs) = (t, n)) : rawToken c cs = (.token t, n) := by
  have hspace : Blank.isSpace c = false := by
    obtain hc | ⟨rfl, -⟩ := hc
    · exact isSpace_eq_false hc rfl
    · rfl
  have hstart : (c.isDigit || (decide (c = '.') && cs.head?.any Char.isDigit)) = true := by
    obtain hc | ⟨rfl, hc⟩ := hc
    · simp [hc]
    · simp [hc]
  rw [rawToken, hspace, if_neg Bool.false_ne_true, if_pos hstart, h]

/-- Digits are a whole number, also with zeros before them. -/
theorem spells_digits (hne : cs ≠ []) (hcs : ∀ c ∈ cs, c.isDigit) : Spells cs (.integer (digitsValue cs)) := by
  obtain ⟨c, ds, rfl⟩ := List.exists_cons_of_ne_nil hne
  exact spells_of_rawToken fun rest hrest =>
    rawToken_of_number (.inl (List.forall_mem_cons.1 hcs).1) (number_whole hcs hrest)

theorem spells_integer (n : ℕ) : Spells (Nat.toDigits 10 n) (.integer n) := by
  have hdigits : ∀ c ∈ Nat.toDigits 10 n, c.isDigit := fun _ => Nat.isDigit_of_mem_toDigits (by decide) (by decide)
  have hspells := spells_digits Nat.toDigits_ne_nil hdigits
  rwa [digitsValue_toDigits] at hspells

/-! Symbols. -/

theorem spells_symbol {x : Symbol} (hx : x ≠ .colon) : Spells x.spelling.toList (.symbol x) := by
  cases x
  case colon => exact absurd rfl hx
  all_goals
    refine spells_of_rawToken fun rest hrest => ?_
    obtain rfl | ⟨ds, rfl⟩ | ⟨ds, rfl⟩ := hrest.cases <;> rfl

theorem joinNames_symbol {x : Symbol} (hx : x ≠ .asteriskColon) (text : List Char) (p : Place) (rs : List RawLexeme) :
    joinNames (⟨.token (.symbol x), text, p⟩ :: rs) = ⟨.token (.symbol x), text, p⟩ :: joinNames rs := by
  refine joinNames.eq_6 _ _ ?_ ?_ (fun _ _ _ _ _ _ h _ => hx (by cases h; rfl)) ?_ ?_ <;> simp

theorem collides_symbol (x : Symbol) (o : Option RawLexeme) : collides (.symbol x) o = false := by
  unfold collides
  split <;> simp [Token.isNonDelimiting]

/-- Some symbols need no cut. -/
theorem tokensOf_symbol {x : Symbol} (h : rawToken c cs = (.token (.symbol x), 1)) (hx : x ≠ .asteriskColon) :
    tokensOf (c :: cs) = .symbol x :: tokensOf cs := by
  have hlexemes : joinNames (rawLexemes ⟨0, 1, 1⟩ (c :: cs)) =
      ⟨.token (.symbol x), [c], ⟨0, 1, 1⟩⟩ :: joinNames (rawLexemes (Place.after ⟨0, 1, 1⟩ [c]) cs) := by
    rw [rawLexemes_of_rawToken_one h, joinNames_symbol hx]
  exact tokensOf_cons hlexemes (collides_symbol x _)

theorem tokensOf_dollar (cs : List Char) : tokensOf ('$' :: cs) = .symbol .dollar :: tokensOf cs :=
  tokensOf_symbol rfl nofun

theorem tokensOf_rightParen (cs : List Char) : tokensOf (')' :: cs) = .symbol .rightParen :: tokensOf cs :=
  tokensOf_symbol rfl nofun

/-- A parenthesis before a colon is the start of a comment. -/
theorem tokensOf_leftParen (h : cs.head? ≠ some ':') :
    tokensOf ('(' :: cs) = .symbol .leftParen :: tokensOf cs := by
  refine tokensOf_symbol ?_ nofun
  cases cs with
  | nil => rfl
  | cons d cs =>
    have hd : d ≠ ':' := fun hd => h (by rw [hd]; rfl)
    change (symbol? _).getD _ = _
    simp [symbol?, hd]

/-! Names with a prefix or a URI. -/

theorem rawToken_colon (hc : isNameStart c) (cs : List Char) : rawToken ':' (c :: cs) = (.token (.symbol .colon), 1) := by
  have hne {d : Char} (hd : isNameStart d = false) : c ≠ d := by
    rintro rfl
    cases hd.symm.trans hc
  change (symbol? _).getD _ = _
  simp [symbol?, hne (d := ')') rfl, hne (d := '*') rfl, hne (d := ':') rfl, hne (d := '=') rfl]

theorem spells_prefixedName {ps ls : List Char} (hp : isName ps) (hl : isName ls) :
    Spells (ps ++ ':' :: ls) (.prefixedName (String.ofList ps) (String.ofList ls)) := by
  intro rest hrest
  obtain _ | ⟨c, cs⟩ := ps
  · cases hp
  obtain _ | ⟨d, ds⟩ := ls
  · cases hl
  have hcolon := rawToken_colon (Bool.and_eq_true_iff.1 hl).1 (ds ++ rest)
  have hlocal := rawToken_name hl (hrest.takeWhile rfl rfl) hrest.not_brace
  have hpfx : rawToken c (cs ++ ':' :: d :: (ds ++ rest)) =
      (.token (.name (String.ofList (c :: cs))), cs.length + 1) := rawToken_name hp rfl nofun
  have hlexemes (p : Place) : ∃ q, joinNames (rawLexemes p (c :: (cs ++ ':' :: d :: (ds ++ rest)))) =
      ⟨.token (.prefixedName (String.ofList (c :: cs)) (String.ofList (d :: ds))), c :: (cs ++ ':' :: d :: ds), p⟩ ::
        joinNames (rawLexemes q rest) := by
    rw [rawLexemes_of_rawToken hpfx, rawLexemes_of_rawToken_one hcolon, rawLexemes_of_rawToken hlocal,
      joinNames.eq_1]
    exact ⟨_, by simp; rfl⟩
  obtain ⟨q, hq⟩ := hlexemes ⟨0, 1, 1⟩
  rw [List.append_assoc]
  exact tokensOf_cons hq (hrest.collides_eq_false _ q)

/-- The characters can stand between the braces of a URI. -/
def IsBraceless (us : List Char) : Prop := ∀ c ∈ us, c ≠ '\x7b' ∧ c ≠ '\x7d'

theorem rawToken_bracedUri {us : List Char} (hu : IsBraceless us) (cs : List Char) :
    rawToken 'Q' ('\x7b' :: (us ++ ['\x7d']) ++ cs) =
      (.token (.bracedUri (String.ofList us)), ('\x7b' :: (us ++ ['\x7d'])).length + 1) := by
  have hbraced : bracedUri (us ++ '\x7d' :: cs) = (.bracedUri (String.ofList us), us.length + 1) := by
    have hwhole : (us ++ '\x7d' :: cs).takeWhile (fun c => decide (c ≠ '\x7b' ∧ c ≠ '\x7d')) = us := by
      rw [List.takeWhile_append_of_pos (by simpa [IsBraceless] using hu)]
      simp
    rw [bracedUri, hwhole, List.drop_left]
    rfl
  rw [List.cons_append, rawToken_uri, List.append_assoc, List.singleton_append, hbraced]
  simp

theorem spells_bracedUri {us : List Char} (hu : IsBraceless us) :
    Spells ('Q' :: '\x7b' :: (us ++ ['\x7d'])) (.bracedUri (String.ofList us)) :=
  spells_of_rawToken fun rest _ => rawToken_bracedUri hu rest

theorem spells_uriName {us ls : List Char} (hu : IsBraceless us) (hl : isName ls) :
    Spells ('Q' :: '\x7b' :: (us ++ '\x7d' :: ls)) (.uriName (String.ofList us) (String.ofList ls)) := by
  intro rest hrest
  obtain _ | ⟨d, ds⟩ := ls
  · cases hl
  have hlocal := rawToken_name hl (hrest.takeWhile rfl rfl) hrest.not_brace
  have hraw := rawToken_bracedUri hu (d :: (ds ++ rest))
  have hlexemes (p : Place) : ∃ q, joinNames (rawLexemes p ('Q' :: ('\x7b' :: (us ++ ['\x7d']) ++ d :: (ds ++ rest)))) =
      ⟨.token (.uriName (String.ofList us) (String.ofList (d :: ds))), 'Q' :: (('\x7b' :: (us ++ ['\x7d'])) ++ d :: ds), p⟩ ::
        joinNames (rawLexemes q rest) := by
    rw [rawLexemes_of_rawToken hraw, rawLexemes_of_rawToken hlocal, joinNames.eq_4]
    exact ⟨_, rfl⟩
  obtain ⟨q, hq⟩ := hlexemes ⟨0, 1, 1⟩
  have htext : 'Q' :: '\x7b' :: (us ++ '\x7d' :: d :: ds) ++ rest =
      'Q' :: (('\x7b' :: (us ++ ['\x7d'])) ++ d :: (ds ++ rest)) := by simp
  rw [htext]
  exact tokensOf_cons hq (hrest.collides_eq_false _ q)

/-! Wildcards. -/

theorem spells_anyInUri {us : List Char} (hu : IsBraceless us) :
    Spells ('Q' :: '\x7b' :: (us ++ ['\x7d', '*'])) (.anyInUri (String.ofList us)) := by
  intro rest hrest
  have hraw := rawToken_bracedUri hu ('*' :: rest)
  have hasterisk : rawToken '*' rest = (.token (.symbol .asterisk), 1) := by
    obtain rfl | ⟨ds, rfl⟩ | ⟨ds, rfl⟩ := hrest.cases <;> rfl
  have hlexemes (p : Place) : ∃ q, joinNames (rawLexemes p ('Q' :: ('\x7b' :: (us ++ ['\x7d']) ++ '*' :: rest))) =
      ⟨.token (.anyInUri (String.ofList us)), 'Q' :: (('\x7b' :: (us ++ ['\x7d'])) ++ ['*']), p⟩ ::
        joinNames (rawLexemes q rest) := by
    rw [rawLexemes_of_rawToken hraw, rawLexemes_of_rawToken_one hasterisk, joinNames.eq_5]
    exact ⟨_, rfl⟩
  obtain ⟨q, hq⟩ := hlexemes ⟨0, 1, 1⟩
  have htext : 'Q' :: '\x7b' :: (us ++ ['\x7d', '*']) ++ rest = 'Q' :: (('\x7b' :: (us ++ ['\x7d'])) ++ '*' :: rest) := by
    simp
  rw [htext]
  exact tokensOf_cons hq (hrest.collides_eq_false _ q)

theorem spells_anyLocal {ps : List Char} (hp : isName ps) : Spells (ps ++ [':', '*']) (.anyLocal (String.ofList ps)) := by
  intro rest hrest
  obtain _ | ⟨c, cs⟩ := ps
  · cases hp
  have hpfx : rawToken c (cs ++ ':' :: (['*'] ++ rest)) = (.token (.name (String.ofList (c :: cs))), cs.length + 1) :=
    rawToken_name hp rfl nofun
  have hmark : rawToken ':' (['*'] ++ rest) = (.token (.symbol .colonAsterisk), ['*'].length + 1) := rfl
  have hlexemes (p : Place) : ∃ q, joinNames (rawLexemes p (c :: (cs ++ ':' :: (['*'] ++ rest)))) =
      ⟨.token (.anyLocal (String.ofList (c :: cs))), c :: (cs ++ [':', '*']), p⟩ :: joinNames (rawLexemes q rest) := by
    rw [rawLexemes_of_rawToken hpfx, rawLexemes_of_rawToken hmark, joinNames.eq_2]
    exact ⟨_, rfl⟩
  obtain ⟨q, hq⟩ := hlexemes ⟨0, 1, 1⟩
  rw [List.append_assoc]
  exact tokensOf_cons hq (hrest.collides_eq_false _ q)

theorem spells_anyNamespace {ls : List Char} (hl : isName ls) :
    Spells ('*' :: ':' :: ls) (.anyNamespace (String.ofList ls)) := by
  intro rest hrest
  obtain _ | ⟨d, ds⟩ := ls
  · cases hl
  have hmark : rawToken '*' ([':'] ++ d :: (ds ++ rest)) = (.token (.symbol .asteriskColon), [':'].length + 1) := rfl
  have hlocal := rawToken_name hl (hrest.takeWhile rfl rfl) hrest.not_brace
  have hlexemes (p : Place) : ∃ q, joinNames (rawLexemes p ('*' :: ([':'] ++ d :: (ds ++ rest)))) =
      ⟨.token (.anyNamespace (String.ofList (d :: ds))), '*' :: ':' :: d :: ds, p⟩ :: joinNames (rawLexemes q rest) := by
    rw [rawLexemes_of_rawToken hmark, rawLexemes_of_rawToken hlocal, joinNames.eq_3]
    exact ⟨_, rfl⟩
  obtain ⟨q, hq⟩ := hlexemes ⟨0, 1, 1⟩
  exact tokensOf_cons hq (hrest.collides_eq_false _ q)

end Lexer

/-- A name with no prefix. -/
structure NCName where
  text : String
  isName : Lexer.isName text.toList

theorem NCName.spells (n : NCName) : Lexer.Spells n.text.toList (.name n.text) := by
  have hspells := Lexer.spells_name n.isName
  rwa [String.ofList_toList] at hspells

end XPath
