import XPath.Proofs.Decimals
import XPath.Proofs.Spelling

/-!
Writing tokens. Each token that is not an error can be written in some way, often in several: with leading zeros, in
either kind of quotes. Whichever way is taken, a text of tokens with spaces between them has just those tokens.
-/
namespace XPath
namespace Lexer
variable {c q : Char} {cs rest : List Char} {t : Token}

/-! Numbers. -/

theorem number_decimal {whole fraction : List Char} {d : Decimal} (hwhole : ∀ c ∈ whole, c.isDigit)
    (hfraction : ∀ c ∈ fraction, c.isDigit) (hrest : IsCut rest)
    (hd : Decimal.parse? (String.ofList (whole ++ '.' :: fraction)) = some d) :
    number (whole ++ '.' :: fraction ++ rest) = (.decimal d, (whole ++ '.' :: fraction).length) := by
  have hdigits : (whole ++ '.' :: fraction ++ rest).takeWhile Char.isDigit = whole := by
    rw [List.append_assoc, List.takeWhile_append_of_pos hwhole]
    simp
  have hpoint : (whole ++ '.' :: fraction ++ rest).drop whole.length = '.' :: (fraction ++ rest) := by
    rw [List.append_assoc, List.drop_left, List.cons_append]
  have hlength : whole.length + 1 + fraction.length = (whole ++ '.' :: fraction).length := by
    simp
    omega
  unfold number
  simp only [hdigits, hpoint, hrest.takeWhile_digits hfraction, hlength, List.drop_left, List.take_left,
    hrest.exponent?, hd, one_ne_zero, if_false]

/-! Literals in quotes. -/

/-- A text with its quotes doubled. -/
def doubled (q : Char) (cs : List Char) : List Char := cs.flatMap fun c => if c = q then [c, c] else [c]

theorem stringBody_cons_of_ne (hc : c ≠ q) (hcs : cs ≠ []) :
    stringBody q (c :: cs) = (stringBody q cs).map fun (v, n) => (c :: v, n + 1) := by
  cases cs with
  | nil => exact absurd rfl hcs
  | cons d cs => rw [stringBody, if_neg hc]

theorem stringBody_doubled (q : Char) (cs : List Char) (hrest : ∀ c ∈ rest.head?, c ≠ q) :
    stringBody q (doubled q cs ++ q :: rest) = some (cs, (doubled q cs).length + 1) := by
  induction cs with
  | nil =>
    cases rest with
    | nil => simp [doubled, stringBody]
    | cons d rest => simp [doubled, stringBody, hrest d rfl]
  | cons c cs ih =>
    by_cases hc : c = q
    · subst hc
      have hdoubled : doubled c (c :: cs) = c :: c :: doubled c cs := by simp [doubled]
      rw [hdoubled, List.cons_append, List.cons_append, stringBody, if_pos rfl, if_pos rfl, ih]
      rfl
    · have hdoubled : doubled q (c :: cs) = c :: doubled q cs := by simp [doubled, hc]
      rw [hdoubled, List.cons_append, stringBody_cons_of_ne hc (by simp), ih]
      rfl

theorem spells_string (hq : q = '"' ∨ q = '\'') (cs : List Char) :
    Spells (q :: (doubled q cs ++ [q])) (.string (String.ofList cs)) := by
  refine spells_of_rawToken fun rest hrest => ?_
  have hhead : ∀ c ∈ rest.head?, c ≠ q := by
    rintro c hc rfl
    rcases hrest c hc with rfl | rfl <;> simp at hq
  have hbody := stringBody_doubled q cs hhead
  rw [List.append_assoc, List.singleton_append]
  rcases hq with rfl | rfl <;> simp [rawToken, hbody, Blank.isSpace]

theorem spells_decimal {whole fraction : List Char} {d : Decimal} (hdigits : ∀ c ∈ whole ++ fraction, c.isDigit)
    (hne : whole ++ fraction ≠ []) (hd : Decimal.parse? (String.ofList (whole ++ '.' :: fraction)) = some d) :
    Spells (whole ++ '.' :: fraction) (.decimal d) := by
  obtain ⟨hwhole, hfraction⟩ := List.forall_mem_append.1 hdigits
  have hnumber {rest : List Char} (hrest : IsCut rest) := number_decimal hwhole hfraction hrest hd
  cases whole with
  | nil =>
    obtain ⟨c, ds, rfl⟩ := List.exists_cons_of_ne_nil (List.nil_append fraction ▸ hne)
    have hc := (List.forall_mem_cons.1 hfraction).1
    exact spells_of_rawToken fun rest hrest => rawToken_of_number (.inr ⟨rfl, by simpa using hc⟩) (hnumber hrest)
  | cons c whole =>
    have hc := (List.forall_mem_cons.1 hwhole).1
    exact spells_of_rawToken fun rest hrest => rawToken_of_number (.inl hc) (hnumber hrest)

/-! Texts of several tokens. -/

/-- The ways in which a token can be written. -/
inductive Spelled : Token → List Char → Prop
  | integer {ds : List Char} (hne : ds ≠ []) (hdigits : ∀ c ∈ ds, c.isDigit) : Spelled (.integer (digitsValue ds)) ds
  | decimal {d : Decimal} {whole fraction : List Char} (hne : whole ++ fraction ≠ [])
      (hdigits : ∀ c ∈ whole ++ fraction, c.isDigit)
      (hvalue : d.value = digitsValue (whole ++ fraction) / 10 ^ fraction.length) :
      Spelled (.decimal d) (whole ++ '.' :: fraction)
  | string {q : Char} (hq : q = '"' ∨ q = '\'') (cs : List Char) :
      Spelled (.string (String.ofList cs)) (q :: (doubled q cs ++ [q]))
  | name {ls : List Char} (hl : isName ls) : Spelled (.name (String.ofList ls)) ls
  | prefixedName {ps ls : List Char} (hp : isName ps) (hl : isName ls) :
      Spelled (.prefixedName (String.ofList ps) (String.ofList ls)) (ps ++ ':' :: ls)
  | uriName {us ls : List Char} (hu : IsBraceless us) (hl : isName ls) :
      Spelled (.uriName (String.ofList us) (String.ofList ls)) ('Q' :: '\x7b' :: (us ++ '\x7d' :: ls))
  | anyLocal {ps : List Char} (hp : isName ps) : Spelled (.anyLocal (String.ofList ps)) (ps ++ [':', '*'])
  | anyNamespace {ls : List Char} (hl : isName ls) : Spelled (.anyNamespace (String.ofList ls)) ('*' :: ':' :: ls)
  | anyInUri {us : List Char} (hu : IsBraceless us) :
      Spelled (.anyInUri (String.ofList us)) ('Q' :: '\x7b' :: (us ++ ['\x7d', '*']))
  | bracedUri {us : List Char} (hu : IsBraceless us) :
      Spelled (.bracedUri (String.ofList us)) ('Q' :: '\x7b' :: (us ++ ['\x7d']))
  | symbol (x : Symbol) : Spelled (.symbol x) x.spelling.toList

/-- The same token; two decimals are the same if they are the same number. -/
def SameToken : Token → Token → Prop
  | .decimal d, .decimal e => d.value = e.value
  | t, u => t = u

/-- A decimal that is written in this way is written with as many places as it has. -/
def KeepsPlaces (t : Token) (cs : List Char) : Prop :=
  ∀ d, t = .decimal d → d.negative = false ∧ (cs.dropWhile (· ≠ '.')).length = d.scale + 1

theorem sameToken_refl (t : Token) : SameToken t t := by
  cases t <;> rfl

/-- Each way of writing a token spells it before a space and at the end of the text. -/
theorem tokensOf_spelled (h : Spelled t cs) : ∃ u, SameToken u t ∧ (KeepsPlaces t cs → u = t) ∧
    tokensOf cs = [u] ∧ ∀ rest, tokensOf (cs ++ ' ' :: rest) = u :: tokensOf rest := by
  have hspells {u : Token} {cs : List Char} (h : Spells cs u) :
      tokensOf cs = [u] ∧ ∀ rest, tokensOf (cs ++ ' ' :: rest) = u :: tokensOf rest := by
    refine ⟨?_, fun rest => ?_⟩
    · have hend := h [] isCut_nil
      rwa [List.append_nil, tokensOf_nil] at hend
    · rw [h _ (isCut_space rest), tokensOf_space]
  have hexact {u : Token} {cs : List Char} (h : Spells cs u) : ∃ v, SameToken v u ∧ (KeepsPlaces u cs → v = u) ∧
      tokensOf cs = [v] ∧ ∀ rest, tokensOf (cs ++ ' ' :: rest) = v :: tokensOf rest :=
    ⟨u, sameToken_refl u, fun _ => rfl, hspells h⟩
  cases h with
  | integer hne hdigits => exact hexact (spells_digits hne hdigits)
  | @decimal d whole fraction hne hdigits hvalue =>
    obtain ⟨e, he, hsame, hkeeps⟩ := Decimal.parse?_digits hdigits hne hvalue
    refine ⟨.decimal e, hsame, fun h => ?_, hspells (spells_decimal hdigits hne he)⟩
    obtain ⟨hnegative, hplaces⟩ := h d rfl
    have hpoint : (whole ++ '.' :: fraction).dropWhile (· ≠ '.') = '.' :: fraction := by
      have hwhole : ∀ c ∈ whole, decide (c ≠ '.') = true := fun c hc =>
        decide_eq_true (Decimal.ne_point (hdigits c (List.mem_append_left _ hc)))
      rw [List.dropWhile_append_of_pos hwhole, List.dropWhile_cons_of_neg (by simp)]
    rw [hpoint, List.length_cons, Nat.add_right_cancel_iff] at hplaces
    rw [hkeeps hnegative hplaces]
  | string hq cs => exact hexact (spells_string hq cs)
  | name hl => exact hexact (spells_name hl)
  | prefixedName hp hl => exact hexact (spells_prefixedName hp hl)
  | uriName hu hl => exact hexact (spells_uriName hu hl)
  | anyLocal hp => exact hexact (spells_anyLocal hp)
  | anyNamespace hl => exact hexact (spells_anyNamespace hl)
  | anyInUri hu => exact hexact (spells_anyInUri hu)
  | bracedUri hu => exact hexact (spells_bracedUri hu)
  | symbol x =>
    by_cases hx : x = .colon
    · subst hx
      have hcolon (cs : List Char) : rawToken ':' (' ' :: cs) = (.token (.symbol .colon), 1) := rfl
      have hend : tokensOf [':'] = .symbol .colon :: tokensOf [] := tokensOf_symbol rfl nofun
      rw [tokensOf_nil] at hend
      refine ⟨_, sameToken_refl _, fun _ => rfl, hend, fun rest => ?_⟩
      exact (tokensOf_symbol (hcolon rest) nofun).trans (congrArg _ (tokensOf_space rest))
    · exact hexact (spells_symbol hx)

theorem tokensOf_intercalate {ts : List Token} {texts : List (List Char)} (h : List.Forall₂ Spelled ts texts) :
    List.Forall₂ SameToken (tokensOf ([' '].intercalate texts)) ts ∧
      (List.Forall₂ KeepsPlaces ts texts → tokensOf ([' '].intercalate texts) = ts) := by
  induction h with
  | nil => simp
  | @cons t cs ts texts ht hts ih =>
    obtain ⟨u, hsame, hkeeps, hlast, hnext⟩ := tokensOf_spelled ht
    have htokens : tokensOf ([' '].intercalate (cs :: texts)) = u :: tokensOf ([' '].intercalate texts) := by
      cases texts with
      | nil => rw [List.intercalate_singleton, hlast, List.intercalate_nil, tokensOf_nil]
      | cons ds texts =>
        rw [List.intercalate_cons_cons, List.append_assoc, List.singleton_append, hnext]
    rw [htokens]
    refine ⟨.cons hsame ih.1, fun hall => ?_⟩
    obtain ⟨hplaces, hrest⟩ := List.forall₂_cons.1 hall
    rw [hkeeps hplaces, ih.2 hrest]

/-- Reading undoes writing: a text of written tokens with spaces between them has just those tokens, in whichever way
each of them is written. Decimals are read as the same numbers, and with the same places where they are written with as
many as they have. -/
theorem tokens_of_written {ts : List Token} {texts : List (List Char)} (h : List.Forall₂ Spelled ts texts) (line : ℕ) :
    List.Forall₂ SameToken ((TokenStream.ofSource ([' '].intercalate texts) 0 line).lexemes.map (·.token)) ts ∧
      (List.Forall₂ KeepsPlaces ts texts →
        (TokenStream.ofSource ([' '].intercalate texts) 0 line).lexemes.map (·.token) = ts) := by
  rw [tokensOf_ofSource]
  exact tokensOf_intercalate h

/-- Apart from each other, the parts of a name are not joined, and a parenthesis and a colon are no comment. -/
theorem tokens_of_written_apart :
    (TokenStream.ofSource "007 ( : 'it''s' 1.50 . Q\x7bu\x7d a : b".toList 0 1).lexemes.map (·.token) =
      [.integer 7, .symbol .leftParen, .symbol .colon, .string "it's", .decimal ⟨false, 150, 2, by decide, by decide⟩,
        .symbol .dot, .bracedUri "u", .name "a", .symbol .colon, .name "b"] := by
  have hvalue : Decimal.value ⟨false, 150, 2, by decide, by decide⟩ =
      digitsValue (['1'] ++ ['5', '0']) / 10 ^ ['5', '0'].length := by
    rw [show digitsValue (['1'] ++ ['5', '0']) = 150 from rfl]
    norm_num [Decimal.value, Decimal.signed]
  have hspelled := List.Forall₂.cons (@Spelled.integer ['0', '0', '7'] (List.cons_ne_nil _ _) (by simp)) <|
    .cons (.symbol .leftParen) <| .cons (.symbol .colon) <|
    .cons (@Spelled.string '\'' (.inr rfl) ['i', 't', '\'', 's']) <|
    .cons (.decimal (by simp) (by simp) hvalue) <| .cons (.symbol .dot) <|
    .cons (@Spelled.bracedUri ['u'] (by simp [IsBraceless])) <|
    .cons (@Spelled.name ['a'] rfl) <| .cons (.symbol .colon) <| .cons (@Spelled.name ['b'] rfl) .nil
  exact (tokens_of_written hspelled 1).2 (by simp [KeepsPlaces])

end Lexer
end XPath
