import XPath.Proofs.Embedding
import XPath.Proofs.Keeping
import XPath.Proofs.Keywords
import XPath.Proofs.Rereading

/-!
How value templates are written. A text is written with its braces doubled and an expression between single ones.
No expression begins with a brace, and every one that can be read alone is scanned and read to its end, so that
a template gives back the segments of which it was written.
-/
namespace XPath
open XPath.Parser

/-! Expressions that can be read alone. They begin with no brace. -/

namespace Parser
variable {c : ParseContext} {scope : Scope} {ts : List Token}

theorem breaks_stepExpr_brace (k : ℕ) :
    Breaks c scope (.symbol .leftBrace :: ts) (stepExpr (k + 2)) c.kind.syntaxCode := by
  have hstarts : Takes c scope (.symbol .leftBrace :: ts) startsAxisStep (· = false) (.symbol .leftBrace :: ts) :=
    takes_peek.next (.pure rfl)
  rw [stepExpr]
  refine hstarts.next_breaks (Breaks.bind ?_)
  rw [primary]
  refine takes_location.breaks fun at' _ => takes_peek.next_breaks ?_
  exact takes_checkQName.next_breaks (breaks_expected _)

end Parser

namespace Expr
variable {text : String} {line : ℕ} {context : StaticContext} {unit : CompileUnit} {e : Expr}

theorem not_brace_of_parse (he : (parse text 0 .endOfInput line context unit).1 = .ok e) :
    text.toList.head? ≠ some '\x7b' := by
  intro hhead
  obtain ⟨cs, hcs⟩ := List.head?_eq_some_iff.1 hhead
  have htokens : Lexer.tokensOf text.toList = .symbol .leftBrace :: Lexer.tokensOf cs := by
    rw [hcs]
    exact Lexer.tokensOf_symbol rfl nofun
  have hstep (k : ℕ) (hk : 2 ≤ k) : Breaks ⟨context, .expression⟩ unit.scope
      (.symbol .leftBrace :: Lexer.tokensOf cs) (stepExpr k) .grammar := by
    obtain ⟨k, rfl⟩ := Nat.exists_eq_add_of_le' hk
    exact breaks_stepExpr_brace k
  have hunary (k : ℕ) (hk : 4 ≤ k) := breaks_unary hstep (by simp) hk
  have hrank : OperatorLevel.or.rank = 0 := rfl
  have hor := breaks_operators (k := 40 * (Lexer.tokensOf cs).length + 118) (ℓ := .or) hunary (by omega)
  obtain ⟨err, herr, -⟩ := parse_of_breaks htokens (breaks_expr hor (.inl nofun)) line
  cases he.symm.trans herr

theorem valid_of_parse (he : (parse text 0 .endOfInput line context unit).1 = .ok e) :
    ∀ l ∈ (TokenStream.ofSource text.toList 0 line).lexemes, l.token ≠ .error := by
  rw [parse_eq_run] at he
  exact Scan.valid_of_walk (Scan.walk_end default ((ensures_reader_end _ _).of_run he))

end Expr

/-- Slots that are new to the unit are counted from another number. -/
def CompileUnit.shift (unit : CompileUnit) (k : ℕ) (slot : Slot) : Slot :=
  if slot < unit.bindings.size then slot else slot + k

/-- The trees are the same but for locations and slots. Where the variables in scope have slots of the unit, the trees
have these in common, and the others differ by a constant. -/
structure Expr.IsCopy (unit : CompileUnit) (e e' : Expr) : Prop where
  shape : e.relabel (fun _ => 0) = e'.relabel fun _ => 0
  slots : (∀ v ∈ unit.scope, v.2 < unit.bindings.size) → ∃ k, e.relabel (unit.shift k) = e'.unlocated

namespace Expr
variable {text source : String} {before rest : List Char} {context : StaticContext} {unit unit' : CompileUnit}
  {e : Expr}

/-- The scanner stops at the brace behind which the parser leaves off. -/
theorem scan_of_unread {start line : ℕ} {ls more : List Lexeme} {brace : Lexeme}
    (hlexemes : (TokenStream.ofSource source.toList start line).lexemes = ls ++ brace :: more)
    (he : (parse source start .rightBrace line context unit).1 = .ok e)
    (hunread : (unread source start .rightBrace line context unit).length = more.length) :
    Scan.scan source start .rightBrace line = .ok brace.place.offset := by
  rw [parse_eq_run] at he
  obtain ⟨read, last, htokens, hlast, hleads⟩ := (ensures_reader_brace _ _).of_run he
  have hlength : (brace :: more).length = (last :: unread source start .rightBrace line context unit).length := by
    rw [List.length_cons, List.length_cons, hunread]
  obtain ⟨rfl, hsame⟩ := List.append_inj' (hlexemes.symm.trans htokens) hlength
  obtain ⟨rfl, -⟩ := List.cons.inj hsame
  rw [Scan.scan, htokens]
  exact Scan.walk_brace _ hleads hlast

/-- Where a text that can be read alone stands before a brace, it is scanned up to the brace and read as it is
alone. -/
theorem parse_enclosed (hsource : source.toList = before ++ (text.toList ++ '\x7d' :: rest))
    (he : (parse text 0 .endOfInput 1 context unit).1 = .ok e) (hunit : unit.Keeps unit') (line : ℕ) :
    Scan.scan source (String.utf8Len before) .rightBrace line = .ok (String.utf8Len (before ++ text.toList)) ∧
      ∃ e', (parse source (String.utf8Len before) .rightBrace line context unit').1 = .ok e' ∧ e.IsCopy unit e' := by
  obtain ⟨ls, brace, more, hlexemes, hls, hbrace, hoffset⟩ :=
    TokenStream.ofSource_brace (valid_of_parse he) before rest line
  rw [← hsource] at hlexemes
  obtain ⟨i, hi⟩ := Nat.exists_eq_add_of_le hunit.bindings.length_le
  rw [Array.length_toList, Array.length_toList] at hi
  -- the slots of the two readings count from the numbers of bindings
  have hbeside (label label' : Slot → Slot) (agree : ∀ n, label (unit.bindings.size + n) =
      label' (unit'.bindings.size + n)) (hscope : ∀ v ∈ unit.scope, label v.2 = label' v.2) :
      ParseState.Beside ⟨label, label', _, _, agree, more.map fun l => (l.token, l.text)⟩
        ⟨.ofSource text.toList 0 1, unit, []⟩
        ⟨.ofSource source.toList (String.utf8Len before) line, unit', []⟩ := by
    refine ⟨?_, ⟨0, rfl, rfl⟩, ?_⟩
    · rw [ParseState.written, hlexemes, List.map_append, hls, List.map_cons, hbrace]
      rfl
    · rw [hunit.scope]
      exact List.forall₂_same.2 fun v hv => ⟨rfl, hscope v hv⟩
  obtain ⟨e', he', hshape, hlength⟩ :=
    parse_repeated (hbeside (fun _ => 0) (fun _ => 0) (fun _ => rfl) fun _ _ => rfl) he
  refine ⟨?_, e', he', hshape, fun hslots => ⟨i, ?_⟩⟩
  · rw [← hoffset]
    exact scan_of_unread hlexemes he' (hlength.trans (List.length_map _))
  · have hnew (n : ℕ) : unit.shift i (unit.bindings.size + n) = unit'.bindings.size + n := by
      rw [CompileUnit.shift, if_neg (Nat.not_lt.2 (Nat.le_add_right _ _)), hi]
      exact Nat.add_right_comm _ _ _
    have hold : ∀ v ∈ unit.scope, unit.shift i v.2 = id v.2 := fun v hv => if_pos (hslots v hv)
    obtain ⟨e'', he'', halike, -⟩ := parse_repeated (hbeside (unit.shift i) id hnew hold) he
    obtain rfl := Except.ok.inj (he'.symm.trans he'')
    rw [← relabel_id]
    exact halike

end Expr

/-! Templates. -/

namespace ValueTemplate

/-- What a template is written from: text, or the source of an expression. -/
inductive Segment where
  | text (s : String)
  | expr (source : String)
  deriving DecidableEq, Repr

/-- A text with its braces doubled. -/
def escape : List Char → List Char
  | [] => []
  | c :: cs => if c = '\x7b' ∨ c = '\x7d' then c :: c :: escape cs else c :: escape cs

namespace Segment

def written : Segment → List Char
  | text s => escape s.toList
  | expr source => '\x7b' :: (source.toList ++ ['\x7d'])

/-- Puts a text before segments; one that they begin with is joined to it. -/
def prepend (s : String) : List Segment → List Segment
  | text t :: segments => text (s ++ t) :: segments
  | segments => text s :: segments

/-- Joins adjacent texts. -/
def merge : List Segment → List Segment
  | [] => []
  | text s :: segments => prepend s (merge segments)
  | expr source :: segments => expr source :: merge segments

/-- Segments behind text that has been read, the latest character first. -/
def behind (literal : List Char) (segments : List Segment) : List Segment :=
  if literal = [] then segments else prepend (String.ofList literal.reverse) segments

/-- Texts are not empty and expressions are not blank, and these can be read alone. -/
def IsValid (context : StaticContext) (unit : CompileUnit) : Segment → Prop
  | text s => s ≠ ""
  | expr source => Blank.trim source.toList ≠ [] ∧ ∃ e, (Expr.parse source 0 .endOfInput 1 context unit).1 = .ok e

/-- The part is the text, or else a copy of what the expression is alone. -/
inductive Gives (context : StaticContext) (unit : CompileUnit) : Segment → TemplatePart → Prop where
  | text (s : String) : Gives context unit (text s) (.text s)
  | expr {source : String} {e e' : Expr} : (Expr.parse source 0 .endOfInput 1 context unit).1 = .ok e →
    e.IsCopy unit e' → Gives context unit (expr source) (.expr e')

theorem prepend_prepend (s t : String) (segments : List Segment) :
    prepend s (prepend t segments) = prepend (s ++ t) segments := by
  cases segments with
  | nil => rfl
  | cons x segments => cases x <;> simp [prepend, String.append_assoc]

theorem behind_prepend {s : String} (hs : s ≠ "") (literal : List Char) (segments : List Segment) :
    behind literal (prepend s segments) = behind (s.toList.reverse ++ literal) segments := by
  have hne : s.toList.reverse ++ literal ≠ [] := by simp [hs]
  unfold behind
  rw [if_neg hne, List.reverse_append, List.reverse_reverse, String.ofList_append, String.ofList_toList]
  split
  · next hnil =>
    rw [hnil, List.reverse_nil, String.ofList_nil, String.empty_append]
  · exact prepend_prepend _ _ _

/-- Text that no other text follows is a part of its own. -/
theorem gives_behind {context : StaticContext} {unit : CompileUnit} {segments : List Segment}
    {parts : List TemplatePart} (htext : ∀ t more, segments ≠ text t :: more)
    (h : List.Forall₂ (Gives context unit) segments parts) (literal : List Char) :
    List.Forall₂ (Gives context unit) (behind literal segments) (textPart literal ++ parts) := by
  unfold behind textPart
  simp only [List.isEmpty_iff]
  split
  · exact h
  · have hprepend : prepend (String.ofList literal.reverse) segments =
        text (String.ofList literal.reverse) :: segments := by
      unfold prepend
      split
      · exact absurd rfl (htext _ _)
      · rfl
    rw [hprepend]
    exact .cons (.text _) h

end Segment

open Segment

variable {source : String} {before rest : List Char} {context : StaticContext} {unit : CompileUnit}
  {place : Place} {s : State}

theorem enclosed_expr {text : String} {e : Expr} (hsource : source.toList = before ++ (text.toList ++ '\x7d' :: rest))
    (hplace : place.offset = String.utf8Len before) (hblank : Blank.trim text.toList ≠ [])
    (he : (Expr.parse text 0 .endOfInput 1 context unit).1 = .ok e) (hunit : unit.Keeps s.unit) :
    ∃ e' s', enclosed source place (text.toList ++ '\x7d' :: rest) context s =
      (.ok ([.expr e'], text.toList.length + 1), s') ∧ e.IsCopy unit e' ∧ unit.Keeps s'.unit := by
  obtain ⟨hscan, e', he', hcopy⟩ := Expr.parse_enclosed hsource he hunit place.line
  rw [← hplace] at hscan he'
  have hinner : Place.splitAtOffset (String.utf8Len (before ++ text.toList) - place.offset)
      (text.toList ++ '\x7d' :: rest) = (text.toList, '\x7d' :: rest) := by
    rw [hplace, String.utf8Len_append, Nat.add_sub_cancel_left, Place.splitAtOffset_utf8Len]
  have hkeeps := keeps_enclosed source context place (text.toList ++ '\x7d' :: rest) s
  have henclosed : (enclosed source place (text.toList ++ '\x7d' :: rest) context s).1 =
      .ok ([.expr e'], text.toList.length + 1) := by
    unfold enclosed
    rw [hscan]
    dsimp only
    rw [hinner, if_neg (by simpa using hblank), he']
    rfl
  exact ⟨e', _, Prod.ext henclosed rfl, hcopy, hunit.trans hkeeps⟩

theorem read_escape (cs : List Char) (place : Place) (literal rest : List Char) (s : State) :
    read source context place literal (escape cs ++ rest) s =
      read source context (place.after (escape cs)) (cs.reverse ++ literal) rest s := by
  induction cs generalizing place literal with
  | nil => rfl
  | cons c cs ih =>
    rw [List.reverse_cons, List.append_assoc, List.singleton_append]
    by_cases hbrace : c = '\x7b' ∨ c = '\x7d'
    · rw [escape, if_pos hbrace, List.cons_append, read, if_pos hbrace, List.cons_append, List.head?_cons, if_pos rfl]
      exact ih _ _
    · rw [escape, if_neg hbrace, List.cons_append, read, if_neg hbrace]
      exact ih _ _

/-- An expression is read from its opening brace to its closing one. -/
theorem read_expr {text : String} {e : Expr}
    (hsource : source.toList = before ++ ((Segment.expr text).written ++ rest))
    (hplace : place.offset = String.utf8Len before) (hblank : Blank.trim text.toList ≠ [])
    (he : (Expr.parse text 0 .endOfInput 1 context unit).1 = .ok e) (hunit : unit.Keeps s.unit)
    (literal : List Char) : ∃ e' s', (read source context place literal ((Segment.expr text).written ++ rest) s).1 =
        (read source context (place.after (Segment.expr text).written) [] rest s').1.map
          (fun more => textPart literal ++ .expr e' :: more) ∧
      e.IsCopy unit e' ∧ unit.Keeps s'.unit := by
  have htext : text.toList ++ ['\x7d'] ++ rest = text.toList ++ '\x7d' :: rest := by simp
  have hinside : source.toList = before ++ ['\x7b'] ++ (text.toList ++ '\x7d' :: rest) := by simp [hsource, written]
  have hoffset : (place.advance '\x7b').offset = String.utf8Len (before ++ ['\x7b']) := by
    rw [String.utf8Len_append, ← hplace]
    exact Place.offset_after place ['\x7b']
  have hsingle : (text.toList ++ '\x7d' :: rest).head? ≠ some '\x7b' := by
    have hhead := Expr.not_brace_of_parse he
    cases hcs : text.toList with
    | nil => simp
    | cons c cs => simpa [hcs] using hhead
  obtain ⟨e', s', henclosed, hcopy, hkeeps⟩ := enclosed_expr hinside hoffset hblank he hunit
  refine ⟨e', s', ?_, hcopy, hkeeps⟩
  have htake : (text.toList ++ '\x7d' :: rest).take (text.toList.length + 1) = text.toList ++ ['\x7d'] := by
    rw [← htext, List.take_left' (by simp)]
  have hdrop : (text.toList ++ '\x7d' :: rest).drop (text.toList.length + 1) = rest := by
    rw [← htext, List.drop_left' (by simp)]
  rw [written, List.cons_append, htext, read, if_pos (.inl rfl), if_neg hsingle, if_neg (by decide), henclosed]
  dsimp only
  rw [htake, hdrop]
  simp only [List.append_assoc, List.singleton_append]
  rfl

/-- What is left of a template, with the text before it, gives the segments that are left. -/
theorem read_written {segments : List Segment} (hvalid : ∀ x ∈ segments, x.IsValid context unit)
    (hsource : source.toList = before ++ segments.flatMap written) (hplace : place.offset = String.utf8Len before)
    (hunit : unit.Keeps s.unit) (literal : List Char) : ∃ parts,
      (read source context place literal (segments.flatMap written) s).1 = .ok parts ∧
      List.Forall₂ (Gives context unit) (behind literal (merge segments)) parts := by
  induction segments generalizing before place literal s with
  | nil =>
    refine ⟨textPart literal, by rw [List.flatMap_nil, read], ?_⟩
    have hgives : List.Forall₂ (Gives context unit) (merge []) [] := .nil
    simpa only [List.append_nil] using gives_behind (by simp [merge]) hgives literal
  | cons x segments ih =>
    obtain ⟨hx, hmore⟩ := List.forall_mem_cons.1 hvalid
    rw [List.flatMap_cons] at hsource ⊢
    have hsource' : source.toList = before ++ x.written ++ segments.flatMap written := by
      rw [hsource, List.append_assoc]
    have hplace' : (place.after x.written).offset = String.utf8Len (before ++ x.written) := by
      rw [Place.offset_after, hplace, String.utf8Len_append]
    cases x with
    | text t =>
      obtain ⟨parts, hparts, hgives⟩ := ih hmore hsource' hplace' hunit (t.toList.reverse ++ literal)
      refine ⟨parts, (congrArg Prod.fst (read_escape _ _ _ _ _)).trans hparts, ?_⟩
      rw [merge, behind_prepend hx]
      exact hgives
    | expr text =>
      obtain ⟨hblank, e, he⟩ := hx
      obtain ⟨e', s', hread, hcopy, hunit'⟩ := read_expr hsource hplace hblank he hunit literal
      obtain ⟨parts, hparts, hgives⟩ := ih hmore hsource' hplace' hunit' []
      refine ⟨_, hread.trans (congrArg _ hparts), ?_⟩
      exact gives_behind (by simp) (.cons (.expr he hcopy) hgives) literal

/-- A template that is written from segments has these as its parts, with adjacent texts joined. -/
theorem parse_written {context : StaticContext} {unit : CompileUnit} {segments : List Segment}
    (hvalid : ∀ x ∈ segments, x.IsValid context unit) (line : ℕ) : ∃ t,
      (parse (String.ofList (segments.flatMap written)) line context unit).1 = .ok t ∧
      List.Forall₂ (Gives context unit) (merge segments) t.parts := by
  let source := String.ofList (segments.flatMap written)
  let location : Location := ⟨line, 1, 0, source.utf8ByteSize⟩
  have hsource : source.toList = [] ++ segments.flatMap written := String.toList_ofList
  have hplace : (Place.mk 0 line 1).offset = String.utf8Len [] := rfl
  have hunit : unit.Keeps (State.mk (unit.allocateLocation location).2 []).unit := .allocateLocation unit location
  obtain ⟨parts, hparts, hgives⟩ := read_written hvalid hsource hplace hunit []
  rw [List.nil_append] at hsource
  rw [← hsource] at hparts
  refine ⟨⟨parts, (unit.allocateLocation location).1⟩, ?_, hgives⟩
  exact congrArg (Except.map _) hparts

/-- Doubled braces beside the single ones of an expression that has braces itself. -/
theorem parse_written_braces : let source := "let $x := '\x7d' return text\x7b $x \x7d (: \x7b :)"
    ∃ t, (parse ("é\x7b\x7b\x7b" ++ source ++ "\x7d\x7d\x7d!") 1 {} {}).1 = .ok t ∧
      List.Forall₂ (Gives {} {}) [.text "é\x7b", .expr source, .text "\x7d!"] t.parts := by
  intro source
  let segments : List Segment := [.text "é", .text "\x7b", .expr source, .text "\x7d", .text "!"]
  have hsource : Blank.trim source.toList ≠ [] := by decide +kernel
  have hread : ∃ e, (Expr.parse source 0 .endOfInput 1 {} {}).1 = .ok e := Expr.exists_of_isOk (by decide +kernel)
  have hvalid : ∀ x ∈ segments, x.IsValid {} {} := by
    have htext (s : String) (hs : s ≠ "") : (Segment.text s).IsValid {} {} := hs
    have hexpr : (Segment.expr source).IsValid {} {} := ⟨hsource, hread⟩
    simp [segments, htext, hexpr]
  have hwritten : String.ofList (segments.flatMap written) = "é\x7b\x7b\x7b" ++ source ++ "\x7d\x7d\x7d!" := by
    decide +kernel
  have hmerge : merge segments = [.text "é\x7b", .expr source, .text "\x7d!"] := by decide +kernel
  rw [← hwritten, ← hmerge]
  exact parse_written hvalid 1

end ValueTemplate
end XPath
