import XPath.Proofs.Positions

/-!
Reading tokens on demand. However a parser looks ahead and reads, a reader answers what the list of all tokens
answers, and the places that it counts step by step are those of the list.
-/
namespace XPath
open Lexer

namespace Cursor
variable {c c' c'' : Cursor} {s : Spanned RawToken} {xs ys : List Char} {depth stop : ℕ}

/-- The cursor moves over this text. -/
structure Reads (c : Cursor) (text : List Char) (c' : Cursor) : Prop where
  rest : c.rest = text ++ c'.rest
  offset : c'.offset = c.offset + String.utf8Len text

theorem Reads.refl (c : Cursor) : c.Reads [] c := ⟨rfl, rfl⟩

theorem Reads.trans (h : c.Reads xs c') (h' : c'.Reads ys c'') : c.Reads (xs ++ ys) c'' where
  rest := by rw [h.rest, h'.rest, List.append_assoc]
  offset := by rw [h'.offset, h.offset, String.utf8Len_append, Nat.add_assoc]

theorem rest_of_nextRaw? (h : c.nextRaw? = none) : c.rest = [] := by
  unfold nextRaw? at h
  split at h
  · rfl
  · cases h

theorem nextRaw?_cons (offset : ℕ) (d : Char) (ds : List Char) : nextRaw? ⟨offset, d :: ds⟩ =
    let stop := offset + String.utf8Len (d :: ds.take ((rawToken d ds).2 - 1))
    some (⟨(rawToken d ds).1, offset, stop⟩, ⟨stop, ds.drop ((rawToken d ds).2 - 1)⟩) := by
  rw [← String.utf8ByteSize_ofList]
  rfl

theorem exists_of_nextRaw? (p : Place) (h : c.nextRaw? = some (s, c')) : ∃ text, c.Reads text c' ∧ s.start = c.offset ∧
    rawLexemes p c.rest = ⟨s.token, text, p⟩ :: rawLexemes (p.after text) c'.rest := by
  obtain ⟨offset, _ | ⟨d, ds⟩⟩ := c
  · cases h
  · rw [nextRaw?_cons] at h
    obtain ⟨rfl, rfl⟩ := Prod.mk.inj (Option.some.inj h)
    exact ⟨_, ⟨by rw [List.cons_append, List.take_append_drop], rfl⟩, rfl, rawLexemes_cons p d ds⟩

theorem reads_skip (n : ℕ) (c : Cursor) (p : Place) :
    c.Reads (((rawLexemes p c.rest).take n).flatMap (·.text)) (c.skip n) ∧
      rawLexemes (p.after (((rawLexemes p c.rest).take n).flatMap (·.text))) (c.skip n).rest =
        (rawLexemes p c.rest).drop n := by
  fun_induction skip n c generalizing p with
  | case1 => exact ⟨.refl _, rfl⟩
  | case2 n c hnext =>
    rw [rest_of_nextRaw? hnext, rawLexemes]
    exact ⟨.refl _, by simp [rawLexemes]⟩
  | case3 n c s c' hnext ih =>
    obtain ⟨text, hreads, -, hlexemes⟩ := exists_of_nextRaw? p hnext
    obtain ⟨hskip, hdrop⟩ := ih (p.after text)
    rw [hlexemes, List.take_succ_cons, List.flatMap_cons, List.drop_succ_cons, Place.after_append]
    exact ⟨hreads.trans hskip, hdrop⟩

theorem token_of_nextRaw? (p : Place) (c : Cursor) :
    c.nextRaw?.map (·.1.token) = (rawLexemes p c.rest)[0]?.map (·.raw) := by
  rcases h : c.nextRaw? with _ | ⟨s, c'⟩
  · rw [rest_of_nextRaw? h, rawLexemes]
    rfl
  · obtain ⟨text, -, -, hlexemes⟩ := exists_of_nextRaw? p h
    rw [hlexemes]
    rfl

theorem token_of_nextRaw?_twice (p : Place) (c : Cursor) :
    (c.nextRaw?.bind fun (_, c') => c'.nextRaw?).map (·.1.token) = (rawLexemes p c.rest)[1]?.map (·.raw) := by
  rcases h : c.nextRaw? with _ | ⟨s, c'⟩
  · rw [rest_of_nextRaw? h, rawLexemes]
    rfl
  · obtain ⟨text, -, -, hlexemes⟩ := exists_of_nextRaw? p h
    rw [hlexemes]
    exact token_of_nextRaw? (p.after text) c'

theorem rest_of_nextJoined? (h : c.nextJoined? = none) : c.rest = [] := by
  unfold nextJoined? at h
  split at h
  · next hnext => exact rest_of_nextRaw? hnext
  · cases h

theorem exists_of_nextJoined? (p : Place) (h : c.nextJoined? = some (s, c')) : ∃ text, c.Reads text c' ∧
    s.start = c.offset ∧ s.stop = c'.offset ∧
    joinNames (rawLexemes p c.rest) = ⟨s.token, text, p⟩ :: joinNames (rawLexemes (p.after text) c'.rest) := by
  unfold nextJoined? at h
  split at h
  · cases h
  · next first c₁ hfirst =>
    obtain ⟨text, hreads, hstart, hlexemes⟩ := exists_of_nextRaw? p hfirst
    dsimp only at h
    rw [token_of_nextRaw? (p.after text), token_of_nextRaw?_twice (p.after text)] at h
    have hjoin := joinNames_cons ⟨first.token, text, p⟩ (rawLexemes (p.after text) c₁.rest)
    dsimp only at hjoin
    generalize join first.token _ _ = t at h hjoin
    obtain ⟨token, n⟩ := t
    cases h
    obtain ⟨hskip, hdrop⟩ := reads_skip n c₁ (p.after text)
    refine ⟨_, hreads.trans hskip, hstart, rfl, ?_⟩
    rw [hlexemes, hjoin, Place.after_append, hdrop]

/-- What is left when the last of `depth` open comments has been closed. -/
def closed (depth : ℕ) (rs : List RawLexeme) : Option (List RawLexeme) :=
  if depth = 0 then some rs else closes (depth - 1) rs

theorem closed_cons (hdepth : depth ≠ 0) (r : RawLexeme) (rs : List RawLexeme) : closed depth (r :: rs) =
    closed (match r.raw with
      | .commentOpen => depth + 1
      | .commentClose => depth - 1
      | _ => depth) rs := by
  obtain ⟨depth, rfl⟩ := Nat.exists_eq_succ_of_ne_zero hdepth
  obtain ⟨raw, _, _⟩ := r
  cases raw <;> simp [closed, closes]

theorem exists_of_skipComment (p : Place) (h : c.skipComment depth stop = .ok c') : ∃ text, c.Reads text c' ∧
    closed depth (joinNames (rawLexemes p c.rest)) = some (joinNames (rawLexemes (p.after text) c'.rest)) := by
  fun_induction skipComment depth stop c generalizing p with
  | case1 =>
    cases h
    exact ⟨[], .refl _, rfl⟩
  | case2 => cases h
  | case3 stop c depth hdepth s c₁ hnext depth' ih =>
    obtain ⟨text, hreads, -, -, hjoin⟩ := exists_of_nextJoined? p hnext
    obtain ⟨more, hmore, hclosed⟩ := ih (p.after text) h
    refine ⟨text ++ more, hreads.trans hmore, ?_⟩
    rw [hjoin, closed_cons hdepth, Place.after_append]
    exact hclosed

theorem closed_of_skipComment (p : Place) {stop' : ℕ} (hstop : stop = c.offset)
    (h : c.skipComment depth stop = .error stop') :
    closed depth (joinNames (rawLexemes p c.rest)) = none ∧ stop' = c.offset + String.utf8Len c.rest := by
  fun_induction skipComment depth stop c generalizing p with
  | case1 => cases h
  | case2 stop c depth hdepth hnext =>
    cases h
    rw [rest_of_nextJoined? hnext, rawLexemes]
    exact ⟨by simp [closed, hdepth, joinNames, closes], by simpa using hstop⟩
  | case3 stop c depth hdepth s c₁ hnext depth' ih =>
    obtain ⟨text, hreads, -, hs, hjoin⟩ := exists_of_nextJoined? p hnext
    obtain ⟨hclosed, hstop'⟩ := ih (p.after text) hs h
    rw [hjoin, closed_cons hdepth]
    refine ⟨hclosed, ?_⟩
    rw [hstop', hreads.rest, hreads.offset, String.utf8Len_append, Nat.add_assoc]

theorem lexemes_of_next?_none (p : Place) (h : c.next? = none) :
    delimit none (joinNames (rawLexemes p c.rest)) = [] := by
  fun_induction next? c generalizing p with
  | case1 c hnext =>
    rw [rest_of_nextJoined? hnext, rawLexemes]
    rfl
  | case2 c s c₁ hnext hraw ih =>
    obtain ⟨text, hreads, -, -, hjoin⟩ := exists_of_nextJoined? p hnext
    rw [hjoin, delimit, hraw]
    exact ih _ h
  | case3 c s c₁ hnext hraw c₂ hskip ih =>
    obtain ⟨text, hreads, -, -, hjoin⟩ := exists_of_nextJoined? p hnext
    obtain ⟨more, hmore, hclosed⟩ := exists_of_skipComment (p.after text) hskip
    have hcloses : closes 0 _ = some _ := hclosed
    rw [hjoin, delimit, hraw]
    dsimp only
    rw [delimit_open, hcloses]
    exact ih _ h
  | case4 => cases h
  | case5 => cases h
  | case6 => cases h

/-- The cursor moves over a token with the text before it, to which the first of these lexemes belongs. -/
def Finds (p : Place) (c : Cursor) (s : Spanned Token) (c' : Cursor) (ls : List Lexeme) : Prop :=
  ∃ gap text, c.Reads (gap ++ text) c' ∧ s.start = c.offset + String.utf8Len gap ∧ s.stop = c'.offset ∧
    ls = ⟨s.token, text, p.after gap, (p.after (gap ++ text)).offset⟩ ::
      delimit none (joinNames (rawLexemes (p.after (gap ++ text)) c'.rest))

theorem Finds.behind {p : Place} {s : Spanned Token} {ls : List Lexeme} (hreads : c.Reads xs c')
    (h : Finds (p.after xs) c' s c'' ls) : Finds p c s c'' ls := by
  obtain ⟨gap, text, hafter, hstart, hstop, rfl⟩ := h
  refine ⟨xs ++ gap, text, ?_, ?_, hstop, ?_⟩
  · rw [List.append_assoc]
    exact hreads.trans hafter
  · rw [hstart, hreads.offset, String.utf8Len_append, Nat.add_assoc]
  · rw [List.append_assoc]
    simp only [Place.after_append]

theorem collides_congr {t : Token} {r r' : RawLexeme} (h : r.raw = r'.raw) :
    collides t (some r) = collides t (some r') := by
  obtain ⟨raw, _, _⟩ := r
  obtain ⟨raw', _, _⟩ := r'
  obtain rfl : raw = raw' := h
  cases raw <;> rfl

/-- Whether a token collides with the next one shows in what the cursor finds next. -/
theorem collides_nextJoined (p : Place) (t : Token) (c : Cursor) :
    collides t (joinNames (rawLexemes p c.rest)).head? =
      collides t (c.nextJoined?.map fun (u, _) => RawLexeme.mk u.token [] ⟨u.start, 1, 1⟩) := by
  rcases hnext : c.nextJoined? with _ | ⟨u, c₁⟩
  · rw [rest_of_nextJoined? hnext, rawLexemes]
    rfl
  · obtain ⟨text, -, -, -, hjoin⟩ := exists_of_nextJoined? p hnext
    rw [hjoin]
    exact collides_congr rfl

theorem finds_of_next? {s : Spanned Token} (p : Place) (h : c.next? = some (s, c')) :
    Finds p c s c' (delimit none (joinNames (rawLexemes p c.rest))) := by
  fun_induction next? c generalizing p with
  | case1 => cases h
  | case2 c s₁ c₁ hnext hraw ih =>
    obtain ⟨text, hreads, -, -, hjoin⟩ := exists_of_nextJoined? p hnext
    rw [hjoin, delimit, hraw]
    exact .behind hreads (ih _ h)
  | case3 c s₁ c₁ hnext hraw c₂ hskip ih =>
    obtain ⟨text, hreads, -, -, hjoin⟩ := exists_of_nextJoined? p hnext
    obtain ⟨more, hmore, hclosed⟩ := exists_of_skipComment (p.after text) hskip
    have hcloses : closes 0 _ = some _ := hclosed
    rw [hjoin, delimit, hraw]
    dsimp only
    rw [delimit_open, hcloses]
    exact .behind hreads (.behind hmore (ih _ h))
  | case4 c s₁ c₁ hnext hraw stop hskip =>
    obtain ⟨text, hreads, hstart, hs, hjoin⟩ := exists_of_nextJoined? p hnext
    obtain ⟨hclosed, rfl⟩ := closed_of_skipComment (p.after text) hs hskip
    have hcloses : closes 0 _ = none := hclosed
    cases h
    refine ⟨[], text ++ c₁.rest, ⟨by simp [hreads.rest], ?_⟩, hstart, rfl, ?_⟩
    · simp [hreads.offset, Nat.add_assoc]
    · rw [hjoin, delimit, hraw]
      dsimp only
      rw [delimit_open, hcloses]
      simp [text_joinNames, rawLexemes_text, rawLexemes, joinNames, delimit]
      rfl
  | case5 c s₁ c₁ hnext hraw =>
    obtain ⟨text, hreads, hstart, hs, hjoin⟩ := exists_of_nextJoined? p hnext
    cases h
    refine ⟨[], text, hreads, hstart, hs, ?_⟩
    rw [hjoin, delimit, hraw]
    rfl
  | case6 c s₁ c₁ hnext t hraw next =>
    obtain ⟨text, hreads, hstart, hs, hjoin⟩ := exists_of_nextJoined? p hnext
    cases h
    refine ⟨[], text, hreads, hstart, hs, ?_⟩
    rw [hjoin, delimit, hraw]
    dsimp only
    rw [collides_nextJoined]
    rfl

end Cursor

namespace Reader
variable {before done todo seen : List Char} {line : ℕ} {r : Reader}

theorem lastLineStart_concat (cs : List Char) (c : Char) : lastLineStart (cs ++ [c]) =
    if c = '\n' then String.utf8Len (cs ++ [c]) else lastLineStart cs := by
  unfold lastLineStart
  rw [List.reverse_append, List.reverse_singleton, List.singleton_append, List.dropWhile_cons]
  by_cases h : c = '\n'
  · rw [if_pos h, h]
    simp [Nat.add_comm, String.utf8ByteSize_ofList, show "\n".utf8ByteSize = '\n'.utf8Size from rfl]
  · simp [h]

/-- The last line of a text begins where the text before its last line ends. -/
theorem exists_lastLine (cs : List Char) :
    ∃ xs, cs = xs ++ Place.lastLine cs ∧ lastLineStart cs = String.utf8Len xs := by
  induction cs using List.reverseRecOn with
  | nil => exact ⟨[], rfl, rfl⟩
  | append_singleton cs c ih =>
    obtain ⟨xs, hcs, hstart⟩ := ih
    rw [lastLineStart_concat, Place.lastLine_concat]
    by_cases h : c = '\n'
    · exact ⟨cs ++ [c], by simp [h], by simp [h]⟩
    · refine ⟨xs, ?_, by simp [h, hstart]⟩
      rw [if_neg h, ← List.append_assoc, ← hcs]

theorem countLines_eq (line : ℕ) (cs ds : List Char) : countLines line (lastLineStart cs) (String.utf8Len cs) ds =
    (line + ds.count '\n', lastLineStart (cs ++ ds)) := by
  induction ds generalizing line cs with
  | nil => simp [countLines]
  | cons d ds ih =>
    have hoffset : String.utf8Len cs + d.utf8Size = String.utf8Len (cs ++ [d]) := by simp
    have hstart := lastLineStart_concat cs d
    have hrest := ih (line + if d = '\n' then 1 else 0) (cs ++ [d])
    unfold countLines
    rw [hoffset]
    split
    · next hd =>
      rw [if_pos hd] at hstart hrest
      rw [hstart, hd] at hrest
      simpa [hd, Nat.add_comm, Nat.add_left_comm, show '\n'.utf8Size = 1 from rfl] using hrest
    · next hd =>
      rw [if_neg hd] at hstart hrest
      rw [hstart] at hrest
      simpa [hd, List.count_cons] using hrest

/-- The reader has counted the lines of `before ++ seen`. -/
structure HasCounted (before : List Char) (line : ℕ) (seen : List Char) (r : Reader) : Prop where
  scanned : r.scanned = String.utf8Len (before ++ seen)
  line : r.line = line + seen.count '\n'
  lineStart : r.lineStart = lastLineStart (before ++ seen)

variable {more rest : List Char}

theorem HasCounted.advanceLines (h : HasCounted before line seen r)
    (hsource : r.source = before ++ (seen ++ (more ++ rest))) :
    HasCounted before line (seen ++ more) (r.advanceLines (String.utf8Len (before ++ (seen ++ more)))) := by
  obtain rfl | hmore := eq_or_ne more []
  · rw [Reader.advanceLines, if_pos (by rw [h.scanned, List.append_nil]), List.append_nil]
    exact h
  · have hpos := utf8Len_pos hmore
    have hslice := sourceSlice_append (before ++ seen) more rest
    have hcount := countLines_eq r.line (before ++ seen) more
    rw [List.append_assoc, List.append_assoc] at hslice
    rw [Reader.advanceLines, h.scanned, if_neg (by simp only [String.utf8Len_append]; omega), hsource, hslice,
      h.lineStart, hcount]
    constructor
    · rfl
    · simp [h.line, Nat.add_assoc]
    · simp

theorem advanceLines_cursor (r : Reader) (offset : ℕ) : (r.advanceLines offset).source = r.source ∧
    (r.advanceLines offset).start = r.start ∧ (r.advanceLines offset).lookahead = r.lookahead := by
  unfold Reader.advanceLines
  split <;> exact ⟨rfl, rfl, rfl⟩

theorem HasCounted.position (h : HasCounted before line seen r)
    (hsource : r.source = before ++ (seen ++ (more ++ rest))) :
    (r.position (String.utf8Len (before ++ (seen ++ more)))).1 = (Place.start before line).after (seen ++ more) := by
  have hafter := h.advanceLines hsource
  obtain ⟨xs, hxs, hstart⟩ := exists_lastLine (before ++ (seen ++ more))
  have hslice := sourceSlice_append xs (Place.lastLine (before ++ (seen ++ more))) rest
  rw [← hxs, ← List.append_assoc, ← hxs] at hslice
  unfold Reader.position
  dsimp only
  rw [(advanceLines_cursor r _).1, hafter.line, hafter.lineStart, hstart, hsource, Place.start_after]
  simp only [List.append_assoc] at hslice ⊢
  rw [hslice]

/-- What a reader of `before ++ (done ++ todo)` knows that has read `done`. -/
structure IsAt (before : List Char) (line : ℕ) (done todo : List Char) (r : Reader) : Prop where
  source : r.source = before ++ (done ++ todo)
  start : r.start = String.utf8Len before
  cursor : r.cursor = ⟨String.utf8Len done, todo⟩
  counted : ∃ seen more, done = seen ++ more ∧ HasCounted before line seen r

theorem IsAt.withLookahead (h : IsAt before line done todo r) (ls : List Lexeme) :
    IsAt before line done todo { r with lookahead := ls } := by
  obtain ⟨hsource, hstart, hcursor, seen, more, hdone, hcounted⟩ := h
  exact ⟨hsource, hstart, hcursor, seen, more, hdone, hcounted.scanned, hcounted.line, hcounted.lineStart⟩

theorem isAt_ofSource (before rest : List Char) (line : ℕ) :
    IsAt before line [] rest (ofSource (before ++ rest) (String.utf8Len before) line) := by
  unfold ofSource
  rw [Place.splitAtOffset_utf8Len]
  exact ⟨rfl, rfl, rfl, [], [], rfl, ⟨by simp, rfl, by simp⟩⟩

/-- The tokens that a reader has not looked at yet. -/
def remaining (before : List Char) (line : ℕ) (done todo : List Char) : List Lexeme :=
  delimit none (joinNames (rawLexemes ((Place.start before line).after done) todo))

theorem pull?_none (h : IsAt before line done todo r) (hpull : r.pull? = none) :
    remaining before line done todo = [] := by
  unfold Reader.pull? at hpull
  split at hpull
  · next hnext =>
    rw [h.cursor] at hnext
    exact Cursor.lexemes_of_next?_none _ hnext
  · cases hpull

theorem pull?_some {l : Lexeme} {r' : Reader} (h : IsAt before line done todo r) (hpull : r.pull? = some (l, r')) :
    ∃ done' todo', IsAt before line done' todo' r' ∧ r'.lookahead = r.lookahead ∧
      remaining before line done todo = l :: remaining before line done' todo' := by
  unfold Reader.pull? at hpull
  split at hpull
  · cases hpull
  · next s cursor hnext =>
    rw [h.cursor] at hnext
    obtain ⟨gap, text, hreads, hstart, hstop, hlexemes⟩ :=
      Cursor.finds_of_next? ((Place.start before line).after done) hnext
    obtain ⟨rest, hrest⟩ : ∃ rest, cursor.rest = rest := ⟨_, rfl⟩
    obtain rfl : todo = gap ++ text ++ rest := hrest ▸ hreads.rest
    obtain ⟨seen, more, rfl, hcounted⟩ := h.counted
    have hsource : r.source = before ++ (seen ++ ((more ++ gap) ++ (text ++ rest))) := by simp [h.source]
    have hfrom : s.start + r.start = String.utf8Len (before ++ (seen ++ (more ++ gap))) := by
      rw [hstart, h.start]
      simp only [String.utf8Len_append]
      omega
    have hto : s.stop + r.start = String.utf8Len (before ++ (seen ++ (more ++ gap)) ++ text) := by
      rw [hstop, hreads.offset, h.start]
      simp only [String.utf8Len_append]
      omega
    have hcounts := hcounted.advanceLines hsource
    have hposition := hcounted.position hsource
    have hslice := sourceSlice_append (before ++ (seen ++ (more ++ gap))) text rest
    obtain ⟨hkeeps, hstarts, hlooks⟩ := advanceLines_cursor r (String.utf8Len (before ++ (seen ++ (more ++ gap))))
    dsimp only at hpull
    rw [hfrom, hto] at hpull
    obtain ⟨rfl, rfl⟩ := Prod.mk.inj (Option.some.inj hpull)
    refine ⟨seen ++ more ++ (gap ++ text), rest, ⟨?_, ?_, ?_, seen ++ (more ++ gap), text, ?_, ?_⟩, ?_, ?_⟩
    · exact hkeeps.trans (by simp [h.source])
    · exact hstarts.trans h.start
    · have hcursor : cursor = ⟨cursor.offset, cursor.rest⟩ := rfl
      rw [hreads.offset, hrest, ← String.utf8Len_append] at hcursor
      exact hcursor
    · simp
    · exact ⟨hcounts.scanned, hcounts.line, hcounts.lineStart⟩
    · exact hlooks
    · have hremaining : remaining before line (seen ++ more) (gap ++ text ++ rest) = _ := hlexemes
      have hkept : (r.position (String.utf8Len (before ++ (seen ++ (more ++ gap))))).2.source = r.source := hkeeps
      have hsplit : before ++ (seen ++ (more ++ gap ++ (text ++ rest))) =
          before ++ (seen ++ (more ++ gap)) ++ (text ++ rest) := by simp
      rw [hremaining, hrest, hposition, hkept, hsource, hsplit, hslice, ← Place.after_append, ← Place.after_append,
        remaining, Place.start_after before (seen ++ more ++ (gap ++ text))]
      simp

/-- Looking for more tokens takes them over from those that have not been looked at. -/
theorem fill_spec (n : ℕ) (h : IsAt before line done todo r) : ∃ done' todo', IsAt before line done' todo' (fill n r) ∧
    (fill n r).lookahead = r.lookahead ++ (remaining before line done todo).take n ∧
    remaining before line done' todo' = (remaining before line done todo).drop n := by
  induction n generalizing done todo r with
  | zero => exact ⟨done, todo, h, by simp [fill], rfl⟩
  | succ n ih =>
    unfold fill
    rcases hpull : r.pull? with _ | ⟨l, r'⟩
    · rw [pull?_none h hpull]
      exact ⟨done, todo, h, by simp, by simp [pull?_none h hpull]⟩
    · obtain ⟨done', todo', h', hlooks, hremaining⟩ := pull?_some h hpull
      obtain ⟨done'', todo'', h'', hlooks', hremaining'⟩ :=
        ih (h'.withLookahead (r'.lookahead ++ [l]))
      refine ⟨done'', todo'', h'', ?_, ?_⟩
      · rw [hremaining, hlooks', hlooks]
        simp
      · rw [hremaining, hremaining']
        rfl

/-- The lexemes that a reader has not given out: those that it has looked at, and the others. -/
def Holds (before : List Char) (line : ℕ) (r : Reader) (ls : List Lexeme) : Prop :=
  ∃ done todo, IsAt before line done todo r ∧ ls = r.lookahead ++ remaining before line done todo

variable {ls : List Lexeme}

theorem peekNth_spec (n : ℕ) (h : Holds before line r ls) :
    (r.peekNth n).1 = ls[n]? ∧ Holds before line (r.peekNth n).2 ls := by
  obtain ⟨done, todo, hat, rfl⟩ := h
  obtain ⟨done', todo', hat', hlooks, hremaining⟩ := fill_spec (n + 1 - r.lookahead.length) hat
  unfold peekNth
  dsimp only
  rw [hlooks]
  refine ⟨?_, done', todo', hat', ?_⟩
  · rcases lt_or_ge n r.lookahead.length with hn | hn
    · rw [List.getElem?_append_left hn, List.getElem?_append_left hn]
    · rw [List.getElem?_append_right hn, List.getElem?_append_right hn, List.getElem?_take_of_lt (by omega)]
  · rw [hlooks, hremaining, List.append_assoc, List.take_append_drop]

theorem next_spec (h : Holds before line r ls) : r.next.1 = ls.head? ∧ Holds before line r.next.2 ls.tail := by
  obtain ⟨done, todo, hat, rfl⟩ := h
  unfold next
  rcases hlooks : r.lookahead with _ | ⟨l, looks⟩
  · rcases hpull : r.pull? with _ | ⟨l, r'⟩
    · rw [pull?_none hat hpull]
      exact ⟨rfl, done, todo, hat, by simp [hlooks, pull?_none hat hpull]⟩
    · obtain ⟨done', todo', hat', hlooks', hremaining⟩ := pull?_some hat hpull
      rw [hremaining]
      exact ⟨rfl, done', todo', hat', by simp [hlooks', hlooks]⟩
  · exact ⟨rfl, done, todo, hat.withLookahead looks, rfl⟩

theorem answers_eq {finish : Place} (h : Holds before line r ls) (calls : List Call) :
    r.answers calls = (TokenStream.mk ls finish).answers calls := by
  induction calls generalizing r ls with
  | nil => rfl
  | cons call calls ih =>
    cases call with
    | peek n =>
      obtain ⟨hanswer, hnext⟩ := peekNth_spec n h
      exact congrArg₂ List.cons hanswer (ih hnext)
    | next =>
      obtain ⟨hanswer, hnext⟩ := next_spec h
      exact congrArg₂ List.cons hanswer (ih hnext)

theorem holds_ofSource (before rest : List Char) (line : ℕ) :
    Holds before line (ofSource (before ++ rest) (String.utf8Len before) line)
      (TokenStream.ofSource (before ++ rest) (String.utf8Len before) line).lexemes := by
  refine ⟨[], rest, isAt_ofSource before rest line, ?_⟩
  unfold ofSource TokenStream.ofSource
  rw [Place.splitAtOffset_utf8Len]
  rfl

/-- The lexemes that a reader gives out, without the answers to those who only look. -/
def delivered (r : Reader) : List Call → List (Option Lexeme)
  | [] => []
  | .peek n :: calls => delivered (r.peekNth n).2 calls
  | .next :: calls => r.next.1 :: delivered r.next.2 calls

theorem delivered_eq {finish : Place} (h : Holds before line r ls) (calls : List Call) :
    r.delivered calls = (TokenStream.mk ls finish).answers (calls.filter (· = .next)) := by
  induction calls generalizing r ls with
  | nil => rfl
  | cons call calls ih =>
    cases call with
    | peek n => exact ih (peekNth_spec n h).2
    | next =>
      obtain ⟨hanswer, hnext⟩ := next_spec h
      exact congrArg₂ List.cons hanswer (ih hnext)

/-- A reader answers every interleaving of calls as the list of all tokens does, and gives out what it gives out when
nobody looks ahead. The tokens stand in order where their places say, and the source is lost between them only
where it is white space or a comment that the lexer skips. Of two tokens that need something between them and have
nothing, the first is an error. -/
theorem answers_exactly (before rest : List Char) (line : ℕ) :
    let source := before ++ rest
    let start := String.utf8Len before
    let s := TokenStream.ofSource source start line
    (∀ calls, (ofSource source start line).answers calls = s.answers calls ∧
      (ofSource source start line).delivered calls = (ofSource source start line).answers (calls.filter (· = .next))) ∧
    IsExact Comment.IsSkipped source start line s.lexemes ∧
    ∀ pre x y post t u, joinNames (rawLexemes (Place.start before line) rest) = pre ++ x :: y :: post →
      openAfter 0 pre = 0 → x.raw = .token t → y.raw = .token u → t.isNonDelimiting → u.isNonDelimiting →
      ⟨.error, x.text, x.place, x.stop⟩ ∈ s.lexemes := by
  intro source start s
  have hholds := holds_ofSource before rest line
  have hlexemes : s.lexemes = delimit none (joinNames (rawLexemes (Place.start before line) rest)) := by
    change (TokenStream.ofSource (before ++ rest) (String.utf8Len before) line).lexemes = _
    unfold TokenStream.ofSource
    rw [Place.splitAtOffset_utf8Len]
  have hanswers (calls : List Call) : (ofSource source start line).answers calls = s.answers calls :=
    answers_eq hholds calls
  refine ⟨fun calls => ⟨hanswers calls, ?_⟩, ?_, fun pre x y post t u hjoin hopen hx hy ht hu => ?_⟩
  · rw [hanswers]
    exact delivered_eq hholds calls
  · rw [hlexemes]
    exact (isLaidOut _ rest).isExact
  · rw [hlexemes, hjoin]
    exact error_of_adjacent hopen hx hy ht hu

/-- A number that runs into a name, in the second line of a source. -/
theorem answers_exactly_adjacent :
    ⟨.error, ['1'], ⟨3, 7, 1⟩, 4⟩ ∈ (TokenStream.ofSource "é\n1and".toList 3 7).lexemes := by
  refine (answers_exactly "é\n".toList "1and".toList 7).2.2 [] ⟨.token (.integer 1), ['1'], ⟨3, 7, 1⟩⟩
    ⟨.token (.name "and"), ['a', 'n', 'd'], ⟨4, 7, 2⟩⟩ [] _ _ ?_ rfl rfl rfl rfl rfl
  have hone : rawToken '1' ['a', 'n', 'd'] = (.token (.integer 1), 1) := by decide +kernel
  have hand : rawToken 'a' ['n', 'd'] = (.token (.name "and"), 3) := by decide +kernel
  change joinNames (rawLexemes ⟨3, 7, 1⟩ ['1', 'a', 'n', 'd']) = _
  rw [rawLexemes_cons, hone]
  change joinNames (_ :: rawLexemes ⟨4, 7, 2⟩ ['a', 'n', 'd']) = _
  rw [rawLexemes_cons, hand]
  change joinNames (_ :: _ :: rawLexemes _ []) = _
  rw [rawLexemes]
  rfl

end Reader

/-- The text between the marks of a comment, when the first mark after it closes it. -/
theorem Comment.eq_of_nests {body rest xs ys : List Char} (hnests : nests 0 body) (hxs : ∀ x ∈ xs, x ≠ ':' ∧ x ≠ '(')
    (h : body ++ ':' :: ')' :: rest = xs ++ ':' :: ')' :: ys) : body = xs ∧ rest = ys := by
  induction xs generalizing body with
  | nil =>
    rcases body with _ | ⟨b, _ | ⟨c, body⟩⟩
    · exact ⟨rfl, by simpa using h⟩
    · simp at h
    · obtain ⟨rfl, rfl, -⟩ : b = ':' ∧ c = ')' ∧ _ := by simpa using h
      cases hnests
  | cons x xs ih =>
    obtain ⟨hx, hrest⟩ := List.forall_mem_cons.1 hxs
    rcases body with _ | ⟨b, body⟩
    · obtain ⟨rfl, -⟩ := List.cons.inj h
      exact absurd rfl hx.1
    · obtain ⟨rfl, htail⟩ := List.cons.inj h
      rw [nests_cons (startsMark_of_ne hx body)] at hnests
      obtain ⟨rfl, rfl⟩ := ih hnests hrest htail
      exact ⟨rfl, rfl⟩

/-- In the gap behind the first token of this source, two comments stand around a text that is none. -/
theorem Reader.gap_of_quotes : ¬ ∀ gap ∈ gapsFrom "2 (: ' :) + 1 (: ' :) + 5".toList 0
    (TokenStream.ofSource "2 (: ' :) + 1 (: ' :) + 5".toList 0 1).lexemes, IsGap (Comment.nests 0 ·) gap := by
  intro h
  have hgap : IsGap _ (' ' :: '(' :: ':' :: ([' ', '\'', ' '] ++ ':' :: ')' :: " + 1 (: ' :) ".toList)) :=
    h " (: ' :) + 1 (: ' :) ".toList (by decide +kernel)
  obtain ⟨-, hgap⟩ | ⟨_, _, heq, -⟩ := hgap.of_cons
  · obtain ⟨hspace, -⟩ | ⟨body, rest, heq, hnests, hgap⟩ := hgap.of_cons
    · cases hspace
    · have htext : body ++ ':' :: ')' :: rest = [' ', '\'', ' '] ++ ':' :: ')' :: " + 1 (: ' :) ".toList := by
        simpa [Comment.text] using heq.symm
      obtain ⟨rfl, rfl⟩ := Comment.eq_of_nests hnests (by simp) htext
      change IsGap _ (' ' :: '+' :: " 1 (: ' :) ".toList) at hgap
      obtain ⟨-, hgap⟩ | ⟨_, _, heq, -⟩ := hgap.of_cons
      · obtain ⟨hspace, -⟩ | ⟨_, _, heq, -⟩ := hgap.of_cons
        · cases hspace
        · cases heq
      · cases heq
  · cases heq

end XPath
