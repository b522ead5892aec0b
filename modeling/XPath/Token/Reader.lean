import XPath.Token.Lexer

/-!
Tokens on demand. A reader finds a token only when it is asked for one: it keeps the tokens that have been looked
at and not read, and it counts lines as far as the last token that it has found.
-/
namespace XPath

/-- A token and the bytes that it covers. -/
structure Spanned (α : Type) where
  token : α
  start : Nat
  stop : Nat

/-- The part of a text that has not been read, and how many bytes have been. -/
structure Cursor where
  offset : Nat
  rest : List Char

namespace Cursor

def nextRaw? : Cursor → Option (Spanned RawToken × Cursor)
  | ⟨_, []⟩ => none
  | ⟨offset, c :: cs⟩ =>
    let (raw, n) := Lexer.rawToken c cs
    let stop := offset + (String.ofList (c :: cs.take (n - 1))).utf8ByteSize
    some (⟨raw, offset, stop⟩, ⟨stop, cs.drop (n - 1)⟩)

/-- Reads over so many raw tokens. -/
def skip : Nat → Cursor → Cursor
  | 0, c => c
  | n + 1, c =>
    match c.nextRaw? with
    | none => c
    | some (_, c') => skip n c'

/-- What becomes of a raw token before these two, and how many of them it takes in. -/
def join : RawToken → Option RawToken → Option RawToken → RawToken × Nat
  | .token (.name p), some (.token (.symbol .colon)), some (.token (.name l)) => (.token (.prefixedName p l), 2)
  | .token (.name p), some (.token (.symbol .colonAsterisk)), _ => (.token (.anyLocal p), 1)
  | .token (.symbol .asteriskColon), some (.token (.name l)), _ => (.token (.anyNamespace l), 1)
  | .token (.bracedUri uri), some (.token (.name l)), _ => (.token (.uriName uri l), 1)
  | .token (.bracedUri uri), some (.token (.symbol .asterisk)), _ => (.token (.anyInUri uri), 1)
  | t, _, _ => (t, 0)

/-- The next raw token, with the ones that directly follow it when they make one name. -/
def nextJoined? (c : Cursor) : Option (Spanned RawToken × Cursor) :=
  match c.nextRaw? with
  | none => none
  | some (first, c₁) =>
    let second := c₁.nextRaw?
    let third := second.bind fun (_, c₂) => c₂.nextRaw?
    let (token, n) := join first.token (second.map (·.1.token)) (third.map (·.1.token))
    let c' := c₁.skip n
    some (⟨token, first.start, c'.offset⟩, c')

theorem shorter_of_nextRaw? {c c' : Cursor} {s : Spanned RawToken} (h : c.nextRaw? = some (s, c')) :
    c'.rest.length < c.rest.length := by
  unfold nextRaw? at h
  split at h
  · cases h
  · cases h
    simp only [List.length_drop, List.length_cons]
    omega

theorem length_skip (n : Nat) (c : Cursor) : (c.skip n).rest.length ≤ c.rest.length := by
  fun_induction skip n c with
  | case1 => exact Nat.le_refl _
  | case2 => exact Nat.le_refl _
  | case3 _ _ _ _ hnext ih => exact Nat.le_trans ih (Nat.le_of_lt (shorter_of_nextRaw? hnext))

theorem shorter_of_nextJoined? {c c' : Cursor} {s : Spanned RawToken} (h : c.nextJoined? = some (s, c')) :
    c'.rest.length < c.rest.length := by
  unfold nextJoined? at h
  split at h
  · cases h
  · next hnext =>
    cases h
    exact Nat.lt_of_le_of_lt (length_skip _ _) (shorter_of_nextRaw? hnext)

/-- Reads over the end of a comment when so many are open; if one stays open, where the text ends. -/
def skipComment (depth stop : Nat) (c : Cursor) : Except Nat Cursor :=
  if depth = 0 then .ok c
  else match _h : c.nextJoined? with
    | none => .error stop
    | some (s, c') =>
      let depth := match s.token with
        | .commentOpen => depth + 1
        | .commentClose => depth - 1
        | _ => depth
      skipComment depth s.stop c'
termination_by c.rest.length
decreasing_by exact shorter_of_nextJoined? _h

theorem le_of_skipComment {depth stop : Nat} {c c' : Cursor} (h : c.skipComment depth stop = .ok c') :
    c'.rest.length ≤ c.rest.length := by
  fun_induction skipComment depth stop c with
  | case1 =>
    cases h
    exact Nat.le_refl _
  | case2 => cases h
  | case3 _ _ _ _ s c₁ hnext _ ih => exact Nat.le_trans (ih h) (Nat.le_of_lt (shorter_of_nextJoined? hnext))

/-- The next token that is no white space and no comment. -/
def next? (c : Cursor) : Option (Spanned Token × Cursor) :=
  match _h : c.nextJoined? with
  | none => none
  | some (s, c') =>
    match s.token with
    | .space => next? c'
    | .commentOpen =>
      match _hc : c'.skipComment 1 s.stop with
      | .ok c'' => next? c''
      | .error stop => some (⟨.error, s.start, stop⟩, ⟨stop, []⟩)
    | .commentClose => some (⟨.error, s.start, s.stop⟩, c')
    | .token t =>
      let next := c'.nextJoined?.map fun (u, _) => RawLexeme.mk u.token [] ⟨u.start, 1, 1⟩
      some (⟨if Lexer.collides t next then .error else t, s.start, s.stop⟩, c')
termination_by c.rest.length
decreasing_by
  · exact shorter_of_nextJoined? _h
  · exact Nat.lt_of_le_of_lt (le_of_skipComment _hc) (shorter_of_nextJoined? _h)

end Cursor

/-- The text between two byte offsets of a source. -/
def sourceSlice (source : List Char) (start stop : Nat) : List Char :=
  (Place.splitAtOffset (stop - start) (Place.splitAtOffset start source).2).1

/-- A source whose tokens are read from the byte `start` on. -/
structure Reader where
  source : List Char
  start : Nat
  cursor : Cursor
  lookahead : List Lexeme
  line : Nat
  lineStart : Nat
  scanned : Nat

/-- What a parser may ask a reader for: a token that comes so many tokens later, or the next one, which is then
read. -/
inductive Call where
  | peek (n : Nat)
  | next
  deriving DecidableEq

namespace Reader

/-- Where the last line of a text begins. -/
def lastLineStart (before : List Char) : Nat :=
  (String.ofList (before.reverse.dropWhile (· ≠ '\n'))).utf8ByteSize

def ofSource (source : List Char) (start line : Nat) : Reader :=
  let (before, rest) := Place.splitAtOffset start source
  { source, start, cursor := ⟨0, rest⟩, lookahead := [], line, lineStart := lastLineStart before, scanned := start }

/-- The line and where it begins after some more text, which is at this offset. -/
def countLines (line lineStart offset : Nat) : List Char → Nat × Nat
  | [] => (line, lineStart)
  | c :: cs =>
    if c = '\n' then countLines (line + 1) (offset + 1) (offset + c.utf8Size) cs
    else countLines line lineStart (offset + c.utf8Size) cs

def advanceLines (r : Reader) (offset : Nat) : Reader :=
  if offset ≤ r.scanned then r
  else
    let (line, lineStart) := countLines r.line r.lineStart r.scanned (sourceSlice r.source r.scanned offset)
    { r with line, lineStart, scanned := offset }

/-- The place of an offset at or after the last token that has been found. -/
def position (r : Reader) (offset : Nat) : Place × Reader :=
  let r := r.advanceLines offset
  (⟨offset, r.line, (sourceSlice r.source r.lineStart offset).length + 1⟩, r)

def pull? (r : Reader) : Option (Lexeme × Reader) :=
  match r.cursor.next? with
  | none => none
  | some (s, cursor) =>
    let start := s.start + r.start
    let stop := s.stop + r.start
    let (place, r) := r.position start
    some (⟨s.token, sourceSlice r.source start stop, place, stop⟩, { r with cursor })

/-- Finds so many more tokens, if there are. -/
def fill : Nat → Reader → Reader
  | 0, r => r
  | n + 1, r =>
    match r.pull? with
    | none => r
    | some (l, r') => fill n { r' with lookahead := r'.lookahead ++ [l] }

def peekNth (n : Nat) (r : Reader) : Option Lexeme × Reader :=
  let r := fill (n + 1 - r.lookahead.length) r
  (r.lookahead[n]?, r)

def next (r : Reader) : Option Lexeme × Reader :=
  match r.lookahead with
  | l :: ls => (some l, { r with lookahead := ls })
  | [] =>
    match r.pull? with
    | none => (none, r)
    | some (l, r') => (some l, r')

def answer (r : Reader) : Call → Option Lexeme × Reader
  | .peek n => r.peekNth n
  | .next => r.next

/-- What the reader answers to some calls, one after the other. -/
def answers (r : Reader) : List Call → List (Option Lexeme)
  | [] => []
  | call :: calls => (r.answer call).1 :: answers (r.answer call).2 calls

end Reader

namespace TokenStream

/-- What the tokens that are left answer to some calls. -/
def answers (s : TokenStream) : List Call → List (Option Lexeme)
  | [] => []
  | .peek n :: calls => s.peekNth n :: answers s calls
  | .next :: calls => s.peek :: answers s.next calls

end TokenStream
end XPath
