import XPath.Token
import XPath.Text.Blank

/-!
From text to tokens in three steps: raw tokens by longest match, composite names joined where nothing
stands between their parts, and then white space and nested comments dropped and missing separators
found.
-/
namespace XPath

/-- What the first step finds. -/
inductive RawToken where
  | token (t : Token)
  | space
  | commentOpen
  | commentClose
  deriving DecidableEq, Repr, Inhabited

/-- A raw token with its text and place. -/
structure RawLexeme where
  raw : RawToken
  text : List Char
  place : Place
  deriving Repr, Inhabited

namespace RawLexeme

def stop (r : RawLexeme) : Nat := (r.place.after r.text).offset

end RawLexeme

namespace Lexer

def startRanges : List (Nat × Nat) :=
  [(0x41, 0x5a), (0x5f, 0x5f), (0x61, 0x7a), (0xc0, 0xd6), (0xd8, 0xf6), (0xf8, 0x2ff),
    (0x370, 0x37d), (0x37f, 0x1fff), (0x200c, 0x200d), (0x2070, 0x218f), (0x2c00, 0x2fef),
    (0x3001, 0xd7ff), (0xf900, 0xfdfc), (0xfdf0, 0xfffd), (0x10000, 0xeffff)]

def restRanges : List (Nat × Nat) :=
  [(0x2d, 0x2e), (0x30, 0x39), (0xb7, 0xb7), (0x300, 0x36f), (0x203f, 0x2040)]

def within (ranges : List (Nat × Nat)) (c : Char) : Bool :=
  ranges.any fun (lo, hi) => lo ≤ c.toNat && c.toNat ≤ hi

/-- Whether a name can start with the character. -/
def isNameStart (c : Char) : Bool := within startRanges c

/-- Whether the character can stand inside a name. -/
def isNameChar (c : Char) : Bool := isNameStart c || within restRanges c

def digitsValue (ds : List Char) : Nat := ds.foldl (fun n c => n * 10 + (c.toNat - '0'.toNat)) 0

/-- The exponent part of a number at the start of the text: its value and length, if complete. -/
def exponent? : List Char → Option (Int × Nat)
  | e :: rest =>
    if e = 'e' ∨ e = 'E' then
      let (negative, signs, rest) := match rest with
        | '-' :: r => (true, 1, r)
        | '+' :: r => (false, 1, r)
        | r => (false, 0, r)
      let ds := rest.takeWhile Char.isDigit
      if ds.isEmpty then none
      else
        let n : Int := digitsValue ds
        some (if negative then -n else n, 1 + signs + ds.length)
    else none
  | [] => none

/-- A number at the start of the text, and its length. An exponent makes a double, else a point makes a
decimal, which must fit. -/
def number (cs : List Char) : Token × Nat :=
  let whole := cs.takeWhile Char.isDigit
  let rest := cs.drop whole.length
  let (point, fraction) := match rest with
    | '.' :: r => (1, r.takeWhile Char.isDigit)
    | _ => (0, [])
  let length := whole.length + point + fraction.length
  match exponent? (cs.drop length) with
  | some (e, n) =>
    (.double (Binary.ofScientific .double false (digitsValue (whole ++ fraction))
      (e - fraction.length)), length + n)
  | none =>
    if point = 0 then (.integer (digitsValue whole), length)
    else match Decimal.parse? (String.ofList (cs.take length)) with
      | some d => (.decimal d, length)
      | none => (.error, length)

/-- The text of a string literal after its opening quote: the value, in which a doubled quote counts
once, and the length with the closing quote; none if the literal is not closed. -/
def stringBody (quote : Char) : List Char → Option (List Char × Nat)
  | [] => none
  | [c] => if c = quote then some ([], 1) else none
  | c :: d :: rest =>
    if c = quote then
      if d = quote then (stringBody quote rest).map fun (v, n) => (quote :: v, n + 2)
      else some ([], 1)
    else (stringBody quote (d :: rest)).map fun (v, n) => (c :: v, n + 1)

/-- The symbol or comment mark at the start of the text, the longest there is. -/
def symbol? : List Char → Option (RawToken × Nat)
  | '(' :: ':' :: _ => some (.commentOpen, 2)
  | ':' :: ')' :: _ => some (.commentClose, 2)
  | '!' :: '=' :: _ => some (.token (.symbol .notEqual), 2)
  | '*' :: ':' :: _ => some (.token (.symbol .asteriskColon), 2)
  | '.' :: '.' :: _ => some (.token (.symbol .dotDot), 2)
  | '/' :: '/' :: _ => some (.token (.symbol .doubleSlash), 2)
  | ':' :: '*' :: _ => some (.token (.symbol .colonAsterisk), 2)
  | ':' :: ':' :: _ => some (.token (.symbol .doubleColon), 2)
  | ':' :: '=' :: _ => some (.token (.symbol .colonEqual), 2)
  | '<' :: '<' :: _ => some (.token (.symbol .precedes), 2)
  | '<' :: '=' :: _ => some (.token (.symbol .lessEqual), 2)
  | '>' :: '=' :: _ => some (.token (.symbol .greaterEqual), 2)
  | '>' :: '>' :: _ => some (.token (.symbol .follows), 2)
  | '|' :: '|' :: _ => some (.token (.symbol .doublePipe), 2)
  | '!' :: _ => some (.token (.symbol .bang), 1)
  | '$' :: _ => some (.token (.symbol .dollar), 1)
  | '(' :: _ => some (.token (.symbol .leftParen), 1)
  | ')' :: _ => some (.token (.symbol .rightParen), 1)
  | '*' :: _ => some (.token (.symbol .asterisk), 1)
  | '+' :: _ => some (.token (.symbol .plus), 1)
  | ',' :: _ => some (.token (.symbol .comma), 1)
  | '-' :: _ => some (.token (.symbol .minus), 1)
  | '.' :: _ => some (.token (.symbol .dot), 1)
  | '/' :: _ => some (.token (.symbol .slash), 1)
  | ':' :: _ => some (.token (.symbol .colon), 1)
  | '<' :: _ => some (.token (.symbol .less), 1)
  | '=' :: _ => some (.token (.symbol .equal), 1)
  | '>' :: _ => some (.token (.symbol .greater), 1)
  | '?' :: _ => some (.token (.symbol .question), 1)
  | '@' :: _ => some (.token (.symbol .atSign), 1)
  | '[' :: _ => some (.token (.symbol .leftBracket), 1)
  | ']' :: _ => some (.token (.symbol .rightBracket), 1)
  | '\x7b' :: _ => some (.token (.symbol .leftBrace), 1)
  | '|' :: _ => some (.token (.symbol .pipe), 1)
  | '\x7d' :: _ => some (.token (.symbol .rightBrace), 1)
  | _ => none

/-- A braced URI after its opening, and the length with the closing brace. Without one, the text up to
the offending character is an error. -/
def bracedUri (cs : List Char) : Token × Nat :=
  let uri := cs.takeWhile fun c => c ≠ '\x7b' ∧ c ≠ '\x7d'
  if (cs.drop uri.length).head? = some '\x7d' then (.bracedUri (String.ofList uri), uri.length + 1)
  else (.error, uri.length)

/-- The raw token at the start of a text that is not empty, and its length. What starts no token is an
error of one character; a string that is not closed is an error to the end of the text. -/
def rawToken (c : Char) (cs : List Char) : RawToken × Nat :=
  if Blank.isSpace c then (.space, 1 + (cs.takeWhile Blank.isSpace).length)
  else if c.isDigit || (c = '.' && cs.head?.any Char.isDigit) then
    let (t, n) := number (c :: cs)
    (.token t, n)
  else if c = '"' || c = '\'' then
    match stringBody c cs with
    | some (v, n) => (.token (.string (String.ofList v)), n + 1)
    | none => (.token .error, cs.length + 1)
  else if c = 'Q' && cs.head? = some '\x7b' then
    let (t, n) := bracedUri (cs.drop 1)
    (.token t, n + 2)
  else if isNameStart c then
    let rest := cs.takeWhile isNameChar
    (.token (.name (String.ofList (c :: rest))), rest.length + 1)
  else (symbol? (c :: cs)).getD (.token .error, 1)

/-- All raw tokens of a text that begins at the place. -/
def rawLexemes (place : Place) : List Char → List RawLexeme
  | [] => []
  | c :: cs =>
    let (raw, n) := rawToken c cs
    let text := c :: cs.take (n - 1)
    ⟨raw, text, place⟩ :: rawLexemes (place.after text) (cs.drop (n - 1))
termination_by cs => cs.length
decreasing_by simp only [List.length_drop, List.length_cons]; omega

/-- Joins the parts of a name that directly follow each other. -/
def joinNames : List RawLexeme → List RawLexeme
  | ⟨.token (.name p), t, at₁⟩ :: ⟨.token (.symbol .colon), u, _⟩ :: ⟨.token (.name l), v, _⟩ :: rest =>
    ⟨.token (.prefixedName p l), t ++ u ++ v, at₁⟩ :: joinNames rest
  | ⟨.token (.name p), t, at₁⟩ :: ⟨.token (.symbol .colonAsterisk), u, _⟩ :: rest =>
    ⟨.token (.anyLocal p), t ++ u, at₁⟩ :: joinNames rest
  | ⟨.token (.symbol .asteriskColon), t, at₁⟩ :: ⟨.token (.name l), u, _⟩ :: rest =>
    ⟨.token (.anyNamespace l), t ++ u, at₁⟩ :: joinNames rest
  | ⟨.token (.bracedUri uri), t, at₁⟩ :: ⟨.token (.name l), u, _⟩ :: rest =>
    ⟨.token (.uriName uri l), t ++ u, at₁⟩ :: joinNames rest
  | ⟨.token (.bracedUri uri), t, at₁⟩ :: ⟨.token (.symbol .asterisk), u, _⟩ :: rest =>
    ⟨.token (.anyInUri uri), t ++ u, at₁⟩ :: joinNames rest
  | r :: rest => r :: joinNames rest
  | [] => []

/-- Whether a token must not be directly followed by the next one. -/
def collides (t : Token) (next : Option RawLexeme) : Bool :=
  match next with
  | some ⟨.token u, _, _⟩ =>
    (t.isNonDelimiting && u.isNonDelimiting) ||
      (u == .symbol .dot && match t with
        | .decimal _ | .double _ => true
        | _ => false)
  | _ => false

/-- A comment that is still open: how many more are open around it, its text so far and its place. -/
structure OpenComment where
  depth : Nat
  text : List Char
  place : Place

/-- Drops white space and comments. A comment that is never closed, the end of a comment that was not
opened, and a token that collides with the next one are errors. -/
def delimit : Option OpenComment → List RawLexeme → List Lexeme
  | none, [] => []
  | some o, [] => [⟨.error, o.text, o.place, (o.place.after o.text).offset⟩]
  | some o, r :: rest =>
    let text := o.text ++ r.text
    match r.raw with
    | .commentOpen => delimit (some ⟨o.depth + 1, text, o.place⟩) rest
    | .commentClose =>
      match o.depth with
      | 0 => delimit none rest
      | d + 1 => delimit (some ⟨d, text, o.place⟩) rest
    | _ => delimit (some { o with text }) rest
  | none, r :: rest =>
    match r.raw with
    | .space => delimit none rest
    | .commentOpen => delimit (some ⟨0, r.text, r.place⟩) rest
    | .commentClose => ⟨.error, r.text, r.place, r.stop⟩ :: delimit none rest
    | .token t =>
      ⟨if collides t rest.head? then .error else t, r.text, r.place, r.stop⟩ :: delimit none rest

end Lexer

namespace Place

/-- Splits a text at a byte offset. -/
def splitAtOffset : Nat → List Char → List Char × List Char
  | _, [] => ([], [])
  | n, c :: cs =>
    if n = 0 then ([], c :: cs)
    else
      let (a, b) := splitAtOffset (n - c.utf8Size) cs
      (c :: a, b)

/-- The place at the end of the text that comes before a source's first line is counted: lines start
at `line`, columns count from the last line break. -/
def start (before : List Char) (line : Nat) : Place :=
  { (Place.mk 0 1 1).after before with line }

end Place

namespace TokenStream

/-- The tokens of `source` from a byte offset on, where the line is `line`. -/
def ofSource (source : List Char) (start line : Nat) : TokenStream :=
  let (before, rest) := Place.splitAtOffset start source
  let place := Place.start before line
  ⟨Lexer.delimit none (Lexer.joinNames (Lexer.rawLexemes place rest)), place.after rest⟩

end TokenStream
end XPath
