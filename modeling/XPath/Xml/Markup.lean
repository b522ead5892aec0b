import XPath.Text.Blank

/-!
Markup: an XML text as the tags, texts, comments and instructions that it is written with. Where they may
stand, and which tags belong together, is left to the reader of documents.
-/
namespace XPath

/-- A name in a tag, with its prefix or the empty one. -/
structure TagName where
  pfx : String
  localPart : String
  deriving DecidableEq, Repr, Inhabited

inductive Markup where
  /-- A start tag; an empty one is closed by itself. Attribute values are as written. -/
  | opening (name : TagName) (attributes : List (TagName × List Char)) (empty : Bool)
  | closing (name : TagName)
  /-- Text as written, or the inside of a CDATA section. -/
  | text (s : List Char) (raw : Bool)
  | comment (s : List Char)
  | instruction (target : String) (data : List Char)
  deriving Repr, Inhabited

namespace Markup

def startRanges : List (Nat × Nat) :=
  [(0x41, 0x5a), (0x5f, 0x5f), (0x61, 0x7a), (0xc0, 0xd6), (0xd8, 0xf6), (0xf8, 0x2ff),
    (0x370, 0x37d), (0x37f, 0x1fff), (0x200c, 0x200d), (0x2070, 0x218f), (0x2c00, 0x2fef),
    (0x3001, 0xd7ff), (0xf900, 0xfdcf), (0xfdf0, 0xfffd), (0x10000, 0xeffff)]

def restRanges : List (Nat × Nat) :=
  [(0x2d, 0x2e), (0x30, 0x39), (0xb7, 0xb7), (0x300, 0x36f), (0x203f, 0x2040)]

def within (ranges : List (Nat × Nat)) (c : Char) : Bool :=
  ranges.any fun (lo, hi) => lo ≤ c.toNat && c.toNat ≤ hi

/-- Whether a name without a colon can start with the character. -/
def isNameStart (c : Char) : Bool := within startRanges c

def isNameChar (c : Char) : Bool := isNameStart c || within restRanges c

/-- The characters that an XML document may hold. -/
def isAllowed (c : Char) : Bool :=
  let n := c.toNat
  n = 9 || n = 10 || n = 13 || (0x20 ≤ n && n != 0xfffe && n != 0xffff)

def skipSpace (cs : List Char) : List Char := cs.dropWhile Blank.isSpace

/-- The rest of a text after what it has to start with. -/
def expect? (s : String) (cs : List Char) : Option (List Char) :=
  if s.toList.isPrefixOf cs then some (cs.drop s.length) else none

/-- The characters before the first place where the text goes on as given, and what follows it. -/
def until? (stop : List Char) : List Char → Option (List Char × List Char)
  | [] => none
  | c :: cs =>
    if stop.isPrefixOf (c :: cs) then some ([], (c :: cs).drop stop.length)
    else if isAllowed c then (until? stop cs).map fun (s, rest) => (c :: s, rest)
    else none

/-- A part of a tag name, which starts as a name has to. -/
def isPart (cs : List Char) : Bool :=
  match cs with
  | c :: _ => isNameStart c
  | [] => false

/-- A name with at most one colon. The prefix before the colon may be missing. -/
def tagName? (cs : List Char) : Option (TagName × List Char) :=
  let word := cs.takeWhile fun c => isNameChar c || c = ':'
  let rest := cs.dropWhile fun c => isNameChar c || c = ':'
  let first := word.takeWhile (· != ':')
  match word.dropWhile (· != ':') with
  | [] => if isPart first then some (⟨"", String.ofList first⟩, rest) else none
  | _ :: second =>
    if (first.isEmpty || isPart first) && isPart second && !second.contains ':' then
      some (⟨String.ofList first, String.ofList second⟩, rest)
    else none

/-- A quoted value, which holds no less-than sign. -/
def quoted? : List Char → Option (List Char × List Char)
  | q :: cs =>
    if q = '"' ∨ q = '\'' then do
      let (value, rest) ← until? [q] cs
      if value.contains '<' then none else return (value, rest)
    else none
  | [] => none

/-- An equals sign with space around it. -/
def equals? (cs : List Char) : Option (List Char) := do
  let rest ← expect? "=" (skipSpace cs)
  return skipSpace rest

/-- The attributes of a start tag and whether the tag is empty. Each takes space before it. -/
def attributes? : Nat → List Char → Option (List (TagName × List Char) × Bool × List Char)
  | 0, _ => none
  | n + 1, cs =>
    match skipSpace cs with
    | '>' :: rest => some ([], false, rest)
    | '/' :: '>' :: rest => some ([], true, rest)
    | rest =>
      if cs.head?.any Blank.isSpace then do
        let (name, rest) ← tagName? rest
        let (value, rest) ← quoted? (← equals? rest)
        let (more, empty, rest) ← attributes? n rest
        return ((name, value) :: more, empty, rest)
      else none

def opening? (cs : List Char) : Option (Markup × List Char) := do
  let (name, rest) ← tagName? cs
  let (attributes, empty, rest) ← attributes? (rest.length + 1) rest
  return (.opening name attributes empty, rest)

def closing? (cs : List Char) : Option (Markup × List Char) := do
  let (name, rest) ← tagName? cs
  let rest ← expect? ">" (skipSpace rest)
  return (.closing name, rest)

/-- Whether two hyphens stand next to each other. -/
def hasDoubleHyphen : List Char → Bool
  | '-' :: '-' :: _ => true
  | _ :: cs => hasDoubleHyphen cs
  | [] => false

def comment? (cs : List Char) : Option (Markup × List Char) := do
  let (s, rest) ← until? ['-', '-', '>'] cs
  if hasDoubleHyphen s || s.getLast? = some '-' then none else return (.comment s, rest)

def instruction? (cs : List Char) : Option (Markup × List Char) := do
  let isTarget := fun c => isNameChar c || c = ':'
  let target := cs.takeWhile isTarget
  let (data, rest) ← until? ['?', '>'] (skipSpace (cs.dropWhile isTarget))
  if target.head?.any fun c => isNameStart c || c = ':' then
    return (.instruction (String.ofList target) data, rest)
  else none

def hasSectionEnd : List Char → Bool
  | ']' :: ']' :: '>' :: _ => true
  | _ :: cs => hasSectionEnd cs
  | [] => false

def text? (cs : List Char) : Option (Markup × List Char) :=
  let s := cs.takeWhile (· != '<')
  if s.all isAllowed && !hasSectionEnd s then some (.text s false, cs.dropWhile (· != '<')) else none

/-- The next piece of markup of a text that is not empty. -/
def next? (cs : List Char) : Option (Markup × List Char) :=
  match cs with
  | '<' :: '!' :: '-' :: '-' :: rest => comment? rest
  | '<' :: '!' :: rest => do
    let (s, rest) ← until? [']', ']', '>'] (← expect? "[CDATA[" rest)
    return (.text s true, rest)
  | '<' :: '?' :: rest => if (expect? "xml " rest).isSome then none else instruction? rest
  | '<' :: '/' :: rest => closing? rest
  | '<' :: rest => opening? rest
  | _ => text? cs

/-- All markup of a text. Every piece has a character, so the length is fuel enough. -/
def all? : Nat → List Char → Option (List Markup)
  | _, [] => some []
  | 0, _ => none
  | n + 1, cs => do
    let (m, rest) ← next? cs
    return m :: (← all? n rest)

/-- An optional part of the XML declaration with the values that it accepts. -/
def declared? (name : String) (accepts : List Char → Bool) (needed : Bool) (cs : List Char) :
    Option (List Char) :=
  match expect? name (skipSpace cs) with
  | none => if needed then none else some cs
  | some rest => do
    let (value, rest) ← quoted? (← equals? rest)
    let spaced := rest.head?.any Blank.isSpace || "?>".toList.isPrefixOf rest
    if accepts value && spaced then return rest else none

def isEncoding (cs : List Char) : Bool :=
  cs.all fun c => c.isAlphanum || c = '.' || c = '-' || c = '_'

/-- What follows the XML declaration, if the text starts with one: of version 1.0, and standalone if it
says anything of that. -/
def afterDeclaration? (cs : List Char) : Option (List Char) :=
  match expect? "<?xml " cs with
  | none => some cs
  | some rest => do
    let rest ← declared? "version" (· == "1.0".toList) true rest
    let rest ← declared? "encoding" isEncoding false rest
    let rest ← declared? "standalone" (· == "yes".toList) false rest
    expect? "?>" (skipSpace rest)

/-- The markup of a whole text, without a byte order mark and the XML declaration. -/
def ofText? (text : String) : Option (List Markup) := do
  let cs := match text.toList with
    | c :: cs => if c.toNat = 0xfeff then cs else c :: cs
    | [] => []
  let rest ← afterDeclaration? cs
  all? rest.length rest

end Markup
end XPath
