import XPath.Grammar.Parser

/-! Where an embedded expression ends, found by balancing brackets alone, before any name is known. -/
namespace XPath.Scan

/-- The bracket that closes an opening one. -/
def closing? : Token → Option Symbol
  | .symbol .leftParen => some .rightParen
  | .symbol .leftBracket => some .rightBracket
  | .symbol .leftBrace => some .rightBrace
  | _ => none

def isClosing : Token → Bool
  | .symbol .rightParen | .symbol .rightBracket | .symbol .rightBrace => true
  | _ => false

def failAt (cause : StaticCause) (l : Lexeme) : StaticError :=
  ⟨.grammar, cause, l.place.line, l.place.column, l.place.offset, l.stop⟩

/-- The offset of the terminator, or of the end; `awaited` are the brackets that have to close, the
innermost first. -/
def walk (terminator : Terminator) (finish : Place) :
    List Symbol → List Lexeme → Except StaticError Nat
  | awaited, [] =>
    let fail (cause : StaticCause) : Except StaticError Nat :=
      .error ⟨.grammar, cause, finish.line, finish.column, finish.offset, finish.offset⟩
    if !awaited.isEmpty then fail .unclosedBracket
    else if terminator = .endOfInput then .ok finish.offset
    else fail (.expected "'\x7d'" "end of input")
  | awaited, l :: ls =>
    match closing? l.token with
    | some s => walk terminator finish (s :: awaited) ls
    | none =>
      if l.token = .error then .error (failAt (.invalidToken (String.ofList l.text)) l)
      else if !isClosing l.token then walk terminator finish awaited ls
      else match awaited with
        | s :: rest =>
          if l.token = .symbol s then walk terminator finish rest ls
          else .error (failAt (.unbalanced (String.ofList l.text)) l)
        | [] =>
          if l.token = .symbol .rightBrace ∧ terminator = .rightBrace then .ok l.place.offset
          else .error (failAt (.unbalanced (String.ofList l.text)) l)

/-- The end of the expression in a text that starts at a byte offset, where the line is `line`. -/
def scan (text : String) (start : Nat) (terminator : Terminator) (line : Nat) :
    Except StaticError Nat :=
  let s := TokenStream.ofSource text.toList start line
  walk terminator s.finish [] s.lexemes

end XPath.Scan
