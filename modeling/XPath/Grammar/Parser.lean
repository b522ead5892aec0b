import XPath.Token.Lexer
import XPath.CompileUnit
import XPath.StaticContext

/-! Parsers: they read the tokens that are left, keep the compile unit also when they fail, and collect
warnings. -/
namespace XPath

/-- Which grammar is read; it decides the code of syntax errors. -/
inductive GrammarKind where
  | expression | pattern | sequenceType
  deriving DecidableEq, Repr

namespace GrammarKind

def syntaxCode : GrammarKind → ErrorCode
  | expression => .grammar
  | pattern => .invalidPattern
  | sequenceType => .invalidAttribute

end GrammarKind

/-- What has to follow an expression. -/
inductive Terminator where
  | endOfInput
  /-- A right brace, as inside a value template. -/
  | rightBrace
  deriving DecidableEq, Repr

structure ParseContext where
  static : StaticContext
  kind : GrammarKind

structure ParseState where
  tokens : TokenStream
  unit : CompileUnit
  /-- The latest first. -/
  warnings : List Warning
  deriving Inhabited

abbrev Parser := ReaderT ParseContext (ExceptT StaticError (StateM ParseState))

namespace Parser

def static : Parser StaticContext := return (← read).static

def peekLexeme : Parser (Option Lexeme) := return (← get).tokens.peek

def peek : Parser (Option Token) := return (← peekLexeme).map (·.token)

def peekNth (n : Nat) : Parser (Option Token) :=
  return ((← get).tokens.peekNth n).map (·.token)

def check (t : Token) : Parser Bool := return (← peek) == some t

def checkNth (n : Nat) (t : Token) : Parser Bool := return (← peekNth n) == some t

def checkSymbol (s : Symbol) : Parser Bool := check (.symbol s)

def checkNthSymbol (n : Nat) (s : Symbol) : Parser Bool := checkNth n (.symbol s)

/-- Whether the next token is this name, standing alone. -/
def checkName (name : String) : Parser Bool := check (.name name)

def advance : Parser Unit := modify fun s => { s with tokens := s.tokens.next }

def eat (t : Token) : Parser Bool := do
  let found ← check t
  if found then advance
  return found

def eatSymbol (s : Symbol) : Parser Bool := eat (.symbol s)

def eatName (name : String) : Parser Bool := eat (.name name)

/-- The current token, or the end of the source. -/
def currentLocation : Parser Location := do
  let s ← get
  match s.tokens.peek with
  | some l => return ⟨l.place.line, l.place.column, l.place.offset, l.stop⟩
  | none =>
    let e := s.tokens.finish
    return ⟨e.line, e.column, e.offset, e.offset⟩

/-- Records the location of the current token. -/
def location : Parser LocationId := do
  let l ← currentLocation
  modifyGet fun s =>
    let (id, unit) := s.unit.allocateLocation l
    (id, { s with unit })

def fail (code : ErrorCode) (cause : StaticCause) : Parser α := do
  let l ← currentLocation
  throw ⟨code, cause, l.line, l.column, l.start, l.stop⟩

def failAt (code : ErrorCode) (cause : StaticCause) (l : Lexeme) : Parser α :=
  throw ⟨code, cause, l.place.line, l.place.column, l.place.offset, l.stop⟩

def syntaxError (cause : StaticCause) : Parser α := do
  fail (← read).kind.syntaxCode cause

def describeCurrent : Parser String := do
  match ← peekLexeme with
  | none => return "end of input"
  | some l =>
    let text := "'" ++ String.ofList l.text ++ "'"
    return if l.token = .error then "invalid token " ++ text else text

def expected (what : String) : Parser α := do
  syntaxError (.expected what (← describeCurrent))

def expectSymbol (s : Symbol) : Parser Unit := do
  unless ← eatSymbol s do expected ("'" ++ s.spelling ++ "'")

def expectName (name : String) : Parser Unit := do
  unless ← eatName name do expected ("'" ++ name ++ "'")

def expectTerminator : Terminator → Parser Unit
  | .endOfInput => do
    if (← peek).isSome then syntaxError (.unexpected (← describeCurrent))
  | .rightBrace => expectSymbol .rightBrace

def warnAt (message : String) (l : Lexeme) : Parser Unit :=
  modify fun s => { s with warnings := ⟨message, l.place.line, l.place.column⟩ :: s.warnings }

/-- Runs a parser and then changes the unit, also if it failed. -/
def unwinding (g : CompileUnit → CompileUnit) (p : Parser α) : Parser α := do
  let unwind : Parser Unit := modify fun s => { s with unit := g s.unit }
  try
    let a ← p
    unwind
    return a
  catch e =>
    unwind
    throw e

/-- Runs a parser and then drops the variables that it left in scope, also if it failed. -/
def inScope (p : Parser α) : Parser α := do
  let depth := (← get).unit.scope.length
  unwinding (·.restore depth) p

/-- Runs a parser and then drops the innermost variable, also if it failed. -/
def popping (p : Parser α) : Parser α := unwinding (·.pop.2) p

/-- The answer of a parser on a source, the unit as it leaves it and the warnings in order. -/
def run (p : Parser α) (context : StaticContext) (kind : GrammarKind) (source : String)
    (start line : Nat) (unit : CompileUnit) : Except StaticError α × CompileUnit × List Warning :=
  let tokens := TokenStream.ofSource source.toList start line
  let (r, s) := ((p ⟨context, kind⟩).run).run ⟨tokens, unit, []⟩
  (r, s.unit, s.warnings.reverse)

end Parser
end XPath
