import XPath.Number.Decimal

/-! Tokens of the expression grammar. There are no keyword tokens: a keyword is a name whose place
makes it one. -/
namespace XPath

inductive Symbol where
  | bang | notEqual | dollar | leftParen | rightParen | asterisk | asteriskColon | plus | comma
  | minus | dot | dotDot | slash | doubleSlash | colon | colonAsterisk | doubleColon | colonEqual
  | less | precedes | lessEqual | equal | greater | greaterEqual | follows | question | atSign
  | leftBracket | rightBracket | leftBrace | pipe | doublePipe | rightBrace
  deriving DecidableEq, Repr, Inhabited

namespace Symbol

def spelling : Symbol → String
  | bang => "!"
  | notEqual => "!="
  | dollar => "$"
  | leftParen => "("
  | rightParen => ")"
  | asterisk => "*"
  | asteriskColon => "*:"
  | plus => "+"
  | comma => ","
  | minus => "-"
  | dot => "."
  | dotDot => ".."
  | slash => "/"
  | doubleSlash => "//"
  | colon => ":"
  | colonAsterisk => ":*"
  | doubleColon => "::"
  | colonEqual => ":="
  | less => "<"
  | precedes => "<<"
  | lessEqual => "<="
  | equal => "="
  | greater => ">"
  | greaterEqual => ">="
  | follows => ">>"
  | question => "?"
  | atSign => "@"
  | leftBracket => "["
  | rightBracket => "]"
  | leftBrace => "\x7b"
  | pipe => "|"
  | doublePipe => "||"
  | rightBrace => "\x7d"

end Symbol

inductive Token where
  | error
  | integer (value : Nat)
  | decimal (value : Decimal)
  | double (value : Binary)
  | string (value : String)
  | prefixedName (pfx localPart : String)
  | uriName (uri localPart : String)
  /-- Any local part with this prefix: `p:*`. -/
  | anyLocal (pfx : String)
  /-- This local part in any namespace: `*:l`. -/
  | anyNamespace (localPart : String)
  /-- Any local part in this namespace. -/
  | anyInUri (uri : String)
  | name (text : String)
  | bracedUri (uri : String)
  | symbol (s : Symbol)
  deriving DecidableEq, Repr, Inhabited

namespace Token

/-- Two tokens that are not delimiting need something between them. -/
def isDelimiting : Token → Bool
  | string _ | anyNamespace _ | anyInUri _ | bracedUri _ | symbol _ => true
  | _ => false

def isNonDelimiting : Token → Bool
  | integer _ | decimal _ | double _ | name _ | prefixedName .. | uriName .. | anyLocal _ => true
  | _ => false

end Token

/-- A place in a source text: the UTF-8 offset, the line and the column, both counted from one. -/
structure Place where
  offset : Nat
  line : Nat
  column : Nat
  deriving DecidableEq, Repr, Inhabited

namespace Place

/-- The place after a character. -/
def advance (p : Place) (c : Char) : Place :=
  if c = '\n' then ⟨p.offset + c.utf8Size, p.line + 1, 1⟩
  else ⟨p.offset + c.utf8Size, p.line, p.column + 1⟩

/-- The place after some text. -/
def after (p : Place) (cs : List Char) : Place := cs.foldl advance p

end Place

/-- A token with its exact text, where it begins and the offset where it ends. -/
structure Lexeme where
  token : Token
  text : List Char
  place : Place
  stop : Nat
  deriving DecidableEq, Repr, Inhabited

/-- The tokens that are left of a source, and where the source ends. -/
structure TokenStream where
  lexemes : List Lexeme
  finish : Place
  deriving Repr, Inhabited

namespace TokenStream

def peekNth (s : TokenStream) (n : Nat) : Option Lexeme := s.lexemes[n]?

def peek (s : TokenStream) : Option Lexeme := s.lexemes.head?

def next (s : TokenStream) : TokenStream := { s with lexemes := s.lexemes.tail }

end TokenStream
end XPath
