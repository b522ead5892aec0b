import XPath.Grammar.Parser
import XPath.Expr

/-! Names, kind tests and sequence types. -/
namespace XPath

/-- Where an unprefixed name belongs. -/
inductive NameDefault where
  /-- Elements and types: the default element namespace. -/
  | element
  | function
  /-- Variables and attributes: no namespace. -/
  | none
  deriving DecidableEq, Repr

namespace Token

/-- Whether the token is a name with no wildcard. -/
def isQName : Token → Bool
  | name _ | prefixedName .. | uriName .. => true
  | _ => false

end Token

namespace Parser

def checkQName : Parser Bool := return (← peek).any Token.isQName

def checkNthQName (n : Nat) : Parser Bool := return (← peekNth n).any Token.isQName

/-- The namespace of a declared prefix. -/
def resolvePrefix (pfx : String) (l : Lexeme) : Parser String := do
  match (← static).namespaces.lookup pfx with
  | some uri => return uri
  | none => failAt .undeclaredPrefix (.undeclaredPrefix pfx) l

/-- A name, resolved, and its token. -/
def qname (default : NameDefault) : Parser (QName × Lexeme) := do
  let some l ← peekLexeme | expected "a name"
  let ns := (← static).namespaces
  match l.token with
  | .name s =>
    advance
    let uri := match default with
      | .element => ns.element
      | .function => ns.function
      | .none => Option.none
    return ((QName.unprefixed s).withDefault uri, l)
  | .prefixedName p s =>
    advance
    return (⟨⟨s, some (← resolvePrefix p l)⟩, some p⟩, l)
  | .uriName u s =>
    advance
    return (.uriQualified u s, l)
  | _ => expected "a name"

/-- A built-in type that the profile admits. -/
def resolveBuiltinType (n : QName) (l : Lexeme) : Parser AtomicType := do
  match AtomicType.ofName? n.toName with
  | none => failAt .undefinedType (.undefinedType n) l
  | some t =>
    if (← static).profile.allows t then return t
    else failAt .undefinedType (.notInProfile n) l

/-- The type of a name: a built-in one, a type of foreign objects, or one of an imported schema. -/
def resolveAtomicType (n : QName) (l : Lexeme) : Parser ItemType := do
  match n.uri with
  | none => failAt .undefinedType (.undefinedType n) l
  | some uri =>
    if uri = Namespaces.schema then
      let t ← resolveBuiltinType n l
      if t.isAtomic then return .atomic t else failAt .undefinedType (.notAtomic n) l
    else if uri = Namespaces.foreign then return .foreign n.localPart
    else if (← static).schemas.contains uri then return .imported n
    else failAt .undefinedType (.schemaNotImported n) l

/-- The target of a cast, which is a built-in type that has values of its own. -/
def resolveCastTarget (n : QName) (l : Lexeme) : Parser AtomicType := do
  if n.uri = some Namespaces.schema then
    let t ← resolveBuiltinType n l
    if t.isAbstract then failAt .abstractCast (.abstractTarget n) l
    else if !t.isAtomic then failAt .undefinedType (.notAtomic n) l
    else return t
  else
    let _ ← resolveAtomicType n l
    failAt .unsupported (.unsupportedTarget n) l

def kindTestNames : List String :=
  ["document-node", "element", "attribute", "schema-element", "schema-attribute",
    "processing-instruction", "comment", "text", "namespace-node", "node"]

/-- A kind test is one of the reserved names directly before a parenthesis. -/
def checkKindTest : Parser Bool := do
  match ← peek with
  | some (.name s) => return kindTestNames.contains s && (← checkNthSymbol 1 .leftParen)
  | _ => return false

/-- The arguments of an element or attribute test, up to the closing parenthesis. -/
def nameAndType (default : NameDefault) : Parser NameAndType := do
  if ← checkSymbol .rightParen then return {}
  let name ← if ← eatSymbol .asterisk then pure none else pure (some (← qname default).1)
  if ← eatSymbol .comma then
    let (typeName, _) ← qname .element
    let _ ← eatSymbol .question
    return { name, typeName := some typeName }
  return { name }

def processingInstructionTarget : Parser (Option String) := do
  match ← peek with
  | some (.name s) =>
    advance
    return some s
  | some (.string s) =>
    advance
    return some (String.ofList (Blank.trim s.toList))
  | _ => return none

def kindTest : Parser KindTest := do
  let some l ← peekLexeme | expected "a kind test"
  advance
  let kind := String.ofList l.text
  expectSymbol .leftParen
  let test ← match kind with
    | "node" => pure .anyNode
    | "text" => pure .text
    | "comment" => pure .comment
    | "namespace-node" => pure .namespaceNode
    | "element" => KindTest.element <$> nameAndType .element
    | "attribute" => KindTest.attr <$> nameAndType .none
    | "document-node" =>
      if ← eatName "element" then
        expectSymbol .leftParen
        let t ← nameAndType .element
        expectSymbol .rightParen
        pure (.document (some t))
      else pure (.document none)
    | "processing-instruction" => KindTest.processingInstruction <$> processingInstructionTarget
    | _ => failAt .unsupported (.schemaTest kind) l
  expectSymbol .rightParen
  return test

def itemType : Parser ItemType := do
  if ← checkKindTest then return .node (← kindTest)
  if (← checkName "item") && (← checkNthSymbol 1 .leftParen) then
    advance
    advance
    expectSymbol .rightParen
    return .item
  unless ← checkQName do expected "a sequence type"
  if ← checkNthSymbol 1 .leftParen then fail .unsupported .unsupportedType
  let (n, l) ← qname .element
  resolveAtomicType n l

/-- An occurrence mark directly after the item type always belongs to it. -/
def occurrence : Parser Cardinality := do
  if ← eatSymbol .question then return .zeroOrOne
  if ← eatSymbol .asterisk then return .zeroOrMore
  if ← eatSymbol .plus then return .oneOrMore
  return .one

def sequenceType : Parser SequenceType := do
  if (← checkName "empty-sequence") && (← checkNthSymbol 1 .leftParen) then
    advance
    advance
    expectSymbol .rightParen
    return .empty
  let t ← itemType
  return ⟨t, ← occurrence⟩

/-- An atomic type that can be cast to, and whether the empty sequence is let through. -/
def singleType : Parser (AtomicType × Bool) := do
  let (n, l) ← qname .element
  let t ← resolveCastTarget n l
  return (t, ← eatSymbol .question)

end Parser

namespace SequenceType

/-- Reads a sequence type such as `element(a)?`. -/
def parse (text : String) (context : StaticContext) : Except StaticError SequenceType :=
  let p : Parser SequenceType := do
    let t ← Parser.sequenceType
    Parser.expectTerminator .endOfInput
    return t
  (p.run context .sequenceType text 0 1 {}).1

end SequenceType
end XPath
