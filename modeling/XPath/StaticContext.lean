import XPath.Function
import XPath.ErrorCode

/-! What is known when a query is compiled, and the errors and warnings that compiling gives. -/
namespace XPath

structure OptimizerConfig where
  optimize : Bool := true
  /-- Move subexpressions that do not change out of loops. -/
  hoist : Bool := true
  /-- Answer equality filters through an index. -/
  index : Bool := true
  deriving DecidableEq, Repr, Inhabited

namespace OptimizerConfig

def disabled : OptimizerConfig := ⟨false, false, false⟩

end OptimizerConfig

structure StaticContext where
  namespaces : Namespaces := {}
  /-- Declared variables, the latest first, with their types if they have one. -/
  globals : List (Name × Option SequenceType) := []
  schemas : List String := []
  profile : Profile := .full
  /-- Calls to unknown functions compile, and fail when they are evaluated. -/
  backwardsCompatible : Bool := false
  optimizer : OptimizerConfig := {}
  deriving Repr

namespace StaticContext

/-- None if the variable is not declared. -/
def variableType (c : StaticContext) (n : QName) : Option (Option SequenceType) :=
  c.globals.lookup n.toName

end StaticContext

/-- A message that does not change what is compiled. -/
structure Warning where
  message : String
  line : Nat
  column : Nat
  deriving DecidableEq, Repr, Inhabited

/-- Why a query does not compile. -/
inductive StaticCause where
  | expected (what found : String)
  | unexpected (found : String)
  | invalidToken (text : String)
  | unbalanced (text : String)
  | unclosedBracket
  | loneBrace
  | nestedTooDeeply
  | undeclaredVariable (name : QName)
  | undeclaredPrefix (pfx : String)
  | unknownFunction (name : QName) (arity : Nat)
  | undefinedType (name : QName)
  | schemaNotImported (name : QName)
  | notInProfile (name : QName)
  | notAtomic (name : QName)
  | abstractTarget (name : QName)
  | unsupportedTarget (name : QName)
  | unsupportedType
  | schemaTest (kind : String)
  | axisNotInPattern (axis : String)
  | bindingMismatch (name : String) (declared found : SequenceType)
  | arithmeticOn (found : ItemType)
  | neverBecomes (found : ItemType) (target : AtomicType)
  | neverCast (found : ItemType) (target : AtomicType)
  | castOfEmpty (target : AtomicType)
  | neverTreated (found required : SequenceType)
  | notNodes (found : ItemType)
  | argumentMismatch (function : Builtin) (found required : SequenceType)
  deriving DecidableEq, Repr, Inhabited

namespace StaticCause

def text : StaticCause → String
  | expected what found => "expected " ++ what ++ ", found " ++ found
  | unexpected found => "unexpected " ++ found
  | invalidToken text => "invalid token '" ++ text ++ "'"
  | unbalanced text => "unbalanced '" ++ text ++ "'"
  | unclosedBracket => "unclosed bracket at end of input"
  | loneBrace => "'\x7d' must be written as '\x7d\x7d' in a value template"
  | nestedTooDeeply => "expression nested too deeply"
  | undeclaredVariable n => "variable $" ++ n.display ++ " is not declared"
  | undeclaredPrefix p => "namespace prefix '" ++ p ++ "' is not declared"
  | unknownFunction n arity => "unknown function " ++ n.display ++ "#" ++ toString arity
  | undefinedType n => "type " ++ n.display ++ " is not defined"
  | schemaNotImported n =>
    "type " ++ n.display ++ " is not defined; its schema has not been imported"
  | notInProfile n => "type " ++ n.display ++ " is not available in this type profile"
  | notAtomic n => n.display ++ " is not an atomic type"
  | abstractTarget n => "cannot cast to abstract type " ++ n.display
  | unsupportedTarget n => "cannot cast to " ++ n.display
  | unsupportedType => "function, map and array types are not supported"
  | schemaTest kind => kind ++ "() tests need schema awareness"
  | axisNotInPattern axis => "axis " ++ axis ++ " is not allowed in a pattern"
  | bindingMismatch v declared found =>
    "$" ++ v ++ " is declared as " ++ declared.display ++ " but is bound to " ++ found.display
  | arithmeticOn found => "arithmetic on " ++ found.display
  | neverBecomes found target => found.display ++ " can never become xs:" ++ target.localName
  | neverCast found target => found.display ++ " can never be cast to xs:" ++ target.localName
  | castOfEmpty target => "cast to xs:" ++ target.localName ++ " of an empty sequence"
  | neverTreated found required =>
    found.display ++ " can never be treated as " ++ required.display
  | notNodes found => "expected nodes, found " ++ found.display
  | argumentMismatch f found required =>
    "argument of " ++ f.spelling ++ "() is " ++ found.display ++ ", expected " ++ required.display

end StaticCause

/-- An error found before evaluation: a syntax error, a name that is not known, or a type that can
never be what is asked for. -/
structure StaticError where
  code : ErrorCode
  cause : StaticCause
  line : Nat
  column : Nat
  start : Nat
  stop : Nat
  deriving DecidableEq, Repr, Inhabited

namespace StaticError

def message (e : StaticError) : String :=
  e.code.code ++ ": " ++ e.cause.text ++ " (line " ++ toString e.line ++ ", column "
    ++ toString e.column ++ ")"

end StaticError
end XPath
