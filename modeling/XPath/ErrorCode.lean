/-! The causes for which a query fails, with their standard codes and fixed texts. -/
namespace XPath

/-- All but the last are errors of the language; a count that does not fit into a machine word breaks the run off. -/
inductive ErrorCode where
  | unsupported | absentStatic | absentDynamic | grammar | typeMismatch | undefinedName
  | unknownFunction | mixedPath | pathOnNonNode | stepOnNonNode | treatMismatch | undefinedType
  | abstractCast | undeclaredPrefix | divisionByZero | overflow | decimalTooLarge | invalidLexical
  | invalidCast | moreThanOne | notExactlyOne | invalidArgument | noContextDocument | raised
  | invalidPattern | invalidAttribute | unknownKey | overrun
  deriving DecidableEq, Repr, Inhabited

namespace ErrorCode

/-- The errors that have a standard code. -/
def all : List ErrorCode :=
  [unsupported, absentStatic, absentDynamic, grammar, typeMismatch, undefinedName, unknownFunction,
    mixedPath, pathOnNonNode, stepOnNonNode, treatMismatch, undefinedType, abstractCast,
    undeclaredPrefix, divisionByZero, overflow, decimalTooLarge, invalidLexical, invalidCast,
    moreThanOne, notExactlyOne, invalidArgument, noContextDocument, raised, invalidPattern,
    invalidAttribute, unknownKey]

def code : ErrorCode → String
  | unsupported => "Unsupported"
  | absentStatic => "XPST0001"
  | absentDynamic => "XPDY0002"
  | grammar => "XPST0003"
  | typeMismatch => "XPTY0004"
  | undefinedName => "XPST0008"
  | unknownFunction => "XPST0017"
  | mixedPath => "XPTY0018"
  | pathOnNonNode => "XPTY0019"
  | stepOnNonNode => "XPTY0020"
  | treatMismatch => "XPDY0050"
  | undefinedType => "XPST0051"
  | abstractCast => "XPST0080"
  | undeclaredPrefix => "XPST0081"
  | divisionByZero => "FOAR0001"
  | overflow => "FOAR0002"
  | decimalTooLarge => "FOCA0001"
  | invalidLexical => "FOCA0002"
  | invalidCast => "FORG0001"
  | moreThanOne => "FORG0003"
  | notExactlyOne => "FORG0005"
  | invalidArgument => "FORG0006"
  | noContextDocument => "FODC0001"
  | raised => "FOER0000"
  | invalidPattern => "XTSE0340"
  | invalidAttribute => "XTSE0020"
  | unknownKey => "XTDE1260"
  | overrun => "panic"

def message : ErrorCode → String
  | unsupported => "Unsupported feature."
  | absentStatic => "Component absent in static context."
  | absentDynamic => "Component absent in dynamic context."
  | grammar => "Parse error."
  | typeMismatch => "Type error."
  | undefinedName => "Name not defined."
  | unknownFunction => "Unknown function."
  | mixedPath => "Inconsistent path result."
  | pathOnNonNode => "Path operator applied to non-nodes."
  | stepOnNonNode => "Context item is not a node in an axis step."
  | treatMismatch => "Treat type does not match."
  | undefinedType => "Undefined type reference."
  | abstractCast => "Cast to an abstract type."
  | undeclaredPrefix => "Undeclared namespace prefix."
  | divisionByZero => "Division by zero."
  | overflow => "Numeric operation overflow or underflow."
  | decimalTooLarge => "Input value too large for decimal."
  | invalidLexical => "Invalid lexical value."
  | invalidCast => "Invalid value for cast or constructor."
  | moreThanOne => "fn:zero-or-one called with a sequence containing more than one item."
  | notExactlyOne => "fn:exactly-one called with a sequence containing zero or more than one\nitem.\n"
  | invalidArgument => "Invalid argument type."
  | noContextDocument => "No context document."
  | raised => "Unidentified error."
  | invalidPattern => "Invalid syntax in a pattern."
  | invalidAttribute => "Invalid attribute value."
  | unknownKey => "Unknown key."
  | overrun => "attempt to add with overflow"

/-- The longer explanation, a line break after each line; empty for some. -/
def note : ErrorCode → String
  | unsupported => "The expression uses a feature this implementation does not support.\n"
  | absentDynamic =>
    "It is a dynamic error if evaluation of an expression relies on some\npart of the dynamic context that is absent.\n"
  | grammar => "It is a static error if an expression is not a valid instance of the\ngrammar.\n"
  | typeMismatch =>
    "An expression has a static or dynamic type that is not appropriate\nfor the context in which it occurs.\n"
  | undefinedName =>
    "The expression refers to a variable name, schema type name or\nnamespace prefix that is not defined in the static context.\n"
  | unknownFunction =>
    "The expanded QName and number of arguments in a function call do not\nmatch the name and arity of any function in the static context.\n"
  | mixedPath => "The result of a path operator contains both nodes and non-nodes.\n"
  | pathOnNonNode => "E1 in a path expression E1/E2 does not evaluate to a sequence of\nnodes.\n"
  | treatMismatch =>
    "The dynamic type of the operand of a treat expression does not match\nthe sequence type.\n"
  | undefinedType =>
    "The type named is not an in-scope atomic type, or the active type\nprofile does not allow it.\n"
  | abstractCast =>
    "The target type of a cast or castable expression is\nxs:anyAtomicType, xs:anySimpleType or xs:NOTATION.\n"
  | invalidArgument =>
    "Also raised when the effective boolean value of a sequence is not\ndefined.\n"
  | raised => "Raised by fn:error.\n"
  | invalidAttribute => "Raised for a malformed sequence type.\n"
  | unknownKey => "The key name is not declared, or no key resolver is available.\n"
  | _ => ""

end ErrorCode
end XPath
