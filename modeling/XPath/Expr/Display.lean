import XPath.Expr
import XPath.Number.Shortest
import XPath.Text.Quoted

/-! The text form of an expression: the operator before its operands, in parentheses, with range
variables shown as their slots. -/
namespace XPath

namespace Constant

def display : Constant → String
  | boolean b => if b then "true()" else "false()"
  | integer i => toString i
  | decimal d => d.display
  | double x => x.plain .double ++ "e0"
  | string s => Quoted.encode s

end Constant

namespace NameTest

def display : NameTest → String
  | name n => n.display
  | any => "*"
  | localPart l => "*:" ++ l
  | inNamespace uri => "Q\x7b" ++ uri ++ "\x7d*"

end NameTest

namespace NodeTest

def display : NodeTest → String
  | name t => t.display
  | kind t => t.display

end NodeTest

namespace ArithmeticOp

def spelling : ArithmeticOp → String
  | add => "+"
  | subtract => "-"
  | multiply => "*"
  | divide => "div"
  | integerDivide => "idiv"
  | modulo => "mod"

end ArithmeticOp

namespace ComparisonOp

/-- The spelling between single values. -/
def word : ComparisonOp → String
  | eq => "eq"
  | ne => "ne"
  | lt => "lt"
  | le => "le"
  | gt => "gt"
  | ge => "ge"

/-- The spelling between sequences. -/
def spelling : ComparisonOp → String
  | eq => "="
  | ne => "!="
  | lt => "<"
  | le => "<="
  | gt => ">"
  | ge => ">="

end ComparisonOp

namespace NodeComparisonOp

def spelling : NodeComparisonOp → String
  | is => "is"
  | precedes => "<<"
  | follows => ">>"

end NodeComparisonOp

namespace SetOp

def spelling : SetOp → String
  | union => "union"
  | intersect => "intersect"
  | except => "except"

end SetOp

namespace Expr

def optionalMark (allowsEmpty : Bool) : String := if allowsEmpty then "?" else ""

def displayLeaf : LeafOp → String
  | .literal [c] => c.display
  | .literal cs => "(" ++ ", ".intercalate (cs.map Constant.display) ++ ")"
  | .variable (.range slot) => "$" ++ toString slot
  | .variable (.global n) => "$" ++ n.display
  | .contextItem => "."
  | .root => "/"
  | .step axis test => axis.spelling ++ "::" ++ test.display

/-- What stands before and after a single operand. -/
def displayUnary : UnaryOp → String × String
  | .negate => ("-", "")
  | .plus => ("+", "")
  | .sort => ("sort", "")
  | .reverse => ("reverse", "")
  | .first => ("first", "")
  | .last => ("last", "")
  | .slice min none => ("slice", " " ++ toString min ++ " ..")
  | .slice min (some max) => ("slice", " " ++ toString min ++ " " ++ toString max)
  | .cast t o => ("cast", " xs:" ++ t.localName ++ optionalMark o)
  | .castable t o => ("castable", " xs:" ++ t.localName ++ optionalMark o)
  | .treat t => ("treat", " " ++ t.display)
  | .instanceOf t => ("instance-of", " " ++ t.display)
  | .element n => ("element " ++ n.display, "")
  | .text => ("text", "")

def displayBinary : BinaryOp → String
  | .arithmetic op => op.spelling
  | .valueComparison op => op.word
  | .generalComparison op => op.spelling
  | .nodeComparison op => op.spelling
  | .and => "and"
  | .or => "or"
  | .range => "to"
  | .set op => op.spelling
  | .path => "/"
  | .filter _ => "filter"
  | .itemAt => "item-at"
  | .for slot => "for $" ++ toString slot
  | .let slot => "let $" ++ toString slot
  | .quantified .some slot => "some $" ++ toString slot
  | .quantified .every slot => "every $" ++ toString slot

def displayTernary : TernaryOp → String
  | .if => "if"
  | .indexedFilter => "index"

def displayNary : NaryOp → String
  | .block => ","
  | .call (.builtin f) => f.spelling
  | .call (.unresolved n) => n.display

mutual

def display : Expr → String
  | leaf _ op => displayLeaf op
  | unary _ op a =>
    let (before, after) := displayUnary op
    "(" ++ before ++ " " ++ a.display ++ after ++ ")"
  | binary _ op a b => "(" ++ displayBinary op ++ " " ++ a.display ++ " " ++ b.display ++ ")"
  | ternary _ op a b c =>
    "(" ++ displayTernary op ++ " " ++ a.display ++ " " ++ b.display ++ " " ++ c.display ++ ")"
  | nary _ op args => "(" ++ displayNary op ++ displayList args ++ ")"

/-- Each operand after a space. -/
def displayList : List Expr → String
  | [] => ""
  | e :: es => " " ++ e.display ++ displayList es

end

end Expr
end XPath
