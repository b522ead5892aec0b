import XPath.SequenceType

/-! The built-in functions: their names, the arguments they take and what is known of their results. -/
namespace XPath

/-- The parts of the dynamic context that an expression reads without setting them itself. -/
structure Dependencies where
  item : Bool := false
  position : Bool := false
  last : Bool := false
  group : Bool := false
  matched : Bool := false
  deriving DecidableEq, Repr, Inhabited

namespace Dependencies

def union (a b : Dependencies) : Dependencies :=
  ⟨a.item || b.item, a.position || b.position, a.last || b.last, a.group || b.group,
    a.matched || b.matched⟩

instance : Union Dependencies := ⟨union⟩

/-- The context item, its position and the number of items. -/
def focus (d : Dependencies) : Bool := d.item || d.position || d.last

def withoutFocus (d : Dependencies) : Dependencies :=
  { d with item := false, position := false, last := false }

def bits (d : Dependencies) : Nat :=
  d.item.toNat + 2 * d.position.toNat + 4 * d.last.toNat + 8 * d.group.toNat + 16 * d.matched.toNat

end Dependencies

inductive Builtin where
  | true | false | not | boolean | position | last | count | empty | exists | string | data | number
  | sum | avg | min | max | concat | stringLength | contains | startsWith | endsWith | stringJoin
  | substring | upperCase | lowerCase | normalizeSpace | name | localName | root | subsequence
  | reverse | distinctValues | head | tail | exactlyOne | zeroOrOne | id | key | currentGroup
  | regexGroup | error
  deriving DecidableEq, Repr, Inhabited

/-- What is known of a function at one number of arguments. -/
structure Signature where
  params : List SequenceType
  result : SequenceType
  dependencies : Dependencies
  /-- The items of the result are items of the first argument. -/
  preservesItemType : Bool
  deriving DecidableEq, Repr, Inhabited

namespace Builtin

def all : List Builtin :=
  [.true, .false, not, boolean, position, last, count, empty, .exists, string, data, number, sum, avg,
    min, max, concat, stringLength, contains, startsWith, endsWith, stringJoin, substring, upperCase,
    lowerCase, normalizeSpace, name, localName, root, subsequence, reverse, distinctValues, head, tail,
    exactlyOne, zeroOrOne, id, key, currentGroup, regexGroup, error]

def spelling : Builtin → String
  | .true => "true"
  | .false => "false"
  | not => "not"
  | boolean => "boolean"
  | position => "position"
  | last => "last"
  | count => "count"
  | empty => "empty"
  | .exists => "exists"
  | string => "string"
  | data => "data"
  | number => "number"
  | sum => "sum"
  | avg => "avg"
  | min => "min"
  | max => "max"
  | concat => "concat"
  | stringLength => "string-length"
  | contains => "contains"
  | startsWith => "starts-with"
  | endsWith => "ends-with"
  | stringJoin => "string-join"
  | substring => "substring"
  | upperCase => "upper-case"
  | lowerCase => "lower-case"
  | normalizeSpace => "normalize-space"
  | name => "name"
  | localName => "local-name"
  | root => "root"
  | subsequence => "subsequence"
  | reverse => "reverse"
  | distinctValues => "distinct-values"
  | head => "head"
  | tail => "tail"
  | exactlyOne => "exactly-one"
  | zeroOrOne => "zero-or-one"
  | id => "id"
  | key => "key"
  | currentGroup => "current-group"
  | regexGroup => "regex-group"
  | error => "error"

/-- The least and the greatest number of arguments; no greatest means any number. -/
def arity : Builtin → Nat × Option Nat
  | .true | .false | position | last | currentGroup => (0, some 0)
  | not | boolean | count | empty | .exists | avg | min | max | upperCase | lowerCase | reverse
  | distinctValues | head | tail | exactlyOne | zeroOrOne | regexGroup => (1, some 1)
  | string | data | number | stringLength | normalizeSpace | name | localName | root => (0, some 1)
  | sum | stringJoin | id => (1, some 2)
  | contains | startsWith | endsWith => (2, some 2)
  | substring | subsequence | key => (2, some 3)
  | concat => (2, none)
  | error => (0, some 2)

def accepts (f : Builtin) (n : Nat) : Bool := f.arity.1 ≤ n && f.arity.2.all (n ≤ ·)

def lookup? (spelling : String) (n : Nat) : Option Builtin :=
  all.find? fun f => f.spelling == spelling && f.accepts n

/-- Without its optional last argument the function takes the context item. -/
def usesContext (f : Builtin) (n : Nat) : Bool :=
  match f with
  | string | data | number | stringLength | normalizeSpace | name | localName | root => n == 0
  | id => n == 1
  | key => n == 2
  | _ => Bool.false

open Cardinality in
/-- The types of as many arguments as the function can take, and of the result. -/
def types (f : Builtin) (n : Nat) : List SequenceType × SequenceType :=
  let any := SequenceType.any
  let one (t : AtomicType) := SequenceType.atomic t .one
  let opt (t : AtomicType) := SequenceType.atomic t .zeroOrOne
  let atomics := SequenceType.atomic .anyAtomicType .zeroOrMore
  let optItem : SequenceType := ⟨.item, .zeroOrOne⟩
  let optNode : SequenceType := ⟨.anyNode, .zeroOrOne⟩
  match f with
  | .true | .false => ([], one .boolean)
  | not | boolean | empty | .exists => ([any], one .boolean)
  | position | last => ([], one .integer)
  | count => ([any], one .integer)
  | string => ([optItem], one .string)
  | data => ([any], atomics)
  | number => ([opt .anyAtomicType], one .double)
  | sum => ([atomics, opt .anyAtomicType], if n = 1 then one .anyAtomicType else opt .anyAtomicType)
  | avg | min | max => ([atomics], opt .anyAtomicType)
  | concat => (List.replicate (Max.max n 2) (opt .anyAtomicType), one .string)
  | stringLength => ([opt .string], one .integer)
  | contains | startsWith | endsWith => ([opt .string, opt .string], one .boolean)
  | stringJoin => ([atomics, one .string], one .string)
  | substring => ([opt .string, one .double, one .double], one .string)
  | upperCase | lowerCase | normalizeSpace => ([opt .string], one .string)
  | name | localName => ([optNode], one .string)
  | root => ([optNode], optNode)
  | subsequence => ([any, one .double, one .double], any)
  | reverse | tail => ([any], any)
  | head | zeroOrOne => ([any], optItem)
  | exactlyOne => ([any], SequenceType.one .item)
  | distinctValues => ([atomics], atomics)
  | id => ([SequenceType.atomic .string .zeroOrMore, SequenceType.one .anyNode],
      ⟨.node (.element {}), .zeroOrMore⟩)
  | key => ([one .string, atomics, SequenceType.one .anyNode], ⟨.anyNode, .zeroOrMore⟩)
  | currentGroup => ([], any)
  | regexGroup => ([one .integer], one .string)
  | error => ([opt .anyAtomicType, opt .string], any)

def preservesItemType : Builtin → Bool
  | subsequence | reverse | head | tail | exactlyOne | zeroOrOne => Bool.true
  | _ => Bool.false

def signature (f : Builtin) (n : Nat) : Signature :=
  let (params, result) := f.types n
  { params := params.take n
    result
    dependencies :=
      { item := f.usesContext n, position := f = position, last := f = last,
        group := f = currentGroup, matched := f = regexGroup }
    preservesItemType := f.preservesItemType }

end Builtin
end XPath
