import XPath.AtomicType
import XPath.Cardinality

/-! The types of items and of sequences, with their subtype and overlap relations. -/
namespace XPath

/-- The arguments of an element or attribute test; a missing one matches anything. -/
structure NameAndType where
  name : Option QName := none
  typeName : Option QName := none
  deriving DecidableEq, Repr, Inhabited

namespace NameAndType

/-- Names match whatever their prefixes. -/
def sameName (a b : Option QName) : Bool := a.map (·.toName) == b.map (·.toName)

def isSubtype (a b : NameAndType) : Bool :=
  (b.name.isNone || sameName a.name b.name) &&
    (b.typeName.isNone || sameName a.typeName b.typeName)

def overlaps (a b : NameAndType) : Bool :=
  a.name.isNone || b.name.isNone || sameName a.name b.name

def display (kind : String) (t : NameAndType) : String :=
  let inner := match t.name, t.typeName with
    | none, none => ""
    | some n, none => n.display
    | none, some a => "*, " ++ a.display
    | some n, some a => n.display ++ ", " ++ a.display
  kind ++ "(" ++ inner ++ ")"

end NameAndType

inductive KindTest where
  | anyNode
  | document (element : Option NameAndType)
  | element (t : NameAndType)
  | attr (t : NameAndType)
  | text
  | comment
  | processingInstruction (target : Option String)
  | namespaceNode
  deriving DecidableEq, Repr, Inhabited

namespace KindTest

def isSubtype : KindTest → KindTest → Bool
  | _, anyNode => true
  | document _, document none => true
  | document (some a), document (some b) => a.isSubtype b
  | document none, document (some _) => false
  | element a, element b => a.isSubtype b
  | attr a, attr b => a.isSubtype b
  | processingInstruction a, processingInstruction b => b.isNone || a == b
  | text, text | comment, comment | namespaceNode, namespaceNode => true
  | _, _ => false

def overlaps : KindTest → KindTest → Bool
  | anyNode, _ | _, anyNode => true
  | document (some a), document (some b) => a.overlaps b
  | document _, document _ => true
  | element a, element b => a.overlaps b
  | attr a, attr b => a.overlaps b
  | processingInstruction a, processingInstruction b => a.isNone || b.isNone || a == b
  | text, text | comment, comment | namespaceNode, namespaceNode => true
  | _, _ => false

/-- A test that both are subtypes of. -/
def common (a b : KindTest) : KindTest :=
  if a.isSubtype b then b
  else if b.isSubtype a then a
  else match a, b with
    | element _, element _ => element {}
    | attr _, attr _ => attr {}
    | _, _ => anyNode

def display : KindTest → String
  | anyNode => "node()"
  | document none => "document-node()"
  | document (some t) => "document-node(" ++ t.display "element" ++ ")"
  | element t => t.display "element"
  | attr t => t.display "attribute"
  | text => "text()"
  | comment => "comment()"
  | processingInstruction none => "processing-instruction()"
  | processingInstruction (some target) => "processing-instruction(" ++ target ++ ")"
  | namespaceNode => "namespace-node()"

end KindTest

/-- The namespace in which types of foreign objects are named. -/
def Namespaces.foreign : String := "http://xqc.dev/ns/foreign"

inductive ItemType where
  | item
  | atomic (t : AtomicType)
  /-- A type of foreign objects, by its local name. -/
  | foreign (localName : String)
  /-- A type of an imported schema, of which only the name is known. -/
  | imported (name : QName)
  | node (kind : KindTest)
  deriving DecidableEq, Repr, Inhabited

namespace ItemType

def anyNode : ItemType := node .anyNode

def isAtomic : ItemType → Bool
  | atomic _ | imported _ => true
  | _ => false

def isNode : ItemType → Bool
  | node _ => true
  | _ => false

/-- Whether an item of the type could be a number. -/
def mayBeNumeric : ItemType → Bool
  | item | imported _ => true
  | atomic t => t.isNumeric || t.isAbstract
  | foreign _ | node _ => false

def isSubtype : ItemType → ItemType → Bool
  | _, item => true
  | atomic a, atomic b => a.derivesFrom b
  | imported _, atomic b => b = .anyAtomicType
  | imported a, imported b => a.toName == b.toName
  | foreign a, foreign b => a == b
  | node a, node b => a.isSubtype b
  | _, _ => false

/-- Whether some item could be of both types. -/
def overlaps : ItemType → ItemType → Bool
  | item, _ | _, item => true
  | atomic a, atomic b => a.derivesFrom b || b.derivesFrom a
  | imported _, atomic _ | imported _, imported _ | atomic _, imported _ => true
  | foreign a, foreign b => a == b
  | node a, node b => a.overlaps b
  | _, _ => false

/-- A common supertype, not always the least. -/
def common (a b : ItemType) : ItemType :=
  if a.isSubtype b then b
  else if b.isSubtype a then a
  else match a, b with
    | atomic s, atomic t => atomic (s.common t)
    | node s, node t => node (s.common t)
    | _, _ => if a.isAtomic && b.isAtomic then atomic .anyAtomicType else item

def display : ItemType → String
  | item => "item()"
  | atomic t => "xs:" ++ t.localName
  | foreign n => "Q\x7b" ++ Namespaces.foreign ++ "\x7d" ++ n
  | imported n => n.display
  | node k => k.display

end ItemType

structure SequenceType where
  item : ItemType
  cardinality : Cardinality
  deriving DecidableEq, Repr, Inhabited

namespace SequenceType

def empty : SequenceType := ⟨.item, .empty⟩
def any : SequenceType := ⟨.item, .zeroOrMore⟩
def one (t : ItemType) : SequenceType := ⟨t, .one⟩
def atomic (t : AtomicType) (c : Cardinality) : SequenceType := ⟨.atomic t, c⟩

/-- Every sequence of type `a` is also of type `b`. -/
def isSubtype (a b : SequenceType) : Bool :=
  b.cardinality.contains a.cardinality && (a.cardinality == .empty || a.item.isSubtype b.item)

/-- Some sequence could be of both types; the empty one is of every type that allows it. -/
def overlaps (a b : SequenceType) : Bool :=
  a.cardinality.overlaps b.cardinality &&
    ((a.cardinality.allowsEmpty && b.cardinality.allowsEmpty) || a.item.overlaps b.item)

def display (t : SequenceType) : String :=
  if t.cardinality = .empty then "empty-sequence()"
  else t.item.display ++ t.cardinality.indicator

end SequenceType
end XPath
