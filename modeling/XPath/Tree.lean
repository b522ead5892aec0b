import XPath.Name

/-!
Trees of nodes. A node keeps its identity for good, also when its tree becomes a part of another one.
What is below an element stands in one list: its namespaces, its attributes, and then its children, so
that the preorder of a tree is document order.
-/
namespace XPath

abbrev NodeId := Nat

/-- What a node is, apart from the nodes below it. -/
inductive Content where
  | document
  | element (name : NodeName)
  | ns (pfx uri : String)
  | attr (name : NodeName) (value : String)
  | text (s : String)
  | comment (s : String)
  | instruction (target : String) (data : Option String)
  deriving DecidableEq, Repr, Inhabited

namespace Content

/-- The lists that a node can stand in. Only ordinary nodes are children. -/
inductive Role where
  | namespaceNode | attributeNode | ordinary
  deriving DecidableEq, Repr

def role : Content → Role
  | ns .. => .namespaceNode
  | attr .. => .attributeNode
  | _ => .ordinary

def isDocument : Content → Bool
  | document => true
  | _ => false

def isElement : Content → Bool
  | element _ => true
  | _ => false

def isAttribute (c : Content) : Bool := c.role == .attributeNode
def isOrdinary (c : Content) : Bool := c.role == .ordinary

def isText : Content → Bool
  | text _ => true
  | _ => false

/-- The name of the node. A processing instruction is named by its target. -/
def name? : Content → Option NodeName
  | element n | attr n _ => some n
  | instruction target _ => some ⟨target, ""⟩
  | ns pfx _ => some ⟨pfx, ""⟩
  | _ => none

end Content

inductive Tree where
  | node (id : NodeId) (content : Content) (parts : List Tree)
  deriving Repr, Inhabited

namespace Tree

def id : Tree → NodeId
  | node i _ _ => i

def content : Tree → Content
  | node _ c _ => c

def parts : Tree → List Tree
  | node _ _ ts => ts

def children (t : Tree) : List Tree := t.parts.filter (·.content.isOrdinary)
def attributes (t : Tree) : List Tree := t.parts.filter (·.content.isAttribute)

/-- Prefixes and URIs that the node declares, in order. -/
def declarations (t : Tree) : List (String × String) :=
  t.parts.filterMap fun u => match u.content with
    | .ns pfx uri => some (pfx, uri)
    | _ => none

mutual

/-- The node and all that is below it, in document order. -/
def preorder : Tree → List Tree
  | node i c ts => node i c ts :: preorderList ts

def preorderList : List Tree → List Tree
  | [] => []
  | t :: ts => t.preorder ++ preorderList ts

end

mutual

/-- The node of that identity and its ancestors, the nearest first. -/
def chain? (i : NodeId) : Tree → Option (List Tree)
  | node j c ts =>
    if i = j then some [node j c ts] else (chainList? i ts).map (· ++ [node j c ts])

def chainList? (i : NodeId) : List Tree → Option (List Tree)
  | [] => none
  | t :: ts => (t.chain? i) <|> chainList? i ts

end

mutual

/-- The same tree made of new nodes, numbered in document order from `next` on, and the next number
that is free. -/
def renumber (next : NodeId) : Tree → Tree × NodeId
  | node _ c ts =>
    let (us, n) := renumberList (next + 1) ts
    (node next c us, n)

def renumberList (next : NodeId) : List Tree → List Tree × NodeId
  | [] => ([], next)
  | t :: ts =>
    let (u, n) := t.renumber next
    let (us, m) := renumberList n ts
    (u :: us, m)

end

mutual

/-- The texts below a node, one after the other. -/
def innerText : Tree → String
  | node _ (.text s) _ => s
  | node _ _ ts => innerTextList ts

def innerTextList : List Tree → String
  | [] => ""
  | t :: ts => t.innerText ++ innerTextList ts

end

/-- The string value of a node. -/
def stringValue (t : Tree) : String :=
  match t.content with
  | .attr _ value => value
  | .ns _ uri => uri
  | .text s | .comment s => s
  | .instruction _ data => data.getD ""
  | .document | .element _ => innerTextList t.children

/-- The first element below a document. -/
def documentElement? (t : Tree) : Option Tree := t.children.find? (·.content.isElement)

end Tree

/-- The trees that there are, and the first number that names no node. -/
structure Forest where
  next : NodeId := 0
  trees : List Tree := []
  deriving Repr, Inhabited

namespace Forest

/-- A node and its ancestors, the nearest first; nothing if the forest has no such node. -/
def chain (f : Forest) (i : NodeId) : List Tree := (Tree.chainList? i f.trees).getD []

def node? (f : Forest) (i : NodeId) : Option Tree := (f.chain i).head?

def content? (f : Forest) (i : NodeId) : Option Content := (f.node? i).map (·.content)

def parent? (f : Forest) (i : NodeId) : Option Tree := ((f.chain i).drop 1).head?

/-- The tree that a node is in. -/
def root? (f : Forest) (i : NodeId) : Option Tree := (f.chain i).getLast?

def stringValue (f : Forest) (i : NodeId) : String := ((f.node? i).map (·.stringValue)).getD ""

/-- Adds a tree of new nodes; the answer is its root. -/
def add (f : Forest) (t : Tree) : NodeId × Forest :=
  let (u, n) := t.renumber f.next
  (f.next, ⟨n, u :: f.trees⟩)

end Forest
end XPath
