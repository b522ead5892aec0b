import XPath.Tree

/-!
Constructed elements. Content that is part of a tree already is copied; a tree of its own is moved into
the element, and its nodes keep their identity.
-/
namespace XPath

/-- An element that is being made beside the other trees. -/
structure Construction where
  forest : Forest
  element : Tree

namespace Construction

/-- Looks for a node in the element and in the other trees. -/
def chain (c : Construction) (i : NodeId) : List Tree :=
  (Tree.chainList? i (c.element :: c.forest.trees)).getD []

/-- Starts an element of that name with a new identity. -/
def start (f : Forest) (name : NodeName) : Construction :=
  ⟨{ f with next := f.next + 1 }, .node f.next (.element name) []⟩

/-- Puts the element among the trees. -/
def finish (c : Construction) : NodeId × Forest :=
  (c.element.id, { c.forest with trees := c.element :: c.forest.trees })

/-- Appends a text to the last text of a list, or as a node of its own. -/
def appendText (t : Tree) (s : String) : List Tree → List Tree
  | [] => [t]
  | [.node i (.text s') ts] => [.node i (.text (s' ++ s)) ts]
  | u :: us => u :: appendText t s us

/-- Replaces the value of the attribute of the same name, or adds one after the other attributes. -/
def putAttribute (t : Tree) (name : NodeName) (value : String) : List Tree → List Tree
  | [] => [t]
  | .node i (.attr n v) ts :: us =>
    if n = name then .node i (.attr n value) ts :: us
    else .node i (.attr n v) ts :: putAttribute t name value us
  | .node i (.ns p u) ts :: us => .node i (.ns p u) ts :: putAttribute t name value us
  | us => t :: us

/-- The nodes below an element with one more: texts that meet are joined. -/
def place (t : Tree) (parts : List Tree) : List Tree :=
  match t.content with
  | .text s => appendText t s parts
  | .attr name value => putAttribute t name value parts
  | _ => parts ++ [t]

def append (t : Tree) (c : Construction) : Construction :=
  { c with element := .node c.element.id c.element.content (place t c.element.parts) }

def appendCopy (t : Tree) (c : Construction) : Construction :=
  let (u, n) := t.renumber c.forest.next
  append u { c with forest := { c.forest with next := n } }

/-- Adds a node of the content: of a document its children. A text that has been joined to another one is in no tree
any more. Whoever still holds such a node may not look at it: nothing is promised for that case, and here the node
is passed over. -/
def appendNode (i : NodeId) (c : Construction) : Construction :=
  match c.chain i with
  | [] => c
  | t :: ancestors =>
    match t.content with
    | .document => t.children.foldl (fun c u => c.appendCopy u) c
    | .text "" => c
    | _ =>
      if ancestors.isEmpty then
        append t { c with forest := { c.forest with trees := c.forest.trees.filter (·.id != i) } }
      else c.appendCopy t

/-- Adds a text node, unless the text is empty. -/
def appendString (s : String) (c : Construction) : Construction :=
  if s.isEmpty then c
  else append (.node c.forest.next (.text s) []) { c with forest := { c.forest with next := c.forest.next + 1 } }

end Construction

namespace Forest

/-- A text node of its own. -/
def addText (f : Forest) (s : String) : NodeId × Forest := f.add (.node 0 (.text s) [])

end Forest
end XPath
