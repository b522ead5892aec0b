import XPath.Tree
import XPath.Expr

/-!
Axes and node tests. The nodes of an axis are found from the context node and its ancestors, the nearest
first; forward axes give document order, and reverse axes the nearest node first.
-/
namespace XPath

namespace Tree

/-- What stands before a node in the same list, the nearest first, and what stands after it. -/
def around (i : NodeId) (ts : List Tree) : List Tree × List Tree :=
  ((ts.takeWhile (·.id != i)).reverse, (ts.dropWhile (·.id != i)).drop 1)

def ordinary (ts : List Tree) : List Tree := ts.filter (·.content.isOrdinary)

/-- The nodes after a node that are not below it. -/
def following : List Tree → List Tree
  | t :: parent :: rest =>
    ordinary ((around t.id parent.parts).2.flatMap preorder) ++ following (parent :: rest)
  | _ => []

/-- The nodes before a node that are not its ancestors. -/
def preceding : List Tree → List Tree
  | t :: parent :: rest =>
    ordinary ((around t.id parent.parts).1.flatMap (·.preorder.reverse)) ++ preceding (parent :: rest)
  | _ => []

/-- Nodes of the same role below the same parent, before and after. -/
def siblings : List Tree → List Tree × List Tree
  | t :: parent :: _ => around t.id (parent.parts.filter (·.content.role == t.content.role))
  | _ => ([], [])

end Tree

namespace Axis
open XPath.Tree

/-- The nodes on an axis from the first node of a chain. Namespaces are on no axis. -/
def nodes (axis : Axis) (chain : List Tree) : List Tree :=
  match chain with
  | [] => []
  | t :: ancestors =>
    match axis with
    | .child => t.children
    | .descendant => ordinary (preorderList t.parts)
    | .descendantOrSelf => ordinary t.preorder
    | .attr => t.attributes
    | .self => [t]
    | .parent => ancestors.take 1
    | .ancestor => ancestors
    | .ancestorOrSelf => t :: ancestors
    | .followingSibling => (siblings chain).2
    | .precedingSibling => (siblings chain).1
    | .following => Tree.following chain
    | .preceding => Tree.preceding chain
    | .ns => []

end Axis

namespace NameAndType

/-- Whether a node has the name and could have the type; no node has been validated. -/
def holds (t : NameAndType) (c : Content) : Bool :=
  t.name.all (fun n => c.name? == some n.nodeName) &&
  t.typeName.all fun n =>
    n.uri == some Namespaces.schema && (n.localPart == "untyped" || n.localPart == "anyType")

end NameAndType

namespace KindTest

def holds (test : KindTest) (t : Tree) : Bool :=
  match test, t.content with
  | .anyNode, _ => true
  | .document none, .document => true
  | .document (some e), .document => t.documentElement?.any fun u => e.holds u.content
  | .element e, .element n => e.holds (.element n)
  | .attr e, .attr n v => e.holds (.attr n v)
  | .text, .text _ | .comment, .comment _ | .namespaceNode, .ns .. => true
  | .processingInstruction target, .instruction name _ => target.all (· == name)
  | _, _ => false

end KindTest

namespace NameTest

def holds (test : NameTest) (name : NodeName) : Bool :=
  match test with
  | .name n => n.nodeName == name
  | .any => true
  | .localPart l => name.localPart == l
  | .inNamespace uri => name.uri == uri

end NameTest

namespace NodeTest

/-- A name test is about the kind of node that the axis is for: attributes, namespaces or elements. -/
def holds (test : NodeTest) (axis : Axis) (t : Tree) : Bool :=
  match test with
  | .kind k => k.holds t
  | .name n => match axis, t.content with
    | .attr, .attr m _ => n.holds m
    | .attr, _ => false
    | .ns, .ns pfx _ => n.holds ⟨pfx, ""⟩
    | .ns, _ => false
    | _, .element m => n.holds m
    | _, _ => false

end NodeTest
end XPath
