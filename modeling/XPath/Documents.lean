import XPath.Item
import XPath.Xml.Reader
import XPath.Xml.Writer

/-! The documents that queries are asked of, and the trees that queries have made beside them. -/
namespace XPath

structure Documents where
  forest : Forest := {}
  /-- The document nodes, in the order in which the documents were added. -/
  roots : Array NodeId := #[]
  deriving Inhabited

namespace Documents

/-- Adds the document that a text writes; none if it is not well-formed XML. -/
def add? (d : Documents) (text : String) : Option Documents :=
  (Xml.read? text).map fun t =>
    let (i, forest) := d.forest.add t
    ⟨forest, d.roots.push i⟩

/-- An element or a document as XML, if that can be written; any other item as text. -/
def displayItem (d : Documents) : Item → String
  | .atomic a => a.text
  | .node i =>
    let chain := d.forest.chain i
    let written := match chain with
      | t :: _ => if t.content.isElement || t.content.isDocument then Xml.ofChain? chain else none
      | [] => none
    written.getD (d.forest.stringValue i)

/-- A line for every item. -/
def display (d : Documents) (xs : List Item) : String := "\n".intercalate (xs.map d.displayItem)

end Documents
end XPath
