import XPath.Tree

/-! Trees as XML text. A tree can be written if every namespace in it has a prefix where it is used. -/
namespace XPath.Xml

def escapeText (s : String) : String :=
  String.join (s.toList.map fun
    | '&' => "&amp;"
    | '<' => "&lt;"
    | '>' => "&gt;"
    | c => c.toString)

def escapeAttribute (s : String) : String :=
  String.join (s.toList.map fun
    | '&' => "&amp;"
    | '<' => "&lt;"
    | '>' => "&gt;"
    | '"' => "&quot;"
    | '\'' => "&apos;"
    | c => c.toString)

def qualified (pfx localPart : String) : String :=
  if pfx.isEmpty then localPart else pfx ++ ":" ++ localPart

/-- The latest prefix in scope that is not empty and stands for the namespace. -/
def prefix? (scope : List (String × String)) (uri : String) : Option String :=
  if uri = Namespaces.xml then some "xml"
  else (scope.find? fun (p, u) => !p.isEmpty && u == uri).map (·.1)

/-- An element is written without a prefix if its namespace is the default. -/
def elementName? (scope : List (String × String)) (n : NodeName) : Option String :=
  if n.uri.isEmpty || scope.lookup "" == some n.uri then some n.localPart
  else (prefix? scope n.uri).map (qualified · n.localPart)

def attributeName? (scope : List (String × String)) (n : NodeName) : Option String :=
  if n.uri.isEmpty then some n.localPart else (prefix? scope n.uri).map (qualified · n.localPart)

def declaration (pfx uri : String) : String :=
  " " ++ (if pfx.isEmpty then "xmlns" else "xmlns:" ++ pfx) ++ "=\"" ++ escapeAttribute uri ++ "\""

/-- The attributes among the nodes of an element. -/
def writeAttributes? (scope : List (String × String)) : List Tree → Option String
  | [] => some ""
  | t :: ts => do
    let rest ← writeAttributes? scope ts
    match t.content with
    | .attr n value =>
      return " " ++ (← attributeName? scope n) ++ "=\"" ++ escapeAttribute value ++ "\"" ++ rest
    | _ => return rest

/-- Declarations of an element come before those outside of it, the latest first. -/
def enter (declarations scope : List (String × String)) : List (String × String) :=
  declarations.reverse ++ scope.filter fun (p, _) => !declarations.any (·.1 == p)

mutual

/-- Writes a node where the prefixes of `scope` are declared and those of `extra` are not yet. -/
def write? (scope extra : List (String × String)) : Tree → Option String
  | .node i c ts =>
    match c with
    | .document => writeList? scope ts
    | .element n => do
      let declarations := extra ++ (Tree.node i c ts).declarations
      let inner := enter declarations scope
      let name ← elementName? inner n
      let head := "<" ++ name ++ String.join (declarations.map fun (p, u) => declaration p u)
        ++ (← writeAttributes? inner ts)
      if ts.any (·.content.isOrdinary) then
        return head ++ ">" ++ (← writeList? inner ts) ++ "</" ++ name ++ ">"
      else return head ++ "/>"
    | .text s => some (escapeText s)
    | .comment s => some ("<!--" ++ s ++ "-->")
    | .instruction target data =>
      some ("<?" ++ target ++ (data.map (" " ++ ·)).getD "" ++ "?>")
    | .attr .. | .ns .. => some ""

/-- Writes the children among nodes. -/
def writeList? (scope : List (String × String)) : List Tree → Option String
  | [] => some ""
  | t :: ts => do return (← write? scope [] t) ++ (← writeList? scope ts)

end

/-- The prefixes that ancestors declare, the nearest ancestor first. -/
def inherited (seen : List (String × String)) : List Tree → List (String × String)
  | [] => seen
  | t :: ts => inherited (seen ++ t.declarations.filter fun (p, _) => !seen.any (·.1 == p)) ts

/-- The XML text of a node, given the node and its ancestors. What the ancestors declare and the node
does not is declared on it as well. -/
def ofChain? : List Tree → Option String
  | [] => none
  | t :: ancestors =>
    let extra := (inherited [] ancestors).filter fun (p, u) =>
      !(p.isEmpty && u.isEmpty) && !t.declarations.any (·.1 == p)
    write? [] extra t

/-- The prefix of a namespace on a chain of nodes: the first declaration of it, unless a prefix was met
twice before. -/
def prefixOf? (uri : String) (seen : List String) : List (String × String) → Option String
  | [] => none
  | (p, u) :: rest =>
    if seen.contains p then none else if u = uri then some p else prefixOf? uri (p :: seen) rest

/-- The name of a node as it can be written where the node stands. -/
def lexicalName? (chain : List Tree) (n : NodeName) : Option String :=
  if n.uri.isEmpty then some n.localPart
  else
    let declared := chain.flatMap (·.declarations) ++ [("", ""), ("xml", Namespaces.xml)]
    (prefixOf? n.uri [] declared).map (qualified · n.localPart)

end XPath.Xml
