import XPath.Xml.Markup
import XPath.Tree

/-!
From markup to the tree of a document. Tags are matched by expanded name, adjoining texts are joined, and
references are resolved: the five entities that XML defines, and characters by number.
-/
namespace XPath.Xml

/-- The prefixes in scope, the latest declared first. -/
abbrev Scope := List (String × String)

/-- The character of a reference such as `lt`, `#65` or `#x41`. -/
def reference? (cs : List Char) : Option Char :=
  let number? (base : Nat) (ds : List Char) : Option Char :=
    let ds := match ds with
      | '+' :: ds => ds
      | ds => ds
    let digit (c : Char) : Option Nat :=
      let n := if c.isDigit then c.toNat - 48 else if 'a' ≤ c ∧ c ≤ 'f' then c.toNat - 87
        else if 'A' ≤ c ∧ c ≤ 'F' then c.toNat - 55 else 16
      if n < base then some n else none
    if ds.isEmpty then none
    else do
      let n ← ds.foldlM (fun n c => (digit c).map (n * base + ·)) 0
      if n < 0xd800 ∨ (0xe000 ≤ n ∧ n < 0x110000) then some (Char.ofNat n) else none
  match cs with
  | '#' :: 'x' :: ds => number? 16 ds
  | '#' :: ds => number? 10 ds
  | _ => match String.ofList cs with
    | "amp" => some '&'
    | "lt" => some '<'
    | "gt" => some '>'
    | "apos" => some '\''
    | "quot" => some '"'
    | _ => none

/-- One kind of line end for three. -/
def joinLines : List Char → List Char
  | '\r' :: '\n' :: cs => '\n' :: joinLines cs
  | '\r' :: cs => '\n' :: joinLines cs
  | c :: cs => c :: joinLines cs
  | [] => []

/-- Resolves references. White space outside of them becomes a space in an attribute value. -/
def resolve? (inAttribute : Bool) : List Char → Option (List Char)
  | [] => some []
  | c :: cs =>
    if c = '&' then
      match cs.dropWhile (· != ';') with
      | [] => none
      | _ :: _ => do
        let d ← reference? (cs.takeWhile (· != ';'))
        let rest ← resolve? inAttribute ((cs.dropWhile (· != ';')).drop 1)
        return d :: rest
    else
      (resolve? inAttribute cs).map ((if inAttribute ∧ Blank.isSpace c then ' ' else c) :: ·)
termination_by cs => cs.length
decreasing_by
  all_goals
    have := (List.dropWhile_suffix (l := cs) (· != ';')).length_le
    simp only [List.length_cons, List.length_drop]
    omega

def content? (inAttribute : Bool) (cs : List Char) : Option String :=
  (resolve? inAttribute (joinLines cs)).map String.ofList

/-- The namespace of a prefix. -/
def namespace? (scope : Scope) (pfx : String) : Option String :=
  if pfx = "xml" then some Namespaces.xml
  else match scope.lookup pfx with
    | some uri => some uri
    | none => if pfx.isEmpty then some "" else none

def expandedName? (scope : Scope) (n : TagName) : Option NodeName :=
  (namespace? scope n.pfx).map fun uri => ⟨n.localPart, uri⟩

/-- An attribute without a prefix is in no namespace. -/
def expandedAttribute? (scope : Scope) (n : TagName) : Option NodeName :=
  if n.pfx.isEmpty then some ⟨n.localPart, ""⟩ else expandedName? scope n

/-- The prefix that an attribute declares. -/
def declares? (n : TagName) : Option String :=
  if n.pfx = "xmlns" then some n.localPart
  else if n.pfx.isEmpty ∧ n.localPart = "xmlns" then some "" else none

/-- The later of two declarations of one prefix counts. -/
def declare (pfx uri : String) : List (String × String) → List (String × String)
  | [] => [(pfx, uri)]
  | (p, u) :: rest => if p = pfx then (p, uri) :: rest else (p, u) :: declare pfx uri rest

def idName : NodeName := ⟨"id", Namespaces.xml⟩

/-- An identifier with single spaces between its words. -/
def normalizeId (value : String) : String :=
  " ".intercalate ((value.splitOn " ").filter (!·.isEmpty))

/-- The attributes that are not declarations, with their expanded names and values. No two of them have
the same name. -/
def attributes? (scope : Scope) : List (TagName × String) → Option (List (NodeName × String))
  | [] => some []
  | (n, value) :: rest => do
    let more ← attributes? scope rest
    if (declares? n).isSome then return more
    let name ← expandedAttribute? scope n
    if more.any (·.1 == name) then none
    else return (name, if name = idName then normalizeId value else value) :: more

/-- An element whose closing tag has not come yet: what was in scope outside of it, and the nodes in it
so far, the latest first. -/
structure Open where
  name : NodeName
  outer : Scope
  parts : List Tree

/-- The open elements, the innermost first; the nodes of the document outside of them, the latest first;
the prefixes in scope and the identifiers met. -/
structure State where
  stack : List Open := []
  top : List Tree := []
  scope : Scope := []
  ids : List String := []

namespace State

/-- Adds a finished node to the innermost open element. -/
def add (s : State) (t : Tree) : State :=
  match s.stack with
  | [] => { s with top := t :: s.top }
  | e :: es => { s with stack := { e with parts := t :: e.parts } :: es }

/-- Adds a text to the innermost open element, joined to a text before it. -/
def addText (s : State) (text : String) : State :=
  if text.isEmpty then s
  else match s.stack with
    | { name, outer, parts := .node i (.text before) us :: parts } :: es =>
      { s with stack := ⟨name, outer, .node i (.text (before ++ text)) us :: parts⟩ :: es }
    | _ => s.add (.node 0 (.text text) [])

/-- Closes the innermost open element. -/
def close (s : State) : State :=
  match s.stack with
  | [] => s
  | e :: es =>
    { s with stack := es, scope := e.outer }.add (.node 0 (.element e.name) e.parts.reverse)

/-- Opens an element; its declarations are in scope for its own names. -/
def open? (s : State) (n : TagName) (attributes : List (TagName × List Char)) : Option State := do
  let attributes ← attributes.mapM fun (n, cs) => (content? true cs).map fun v => (n, v)
  let declarations := attributes.foldl (fun ds (n, v) => match declares? n with
    | some pfx => declare pfx v ds
    | none => ds) []
  let scope := declarations.reverse ++ s.scope
  let name ← expandedName? scope n
  let attributes ← attributes? scope attributes
  let ids := attributes.filterMap fun (n, v) => if n = idName then some v else none
  if ids.any s.ids.contains then none
  else
    let leaf (c : Content) : Tree := .node 0 c []
    let parts := declarations.map (fun (p, u) => leaf (.ns p u)) ++
      attributes.map fun (n, v) => leaf (.attr n v)
    return { s with
      stack := ⟨name, s.scope, parts.reverse⟩ :: s.stack, scope, ids := ids ++ s.ids }

def hasElement (s : State) : Bool := s.top.any (·.content.isElement)

/-- Takes one piece of markup. Outside of the one element of a document there are only comments,
instructions and space. -/
def take? (s : State) : Markup → Option State
  | .opening n attributes empty =>
    if s.stack.isEmpty && s.hasElement then none
    else do
      let s ← s.open? n attributes
      return if empty then s.close else s
  | .closing n => do
    let e ← s.stack.head?
    let name ← expandedName? s.scope n
    if name = e.name then return s.close else none
  | .text cs raw =>
    if s.stack.isEmpty then (if !raw && cs.all Blank.isSpace then some s else none)
    else if raw then some (s.addText (String.ofList (joinLines cs)))
    else (content? false cs).map s.addText
  | .comment cs => some (s.add (.node 0 (.comment (String.ofList (joinLines cs))) []))
  | .instruction target data =>
    let data := if data.isEmpty then none else some (String.ofList (joinLines data))
    some (s.add (.node 0 (.instruction target data) []))

end State

/-- The document that a text writes, its nodes not numbered; none if the text is not well-formed, or has a
document type. -/
def read? (text : String) : Option Tree := do
  let s ← (← Markup.ofText? text).foldlM State.take? {}
  if s.stack.isEmpty && s.hasElement then return .node 0 .document s.top.reverse else none

end XPath.Xml
