/-! Expanded names, the lexical forms they are written in, and the namespace declarations in scope. -/
namespace XPath

/-- A local part in a namespace, or in none. -/
structure Name where
  localPart : String
  uri : Option String
  deriving DecidableEq, Repr, Inhabited

/-- A name as it was written: the prefix is kept for display and never decides equality. -/
structure QName extends Name where
  pfx : Option String
  deriving DecidableEq, Repr, Inhabited

/-- The name of a node. The empty namespace stands for none. -/
structure NodeName where
  localPart : String
  uri : String
  deriving DecidableEq, Repr, Inhabited

namespace NodeName

def toQName (n : NodeName) : QName :=
  ⟨⟨n.localPart, if n.uri.isEmpty then none else some n.uri⟩, none⟩

end NodeName

namespace QName

def unprefixed (localPart : String) : QName := ⟨⟨localPart, none⟩, none⟩

/-- Writing an empty URI between the braces names no namespace. -/
def uriQualified (uri localPart : String) : QName :=
  ⟨⟨localPart, if uri.isEmpty then none else some uri⟩, none⟩

/-- The default namespace reaches names written with neither namespace nor prefix. -/
def withDefault (n : QName) (uri : Option String) : QName :=
  match uri, n.uri, n.pfx with
  | some u, none, none => ⟨⟨n.localPart, some u⟩, none⟩
  | _, _, _ => n

def nodeName (n : QName) : NodeName := ⟨n.localPart, n.uri.getD ""⟩

/-- The prefixed form if there is a prefix, else the local part alone. -/
def fullName (n : QName) : String :=
  match n.pfx with
  | some p => if p.isEmpty then n.localPart else p ++ ":" ++ n.localPart
  | none => n.localPart

/-- Shows the prefix if there is one, else the namespace in braces, else the local part. -/
def display (n : QName) : String :=
  let bare := match n.uri with
    | some u => "Q\x7b" ++ u ++ "\x7d" ++ n.localPart
    | none => n.localPart
  match n.pfx with
  | some p => if p.isEmpty then bare else p ++ ":" ++ n.localPart
  | none => bare

end QName

namespace Namespaces

def xml := "http://www.w3.org/XML/1998/namespace"
def schema := "http://www.w3.org/2001/XMLSchema"
def functions := "http://www.w3.org/2005/xpath-functions"
def math := "http://www.w3.org/2005/xpath-functions/math"
def errors := "http://www.w3.org/2005/xqt-errors"

end Namespaces

/-- The declarations in scope: prefixes, newest first, and the two default namespaces. -/
structure Namespaces where
  prefixes : List (String × String) :=
    [("xml", Namespaces.xml), ("xs", Namespaces.schema), ("fn", Namespaces.functions),
      ("math", Namespaces.math), ("err", Namespaces.errors)]
  element : Option String := none
  function : Option String := some Namespaces.functions
  deriving Repr

namespace Namespaces

/-- The empty prefix declares the default element namespace. -/
def add (ns : Namespaces) (pfx uri : String) : Namespaces :=
  if pfx.isEmpty then { ns with element := some uri }
  else { ns with prefixes := (pfx, uri) :: ns.prefixes }

def lookup (ns : Namespaces) (pfx : String) : Option String :=
  ns.prefixes.lookup pfx

/-- The name written `pfx:localPart`, if the prefix is declared. -/
def resolve (ns : Namespaces) (pfx localPart : String) : Option QName :=
  (ns.lookup pfx).map fun uri => ⟨⟨localPart, some uri⟩, some pfx⟩

end Namespaces
end XPath
