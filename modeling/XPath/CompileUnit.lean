import XPath.Expr
import XPath.Token

/-! What several parses of one unit share: the locations, the table of bindings and the variables in
scope. -/
namespace XPath

/-- Where an expression starts and which bytes its first token covers. -/
structure Location where
  line : Nat
  column : Nat
  start : Nat
  stop : Nat
  deriving DecidableEq, Repr, Inhabited

inductive BindingKind where
  /-- Bound by the expression itself. -/
  | range
  /-- Declared before parsing. -/
  | parameter
  /-- Introduced by the optimizer. -/
  | hoisted
  deriving DecidableEq, Repr, Inhabited

structure Binding where
  name : QName
  kind : BindingKind
  declared : Option SequenceType
  /-- What is known of the value. -/
  inferred : SequenceType
  deriving DecidableEq, Repr, Inhabited

/-- The variables in scope, the innermost first. -/
abbrev Scope := List (QName × Slot)

structure CompileUnit where
  locations : Array Location := #[]
  /-- Indexed by slot. -/
  bindings : Array Binding := #[]
  scope : Scope := []
  deriving Repr, Inhabited

namespace CompileUnit

/-- Consecutive expressions often start at the same token and then share a location. -/
def allocateLocation (u : CompileUnit) (l : Location) : LocationId × CompileUnit :=
  if u.locations.back? = some l then (u.locations.size - 1, u)
  else (u.locations.size, { u with locations := u.locations.push l })

/-- A new slot, which is not yet in scope. -/
def allocate (u : CompileUnit) (name : QName) (kind : BindingKind) (declared : Option SequenceType) :
    Slot × CompileUnit :=
  let b : Binding := ⟨name, kind, declared, declared.getD (.one .item)⟩
  (u.bindings.size, { u with bindings := u.bindings.push b })

def push (u : CompileUnit) (name : QName) (slot : Slot) : CompileUnit :=
  { u with scope := (name, slot) :: u.scope }

def pop (u : CompileUnit) : Option Slot × CompileUnit :=
  match u.scope with
  | [] => (none, u)
  | (_, slot) :: rest => (some slot, { u with scope := rest })

/-- The innermost variable of that name. -/
def lookup (u : CompileUnit) (name : QName) : Option Slot :=
  (u.scope.find? fun (n, _) => n.toName == name.toName).map (·.2)

/-- Drops what was pushed since the scope was that deep. -/
def restore (u : CompileUnit) (depth : Nat) : CompileUnit :=
  { u with scope := u.scope.drop (u.scope.length - depth) }

/-- A variable that the host sets before evaluation. Without a type nothing is known of its value. -/
def declareParameter (u : CompileUnit) (name : QName) (declared : Option SequenceType) :
    Slot × CompileUnit :=
  let b : Binding := ⟨name, .parameter, declared, declared.getD .any⟩
  let slot := u.bindings.size
  (slot, { u with bindings := u.bindings.push b, scope := (name, slot) :: u.scope })

/-- The number of slots that an evaluation needs. -/
def frameSize (u : CompileUnit) : Nat := u.bindings.size

def binding (u : CompileUnit) (slot : Slot) : Binding := u.bindings[slot]?.getD default

def setInferred (u : CompileUnit) (slot : Slot) (t : SequenceType) : CompileUnit :=
  { u with bindings := u.bindings.modify slot fun b => { b with inferred := t } }

end CompileUnit
end XPath
