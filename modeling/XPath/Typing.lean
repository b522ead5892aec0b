import XPath.Expr
import XPath.CompileUnit
import XPath.StaticContext

/-!
Types are inferred from the leaves up, and the type of each variable from what it is bound to. Only a
requirement that an operand can never meet is an error; what may hold is left to evaluation.
-/
namespace XPath

/-- A pass over an expression: it changes the unit, and keeps it also when it fails. -/
abbrev Pass := ReaderT StaticContext (ExceptT StaticError (StateM CompileUnit))

namespace Pass

def run (p : Pass α) (context : StaticContext) (unit : CompileUnit) :
    Except StaticError α × CompileUnit :=
  StateT.run (ExceptT.run (ReaderT.run p context)) unit

def fail (at' : LocationId) (cause : StaticCause) (code : ErrorCode) : Pass α := do
  let l := (← get).locations[at']?.getD ⟨0, 0, 0, 0⟩
  throw ⟨code, cause, l.line, l.column, l.start, l.stop⟩

end Pass

namespace Cardinality

/-- Picking one item. -/
def pickOne : Cardinality → Cardinality
  | empty => empty
  | one | oneOrMore => one
  | zeroOrOne | zeroOrMore => zeroOrOne

end Cardinality

namespace ItemType

/-- Whether atomizing an item can give something to compute with. -/
def mayAtomizeToNumeric : ItemType → Bool
  | node _ | atomic .untypedAtomic => true
  | t => t.mayBeNumeric

/-- Whether atomizing an item can give what is asked for, after untyped values are cast and numbers
promoted. -/
def mayAtomizeTo (t : ItemType) (target : AtomicType) : Bool :=
  match t with
  | item | imported _ | node _ => true
  | foreign _ => false
  | atomic a =>
    a == .untypedAtomic || a.derivesFrom target || target.derivesFrom a ||
      (a.isNumeric && target.isNumeric) || target == .anyAtomicType

/-- Whether the casting table has an entry; the text of the value is left to evaluation. -/
def mayCastTo (t : ItemType) (target : AtomicType) : Bool :=
  let supported := target == .string || target == .untypedAtomic || target == .boolean ||
    target == .float || target == .double || target.derivesFrom .decimal
  match t with
  | foreign _ => false
  | atomic a => a == target || supported
  | _ => supported

def isNumeric : ItemType → Bool
  | atomic t => t.isNumeric
  | _ => false

/-- The type of a number of this type, where any other item may become any number. -/
def numericType : ItemType → AtomicType
  | atomic t => if t.isNumeric then t else .anyAtomicType
  | _ => .anyAtomicType

def arithmeticType (op : ArithmeticOp) (a b : ItemType) : ItemType :=
  let s := a.numericType
  let t := b.numericType
  if s = .anyAtomicType ∨ t = .anyAtomicType then atomic .anyAtomicType
  else
    let common := s.common t
    let integral := common.derivesFrom .integer
    atomic (match op with
      | .integerDivide => .integer
      | .divide => if integral then .decimal else common
      | _ => if integral then .integer else common)

def nodeCommon (a b : ItemType) : ItemType :=
  match a.common b with
  | node k => node k
  | _ => anyNode

/-- A type that all have in common; `item()` if there are none. -/
def commonOf : List ItemType → ItemType
  | [] => item
  | t :: ts => ts.foldl common t

end ItemType

namespace Expr

/-- The common type of the operands that are not known to be empty. -/
def commonType (es : List Expr) : ItemType :=
  .commonOf ((es.filter (·.cardinality != .empty)).map itemType)

def stepCardinality : Axis → NodeTest → Cardinality
  | .self, _ | .parent, _ => .zeroOrOne
  | .attr, .name (.name _) => .zeroOrOne
  | _, _ => .zeroOrMore

def stepType : Axis → NodeTest → ItemType
  | _, .kind k => .node k
  | axis, .name t =>
    let test : NameAndType := match t with
      | .name n => { name := some n }
      | _ => {}
    match axis with
    | .attr => .node (.attr test)
    | .ns => .node .namespaceNode
    | _ => .node (.element test)

/-- The cardinality of an operation that is empty if an operand is. -/
def bothCardinality (a b : Expr) : Cardinality :=
  if a.cardinality = .one ∧ b.cardinality = .one then .one else .zeroOrOne

end Expr

namespace Typing
open XPath.Expr

def mismatch (e : Expr) (cause : StaticCause) : Pass α := Pass.fail e.location cause .typeMismatch

def requireNumeric (e : Expr) : Pass Unit := do
  unless (← read).backwardsCompatible || e.itemType.mayAtomizeToNumeric do
    mismatch e (.arithmeticOn e.itemType)

def requireAtomizable (e : Expr) (target : AtomicType) : Pass Unit := do
  unless e.itemType.mayAtomizeTo target do mismatch e (.neverBecomes e.itemType target)

def requireCastable (e : Expr) (target : AtomicType) : Pass Unit := do
  unless e.itemType.mayCastTo target do mismatch e (.neverCast e.itemType target)

def requireNode (e : Expr) (code : ErrorCode) : Pass Unit := do
  unless e.cardinality = .empty || e.itemType.overlaps .anyNode do
    Pass.fail e.location (.notNodes e.itemType) code

def requireArgument (f : Builtin) (e : Expr) (param : SequenceType) : Pass Unit := do
  let fits := match param.item with
    | .atomic t => e.itemType.mayAtomizeTo t
    | t => e.itemType.overlaps t
  unless e.cardinality.overlaps param.cardinality && (e.cardinality = .empty || fits) do
    mismatch e (.argumentMismatch f e.type param)

def requireArguments (f : Builtin) : List Expr → List SequenceType → Pass Unit
  | e :: es, t :: ts => do
    requireArgument f e t
    requireArguments f es ts
  | _, _ => pure ()

/-- Replaces what is known of an expression. -/
def annotate (e : Expr) (c : Cardinality) (t : ItemType) (d : Dependencies) (creates : Bool) : Expr :=
  e.withInfo ⟨c, t, d, creates⟩

def booleanType : ItemType := .atomic .boolean

def inferLeaf (e : Expr) (op : LeafOp) : Pass Expr := do
  let (c, t, needsItem) ← match op with
    | .literal cs =>
      pure (Cardinality.ofLength cs.length, ItemType.commonOf (cs.map fun c => .atomic c.type), false)
    | .variable (.range slot) =>
      let t := ((← get).binding slot).inferred
      pure (t.cardinality, t.item, false)
    | .variable (.global n) =>
      let t := (((← read).variableType n).join).getD .any
      pure (t.cardinality, t.item, false)
    | .contextItem => pure (.one, .item, true)
    | .root => pure (.one, .node (.document none), true)
    | .step axis test => pure (stepCardinality axis test, stepType axis test, true)
  return annotate e c t { item := needsItem } false

/-- A node with one operand, which is checked already. A treat that cannot fail is dropped. -/
def inferUnary (e : Expr) (op : UnaryOp) (a : Expr) : Pass Expr := do
  let d := a.info.dependencies
  let creates := a.info.createsNodes
  match op with
  | .negate | .plus =>
    requireNumeric a
    return annotate e a.cardinality.pickOne (.atomic a.itemType.numericType) d creates
  | .sort | .reverse => return annotate e a.cardinality a.itemType d creates
  | .first | .last => return annotate e a.cardinality.pickOne a.itemType d creates
  | .slice .. => return annotate e a.cardinality.orEmpty a.itemType d creates
  | .castable .. | .instanceOf _ => return annotate e .one booleanType d creates
  | .cast target allowsEmpty =>
    requireCastable a target
    if a.cardinality = .empty && !allowsEmpty then mismatch e (.castOfEmpty target)
    let c := if a.cardinality.allowsEmpty && allowsEmpty then .zeroOrOne else .one
    return annotate e c (.atomic target) d creates
  | .treat t =>
    unless a.type.overlaps t do mismatch e (.neverTreated a.type t)
    if a.type.isSubtype t then return a
    return annotate e t.cardinality t.item d creates
  | .element n => return annotate e .one (.node (.element { name := some n })) d true
  | .text => return annotate e .zeroOrOne (.node .text) d true

/-- A node with two operands, which are checked already. -/
def inferBinary (e : Expr) (op : BinaryOp) (a b : Expr) : Pass Expr := do
  let d := a.info.dependencies ∪ b.info.dependencies
  let creates := a.info.createsNodes || b.info.createsNodes
  match op with
  | .arithmetic op =>
    requireNumeric a
    requireNumeric b
    let c := if a.cardinality = .empty ∨ b.cardinality = .empty then .empty else bothCardinality a b
    return annotate e c (.arithmeticType op a.itemType b.itemType) d creates
  | .valueComparison _ => return annotate e (bothCardinality a b) booleanType d creates
  | .generalComparison _ | .and | .or | .quantified .. => return annotate e .one booleanType d creates
  | .nodeComparison _ =>
    requireNode a .typeMismatch
    requireNode b .typeMismatch
    return annotate e .zeroOrOne booleanType d creates
  | .range =>
    requireAtomizable a .integer
    requireAtomizable b .integer
    return annotate e .zeroOrMore (.atomic .integer) d creates
  | .set _ =>
    requireNode a .typeMismatch
    requireNode b .typeMismatch
    return annotate e .zeroOrMore (.nodeCommon a.itemType b.itemType) d creates
  | .for _ => return annotate e (a.cardinality.product b.cardinality) b.itemType d creates
  | .let _ => return annotate e b.cardinality b.itemType d creates
  | .path =>
    requireNode a .pathOnNonNode
    let d := a.info.dependencies ∪ b.info.dependencies.withoutFocus
    return annotate e (a.cardinality.product b.cardinality) b.itemType d creates
  | .filter _ =>
    let positional :=
      b.itemType.mayBeNumeric || b.info.dependencies.position || b.info.dependencies.last
    let d := a.info.dependencies ∪ b.info.dependencies.withoutFocus
    let c :=
      if a.cardinality = .empty then .empty
      else if positional && b.itemType.isNumeric then .zeroOrOne
      else a.cardinality.orEmpty
    return annotate (.binary e.note (.filter positional) a b) c a.itemType d creates
  | .itemAt => return annotate e a.cardinality.pickOne.orEmpty a.itemType d creates

def inferTernary (e : Expr) (op : TernaryOp) (a b c : Expr) : Pass Expr := do
  let d := a.info.dependencies ∪ b.info.dependencies ∪ c.info.dependencies
  let creates := a.info.createsNodes || b.info.createsNodes || c.info.createsNodes
  match op with
  | .if => return annotate e (b.cardinality.join c.cardinality) (commonType [b, c]) d creates
  | .indexedFilter => return annotate e a.cardinality.orEmpty a.itemType d creates

def inferNary (e : Expr) (op : NaryOp) (args : List Expr) : Pass Expr := do
  let d := args.foldl (fun d a => d ∪ a.info.dependencies) {}
  let creates := args.any (·.info.createsNodes)
  match op with
  | .block =>
    let c := args.foldl (fun c a => c.concat a.cardinality) .empty
    return annotate e c (commonType args) d creates
  | .call (.unresolved _) => return annotate e .zeroOrMore .item d creates
  | .call (.builtin f) =>
    let s := f.signature args.length
    requireArguments f args s.params
    let t := match args with
      | a :: _ => if s.preservesItemType then a.itemType else s.result.item
      | [] => s.result.item
    return annotate e s.result.cardinality t (d ∪ s.dependencies) creates

/-- What is known of a node whose operands are checked. -/
def infer (e : Expr) : Pass Expr :=
  match e with
  | .leaf _ op => inferLeaf e op
  | .unary _ op a => inferUnary e op a
  | .binary _ op a b => inferBinary e op a b
  | .ternary _ op a b c => inferTernary e op a b c
  | .nary _ op args => inferNary e op args

def setInferred (slot : Slot) (t : SequenceType) : Pass Unit :=
  modify fun u => u.setInferred slot t

/-- Refines a variable from its source, of which it takes one item at a time if `perItem`. A source that
may not be of the declared type is checked when it is evaluated. -/
def bind (slot : Slot) (source : Expr) (perItem : Bool) : Pass Expr := do
  let found := source.type
  let b := (← get).binding slot
  match b.declared with
  | none =>
    setInferred slot (if perItem then .one source.itemType else found)
    return source
  | some declared =>
    let required : SequenceType := if perItem then ⟨declared.item, .zeroOrMore⟩ else declared
    unless found.overlaps required do
      mismatch source (.bindingMismatch b.name.localPart declared found)
    setInferred slot declared
    if found.isSubtype required then return source
    infer (.mkUnary (.treat required) source source.location)

mutual

/-- Checks an expression and everything in it. -/
def check : Expr → Pass Expr
  | .leaf n op => infer (.leaf n op)
  | .unary n op a => do infer (.unary n op (← check a))
  | .binary n op a b => do
    let source ← check a
    let source ← match op with
      | .for slot | .quantified _ slot => bind slot source true
      | .let slot => bind slot source false
      | _ => pure source
    infer (.binary n op source (← check b))
  | .ternary n op a b c => do
    let a ← check a
    let b ← check b
    infer (.ternary n op a b (← check c))
  | .nary n op args => do infer (.nary n op (← checkList args))

def checkList : List Expr → Pass (List Expr)
  | [] => pure []
  | e :: es => do
    let e ← check e
    return e :: (← checkList es)

end

end Typing
end XPath
