import XPath.Evaluation.Ways
import XPath.Atomic.Arithmetic
import XPath.Text.Case
import XPath.Xml.Writer

/-! Calls of the built-in functions. -/
namespace XPath

/-- Rounds to an integer, halves upwards. -/
def Binary.roundHalf (x : Binary) : Binary := (x.add .double (.ofRatio .double false 1 2)).floor .double

namespace Call

/-- The positions from `start`, rounded, on, of which there are `length`, rounded, if that is given. -/
structure Window where
  start : Binary
  length : Option Binary

namespace Window

def atLeast (a b : Binary) : Bool := (a.compare? b).any (· != .lt)
def less (a b : Binary) : Bool := (a.compare? b).any (· == .lt)

def reached (w : Window) (position : Nat) : Bool :=
  atLeast (.ofInt .double position) w.start.roundHalf

def contains (w : Window) (position : Nat) : Bool :=
  w.reached position && w.length.all fun l =>
    less (.ofInt .double position) (w.start.roundHalf.add .double l.roundHalf)

end Window

/-- The name of a key: a local part alone, or with the namespace in braces before it. -/
def keyName? (s : String) : Option Name :=
  match Blank.trim s.toList with
  | 'Q' :: '\x7b' :: rest =>
    match rest.dropWhile (· != '\x7d') with
    | _ :: c :: cs => some (QName.uriQualified (String.ofList (rest.takeWhile (· != '\x7d')))
        (String.ofList (c :: cs))).toName
    | _ => none
  | cs => if cs.isEmpty || cs.contains ':' then none else some ⟨String.ofList cs, none⟩

/-- The parts of a text between white space. -/
def words (s : String) : List String := go [] s.toList
where
  go (word : List Char) : List Char → List String
    | [] => flush word
    | c :: cs => if Blank.isWhite c then flush word ++ go [] cs else go (c :: word) cs
  flush (word : List Char) : List String :=
    if word.isEmpty then [] else [String.ofList word.reverse]

/-- Whether a text starts somewhere in another. -/
def occurs (part : List Char) : List Char → Bool
  | [] => part.isEmpty
  | c :: cs => part.isPrefixOf (c :: cs) || occurs part cs

/-- The arguments of a call and the frame that they are evaluated in. -/
structure Site where
  args : List Ways
  frame : Frame
  /-- The context item stands for the last argument, which has been left out. -/
  implicit : Bool

namespace Site

def arg (s : Site) (n : Nat) : Ways := s.args.getD n .nothing

def boolean (b : Bool) : List Item := [.atomic (.boolean b)]
def string (t : String) : List Item := [.atomic (.string t)]
def number (n : Nat) : List Item := [.atomic (.ofInt n)]
def optional (a : Option Atomic) : List Item := (a.map .atomic).toList

def items (s : Site) (n : Nat) : Items := (s.arg n).items s.frame
def list (s : Site) (n : Nat) : Eval (List Item) := (s.arg n).toList s.frame
def text (s : Site) (n : Nat) : Eval String := (s.arg n).text s.frame
def texts (s : Site) (n : Nat) : Eval (List String) :=
  return (← ((s.arg n).values s.frame).toList).map (·.text)

/-- The only argument or the context item. -/
def subject (s : Site) : Eval (Option Item) :=
  if s.implicit then some <$> s.frame.contextItem
  else match s.args.getLast? with
    | some a => a.item s.frame
    | none => return none

def subjectText (s : Site) : Eval String := do
  let x ← s.subject
  let f ← Eval.forest
  return (x.map (·.text f)).getD ""

/-- The only argument or the context item, which must be a node. -/
def subjectNode (s : Site) : Eval (Option NodeId) :=
  if s.implicit then some <$> s.frame.contextNode
  else do (← s.subject).mapM fun x => Eval.require .typeMismatch x.node?

/-- The node that the optional last argument gives, else the context node. -/
def target (s : Site) (n : Nat) : Eval NodeId :=
  match s.args[n]? with
  | some a =>
    if s.implicit then s.frame.contextNode
    else do Eval.require .typeMismatch ((← a.item s.frame).bind (·.node?))
  | none => s.frame.contextNode

def double (s : Site) (n : Nat) : Eval Binary := do
  let a ← Eval.require .typeMismatch (← (s.arg n).value? s.frame)
  Eval.require .typeMismatch (← Eval.ofExcept a.untypedToDouble).toDouble?

def window (s : Site) : Eval Window := do
  let start ← s.double 1
  if s.args.length < 3 then return ⟨start, none⟩ else return ⟨start, some (← s.double 2)⟩

/-- The first argument as numbers, untyped values read as doubles. -/
def numbers (s : Site) : Eval (List Atomic) :=
  (((s.arg 0).values s.frame).mapM fun a => do
    let a ← Eval.ofExcept a.untypedToDouble
    if a.isNumeric then return a else Eval.fail .invalidArgument).toList

def total (first : Atomic) (rest : List Atomic) : Eval Atomic :=
  Eval.ofExcept (rest.foldlM (fun a b => a.arithmetic .add b) first)

def sum (s : Site) : Eval (List Item) := do
  match ← s.numbers with
  | a :: as => return optional (some (← total a as))
  | [] => if s.args.length < 2 then return number 0 else s.list 1

def average (s : Site) : Eval (List Item) := do
  match ← s.numbers with
  | a :: as =>
    let t ← total a as
    return optional (some (← Eval.ofExcept (t.arithmetic .divide (.ofInt (as.length + 1)))))
  | [] => return []

/-- The value that compares so with all others. If one is not a number, it is the result. -/
def extreme (s : Site) (op : ComparisonOp) : Eval (List Item) := do
  let best ← ((s.arg 0).values s.frame).forIn none fun best a => do
    let a ← Eval.ofExcept a.untypedToDouble
    if a.isNaN then return .done (some a)
    match best with
    | none => return .yield (some a)
    | some b => return .yield (some (if ← Eval.ofExcept (a.compareValues op b) then a else b))
  return optional best

/-- Values that are equal, or both not numbers, count once. -/
def distinct (s : Site) : Eval (List Item) := do
  let found ← ((s.arg 0).values s.frame).forIn [] fun found a =>
    let seen := found.any fun b => (b.isNaN && a.isNaN)
      || (b.compareValues .eq a).toOption.getD Bool.false
    return .yield (if seen then found else a :: found)
  return found.reverse.map .atomic

def subsequence (s : Site) : Eval (List Item) := do
  let w ← s.window
  let (found, _) ← (s.items 0).forIn (([] : List Item), 1) fun (found, n) x =>
    if w.contains n then return .yield (x :: found, n + 1)
    else if w.reached n then return .done (found, n)
    else return .yield (found, n + 1)
  return found.reverse

/-- The elements of the target's document with one of the identifiers. -/
def byId (s : Site) : Eval (List Item) := do
  let ids := (← s.texts 0).flatMap words
  let i ← s.target 1
  let root ← Eval.require .noContextDocument
    (((← Eval.forest).root? i).filter (·.content.isDocument))
  let identified (t : Tree) : Bool := t.attributes.any fun u => match u.content with
    | .attr n v => n.localPart == "id" && (n.uri.isEmpty || n.uri == Namespaces.xml)
        && ids.contains (String.ofList (Blank.trim v.toList))
    | _ => Bool.false
  return (root.preorder.filter fun t => t.content.isElement && identified t).map (.node ·.id)

def byKey (s : Site) (c : DynamicContext) : Eval (List Item) := do
  let name ← Eval.require .unknownKey (keyName? (← s.text 0))
  let resolve ← Eval.require .unknownKey c.keys
  let i ← s.target 2
  let values ← s.texts 1
  let f ← Eval.forest
  let root := ((f.root? i).map (·.id)).getD i
  let found ← values.mapM fun v => Eval.ofExcept (resolve f name v root)
  return (← Eval.ordering fun t o => o.sort t found.flatten).map .node

/-- The name of a node, given the node and its ancestors; empty if it has none. -/
def lexicalName (chain : List Tree) : Eval String :=
  match chain.head?.bind (·.content.name?) with
  | some n => Eval.require .undeclaredPrefix (Xml.lexicalName? chain n)
  | none => return ""

/-- Calls a function. -/
def call (s : Site) (c : DynamicContext) : Builtin → Eval (List Item)
  | .true => return boolean Bool.true
  | .false => return boolean Bool.false
  | .boolean => return boolean (← (s.arg 0).truth s.frame)
  | .not => return boolean !(← (s.arg 0).truth s.frame)
  | .position => return number (← Eval.require .absentDynamic (s.frame.focus.map (·.position)))
  | .last => return number (← Eval.require .absentDynamic (s.frame.focus.bind (·.size)))
  | .count => return number (← (s.items 0).forIn 0 fun n _ => return .yield (n + 1))
  | .empty => return boolean (← (s.items 0).head?).isNone
  | .exists => return boolean (← (s.items 0).head?).isSome
  | .string => return string (← s.subjectText)
  | .data =>
    if s.implicit then return [.atomic (← Eval.value (← s.frame.contextItem))]
    else return (← ((s.arg 0).values s.frame).toList).map .atomic
  | .number => do
    let a ← (← s.subject).mapM Eval.value
    return [.atomic (.double ((a.bind (·.toDouble.toOption)).getD .nan))]
  | .sum => s.sum
  | .avg => s.average
  | .min => s.extreme .lt
  | .max => s.extreme .gt
  | .concat => return string (String.join (← s.args.mapM (·.text s.frame)))
  | .stringLength => return number (← s.subjectText).length
  | .contains => return boolean (let a := ← s.text 0; let b := ← s.text 1; occurs b.toList a.toList)
  | .startsWith => return boolean (let a := ← s.text 0; let b := ← s.text 1; b.toList.isPrefixOf a.toList)
  | .endsWith => return boolean (let a := ← s.text 0; let b := ← s.text 1; b.toList.isSuffixOf a.toList)
  | .stringJoin => do
    let separator ← s.text 1
    return string (separator.intercalate (← s.texts 0))
  | .substring => do
    let t ← s.text 0
    let w ← s.window
    return string (String.ofList ((t.toList.zipIdx.filter fun (_, n) => w.contains (n + 1)).map (·.1)))
  | .upperCase => return string (String.ofList (Case.upper (← s.text 0).toList))
  | .lowerCase => return string (String.ofList (Case.lower (← s.text 0).toList))
  | .normalizeSpace => return string (" ".intercalate (words (← s.subjectText)))
  | .name => do
    let i ← s.subjectNode
    let f ← Eval.forest
    return string (← lexicalName ((i.map f.chain).getD []))
  | .localName => do
    let i ← s.subjectNode
    let f ← Eval.forest
    let name := i.bind fun i => (f.content? i).bind (·.name?)
    return string ((name.map (·.localPart)).getD "")
  | .root => do
    let i ← s.subjectNode
    let f ← Eval.forest
    return (i.bind fun i => (f.root? i).map fun t => .node t.id).toList
  | .subsequence => s.subsequence
  | .reverse => return (← s.list 0).reverse
  | .distinctValues => s.distinct
  | .head => return (← (s.items 0).head?).toList
  | .tail => return (← s.list 0).drop 1
  | .exactlyOne => do
    let xs ← s.list 0
    if xs.length = 1 then return xs else Eval.fail .notExactlyOne
  | .zeroOrOne => do
    let xs ← s.list 0
    if xs.length < 2 then return xs else Eval.fail .moreThanOne
  | .id => s.byId
  | .key => s.byKey c
  | .currentGroup => Eval.fail .absentDynamic
  | .regexGroup => return string ""
  | .error => Eval.fail .raised

end Site
end Call
end XPath
