import XPath.Expr.Display
import XPath.Atomic.Compare

/-! Rewrites that need no types and no context: constant folding, `[last()]`, operations over an empty
source, and flat comma sequences. Applied from the leaves up, once. -/
namespace XPath.Expr

def booleanAt (b : Bool) (at' : LocationId) : Expr := .constantAt (.boolean b) at'

/-- The constant that an operation on one constant gives. -/
def fold (f : Atomic → Except ErrorCode Atomic) (a : Expr) : Option Constant := do
  let c ← a.constant?
  let v ← (f (.ofConstant c)).toOption
  v.toConstant?

/-- The constant that an operation on two constants gives. -/
def fold₂ (f : Atomic → Atomic → Except ErrorCode Atomic) (a b : Expr) : Option Constant := do
  let c ← a.constant?
  let d ← b.constant?
  let v ← (f (.ofConstant c) (.ofConstant d)).toOption
  v.toConstant?

/-- The constant in place of an expression, if there is one. -/
def orConstant (e : Expr) : Option Constant → Expr
  | some c => .constantAt c e.location
  | none => e

/-- The truth of a literal, where it has one. -/
def constantTruth? : Expr → Option Bool
  | leaf _ (.literal []) => some false
  | leaf _ (.literal [c]) => some (Atomic.ofConstant c).truth
  | _ => none

def isLastCall : Expr → Bool
  | nary _ (.call (.builtin .last)) [] => true
  | _ => false

/-- Appends an operand to flat ones, of which the latest comes first: sequences are spliced and
neighbouring literals joined. -/
def pushFlat (flat : List Expr) : Expr → List Expr
  | leaf _ (.literal []) => flat
  | leaf n (.literal (c :: cs)) =>
    match flat with
    | leaf m (.literal ds) :: rest => leaf m (.literal (ds ++ c :: cs)) :: rest
    | _ => leaf n (.literal (c :: cs)) :: flat
  | e => e :: flat

mutual

/-- The operand, or the operands inside it if it is a sequence itself, appended to flat ones. -/
def splice (flat : List Expr) : Expr → List Expr
  | nary _ .block items => spliceAll flat items
  | leaf n op => pushFlat flat (leaf n op)
  | unary n op a => unary n op a :: flat
  | binary n op a b => binary n op a b :: flat
  | ternary n op a b c => ternary n op a b c :: flat
  | nary n (.call f) args => nary n (.call f) args :: flat

def spliceAll (flat : List Expr) : List Expr → List Expr
  | [] => flat
  | e :: es => spliceAll (splice flat e) es

end

/-- A comma sequence without nesting; one operand stands for itself. -/
def flatten (items : List Expr) (at' : LocationId) : Expr :=
  match spliceAll [] items with
  | [] => .emptyAt at'
  | [e] => e
  | flat => .mkNary .block flat.reverse at'

def simplifyUnary (e : Expr) (op : UnaryOp) (a : Expr) : Expr :=
  match op with
  | .negate => e.orConstant (fold Atomic.negate a)
  | .plus => e.orConstant (fold Atomic.plus a)
  | .sort => if a.isEmptyLiteral || a.isSort then a else e
  | .first | .last => if a.isEmptyLiteral then a else e
  | _ => e

def simplifyBinary (e : Expr) (op : BinaryOp) (a b : Expr) : Expr :=
  match op with
  | .arithmetic op => e.orConstant (fold₂ (Atomic.arithmetic op) a b)
  | .valueComparison op =>
    e.orConstant (fold₂ (fun x y => (Atomic.compareValues op x y).map .boolean) a b)
  | .and => match a.constantTruth?, b.constantTruth? with
    | some false, _ => .booleanAt false e.location
    | some true, some t => .booleanAt t e.location
    | _, _ => e
  | .or => match a.constantTruth?, b.constantTruth? with
    | some true, _ => .booleanAt true e.location
    | some false, some t => .booleanAt t e.location
    | _, _ => e
  | .filter _ =>
    if a.isEmptyLiteral then a
    else if b.isLastCall then .mkUnary .last a e.location
    else e
  | .path | .for _ => if a.isEmptyLiteral then a else e
  | .quantified q _ => if a.isEmptyLiteral then .booleanAt (q == .every) e.location else e
  | _ => e

/-- One node whose operands are simple already. -/
def simplifyNode (e : Expr) : Expr :=
  match e with
  | leaf .. => e
  | unary _ op a => simplifyUnary e op a
  | binary _ op a b => simplifyBinary e op a b
  | ternary _ .if c a b => match c.constantTruth? with
    | some true => a
    | some false => b
    | none => e
  | ternary _ .indexedFilter .. => e
  | nary n .block items => flatten items n.location
  | nary n (.call (.builtin .true)) [] => .booleanAt true n.location
  | nary n (.call (.builtin .false)) [] => .booleanAt false n.location
  | nary _ (.call _) _ => e

mutual

def simplify : Expr → Expr
  | leaf n op => simplifyNode (leaf n op)
  | unary n op a => simplifyNode (unary n op a.simplify)
  | binary n op a b => simplifyNode (binary n op a.simplify b.simplify)
  | ternary n op a b c => simplifyNode (ternary n op a.simplify b.simplify c.simplify)
  | nary n op args => simplifyNode (nary n op (simplifyList args))

def simplifyList : List Expr → List Expr
  | [] => []
  | e :: es => e.simplify :: simplifyList es

end

end XPath.Expr
