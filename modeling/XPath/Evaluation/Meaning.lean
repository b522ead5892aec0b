import XPath.Evaluation.Operators

/-! The meaning of an expression: how it evaluates, and how a variable is bound to it. -/
namespace XPath

namespace Expr

/-- The variable that the expression is. -/
def reference? : Expr → Option VariableRef
  | leaf _ (.variable r) => some r
  | _ => none

/-- A variable without its first items: the variable and how many are dropped. -/
def tail? : Expr → Option (VariableRef × Nat)
  | unary _ (.slice min none) a => a.reference?.map (·, min - 1)
  | nary _ (.call (.builtin .tail)) [a] => a.reference?.map (·, 1)
  | _ => none

/-- The variable that the first of two parts is. -/
def head? : Expr → Option VariableRef
  | nary _ .block [a, _] => a.reference?
  | _ => none

/-- The value of an expression for a variable, obtained as its mode says; `parts` are the operands. -/
def bound (c : DynamicContext) (e : Expr) (own : Ways) (parts : List Ways) (f : Frame) : Eval Value := do
  let all := do return Value.items (← own.toList f)
  match e.mode with
  | .returnEmpty => return .items []
  | .alreadyValue | .iterateAndMaterialize => all
  | .singleItem => return .items (← own.item f).toList
  | .pushProduction => return .items (← own.push f)
  | .evaluateVariable => match e.reference? with
    | some r => f.valueOf c r
    | none => all
  | .materializeVariable => match e.reference? with
    | some r => return .items (← (← f.valueOf c r).toList)
    | none => all
  | .oneShotClosure slots => return .deferred (← Deferred.create false (own.items (f.capture slots))) 0
  | .memoClosure slots => return .deferred (← Deferred.create true (own.items (f.capture slots))) 0
  | .lazyTail => match e.tail? with
    | some (r, n) => (← f.valueOf c r).tail n
    | none => all
  | .sharedAppend => match e.head?, parts with
    | some r, [_, rest] => do
      let xs ← (← f.valueOf c r).toList
      return .items (xs ++ (← rest.toList f))
    | _, _ => all

def meaningOf (c : DynamicContext) (e : Expr) (parts : List Ways) (own : Ways) : Meaning :=
  ⟨own, e.bound c own parts⟩

mutual

def meaning (c : DynamicContext) : Expr → Meaning
  | leaf n op => meaningOf c (leaf n op) [] (op.ways c n)
  | unary n op a =>
    let x := a.meaning c
    meaningOf c (unary n op a) [x.toWays] (op.ways n x.toWays)
  | binary n op a b =>
    let x := a.meaning c
    let y := b.meaning c
    meaningOf c (binary n op a b) [x.toWays, y.toWays] (op.ways n x y)
  | ternary n op a b d =>
    let x := (a.meaning c).toWays
    let y := (b.meaning c).toWays
    let z := (d.meaning c).toWays
    meaningOf c (ternary n op a b d) [x, y, z] (op.ways n (a, b) x y z)
  | nary n op args =>
    let xs := (meanings c args).map (·.toWays)
    meaningOf c (nary n op args) xs (op.ways c n xs)

def meanings (c : DynamicContext) : List Expr → List Meaning
  | [] => []
  | e :: es => e.meaning c :: meanings c es

end

end Expr
end XPath
