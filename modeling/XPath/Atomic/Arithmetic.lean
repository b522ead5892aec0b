import XPath.Atomic.Cast

/-! Arithmetic on atomic values. Untyped operands are read as doubles, and two numbers of different
types are brought to the wider one. -/
namespace XPath.Atomic

/-- Brings two numbers to a common type; other pairs stay as they are. -/
def promote (a b : Atomic) : Except ErrorCode (Atomic × Atomic) :=
  match a, b with
  | decimal _, float _ | integer .., float _ => return (float (← a.toFloat), b)
  | float _, decimal _ | float _, integer .. => return (a, float (← b.toFloat))
  | decimal _, double _ | integer .., double _ | float _, double _ =>
    return (double (← a.toDouble), b)
  | double _, decimal _ | double _, integer .. | double _, float _ =>
    return (a, double (← b.toDouble))
  | decimal _, integer .. => return (a, decimal (← b.toDecimal))
  | integer .., decimal _ => return (decimal (← a.toDecimal), b)
  | _, _ => .ok (a, b)

/-- An untyped operand of arithmetic is read as a double. -/
def untypedToDouble : Atomic → Except ErrorCode Atomic
  | untyped s => ((untyped s).toDouble).map double
  | a => .ok a

def decimalArithmetic (op : ArithmeticOp) (a b : Decimal) : Except ErrorCode Atomic :=
  let nonzero (r : Except ErrorCode Atomic) := if b.isZero then .error .divisionByZero else r
  match op with
  | .add => (orElse .overflow (a.add? b)).map decimal
  | .subtract => (orElse .overflow (a.sub? b)).map decimal
  | .multiply => (orElse .overflow (a.mul? b)).map decimal
  | .divide => nonzero ((orElse .overflow (a.div? b)).map decimal)
  | .integerDivide => nonzero ((orElse .overflow (a.div? b)).map fun d => ofInt d.truncate)
  | .modulo => nonzero ((orElse .overflow (a.rem? b)).map decimal)

/-- Division of integers gives a decimal. -/
def integerArithmetic (op : ArithmeticOp) (a b : Int) : Except ErrorCode Atomic :=
  let nonzero (r : Int) := if b = 0 then .error .divisionByZero else .ok (ofInt r)
  match op with
  | .add => .ok (ofInt (a + b))
  | .subtract => .ok (ofInt (a - b))
  | .multiply => .ok (ofInt (a * b))
  | .divide => do
    let x ← orElse .overflow (Decimal.ofInt? a)
    let y ← orElse .overflow (Decimal.ofInt? b)
    decimalArithmetic .divide x y
  | .integerDivide => nonzero (a.tdiv b)
  | .modulo => nonzero (a.tmod b)

/-- Division by zero is an error only where the quotient has to be an integer. -/
def floatArithmetic (f : FloatFormat) (op : ArithmeticOp) (a b : Binary) :
    Except ErrorCode Binary :=
  match op with
  | .add => .ok (a.add f b)
  | .subtract => .ok (a.sub f b)
  | .multiply => .ok (a.mul f b)
  | .divide => .ok (a.div f b)
  | .integerDivide =>
    if b.isZero then .error .divisionByZero
    else
      let q := (a.div f b).trunc f
      if q.isFinite then .ok q else .error .overflow
  | .modulo => .ok (a.rem f b)

def arithmetic (op : ArithmeticOp) (a b : Atomic) : Except ErrorCode Atomic := do
  let a ← a.untypedToDouble
  let b ← b.untypedToDouble
  match ← promote a b with
  | (integer _ i, integer _ j) => integerArithmetic op i j
  | (decimal x, decimal y) => decimalArithmetic op x y
  | (float x, float y) => (floatArithmetic .single op x y).map float
  | (double x, double y) => (floatArithmetic .double op x y).map double
  | _ => .error .typeMismatch

/-- Unary minus; a derived integer becomes a plain one. -/
def negate (a : Atomic) : Except ErrorCode Atomic := do
  match ← a.untypedToDouble with
  | integer _ i => .ok (ofInt (-i))
  | decimal d => .ok (decimal d.neg)
  | float x => .ok (float x.neg)
  | double x => .ok (double x.neg)
  | _ => .error .typeMismatch

/-- Unary plus leaves a number as it is. -/
def plus (a : Atomic) : Except ErrorCode Atomic := do
  let a ← a.untypedToDouble
  if a.isNumeric then .ok a else .error .typeMismatch

end XPath.Atomic
