import XPath.Grammar.Types

/-!
The expression grammar. Operators are read by level, from the loosest to the tightest; names are
resolved as they are read. The readers call each other with one unit of fuel less, and the fuel that
a source is given covers every nesting that its tokens can have.
-/
namespace XPath

/-- The levels of the binary operators, the loosest first. -/
inductive OperatorLevel where
  | or | and | comparison | concat | range | additive | multiplicative | union | intersect
  deriving DecidableEq, Repr

namespace OperatorLevel

/-- The next tighter level of binary operators. -/
def tighter? : OperatorLevel → Option OperatorLevel
  | or => some and
  | and => some comparison
  | comparison => some concat
  | concat => some range
  | range => some additive
  | additive => some multiplicative
  | multiplicative => some union
  | union => some intersect
  | intersect => none

/-- At these levels a second operator does not follow the right operand. -/
def isSingle : OperatorLevel → Bool
  | comparison | range => true
  | _ => false

/-- The operator that a token stands for between two operands of the level. -/
def operator? : OperatorLevel → Token → Option BinaryOp
  | or, .name "or" => some .or
  | and, .name "and" => some .and
  | comparison, .symbol .equal => some (.generalComparison .eq)
  | comparison, .symbol .notEqual => some (.generalComparison .ne)
  | comparison, .symbol .less => some (.generalComparison .lt)
  | comparison, .symbol .lessEqual => some (.generalComparison .le)
  | comparison, .symbol .greater => some (.generalComparison .gt)
  | comparison, .symbol .greaterEqual => some (.generalComparison .ge)
  | comparison, .symbol .precedes => some (.nodeComparison .precedes)
  | comparison, .symbol .follows => some (.nodeComparison .follows)
  | comparison, .name "eq" => some (.valueComparison .eq)
  | comparison, .name "ne" => some (.valueComparison .ne)
  | comparison, .name "lt" => some (.valueComparison .lt)
  | comparison, .name "le" => some (.valueComparison .le)
  | comparison, .name "gt" => some (.valueComparison .gt)
  | comparison, .name "ge" => some (.valueComparison .ge)
  | comparison, .name "is" => some (.nodeComparison .is)
  | range, .name "to" => some .range
  | additive, .symbol .plus => some (.arithmetic .add)
  | additive, .symbol .minus => some (.arithmetic .subtract)
  | multiplicative, .symbol .asterisk => some (.arithmetic .multiply)
  | multiplicative, .name "div" => some (.arithmetic .divide)
  | multiplicative, .name "idiv" => some (.arithmetic .integerDivide)
  | multiplicative, .name "mod" => some (.arithmetic .modulo)
  | union, .symbol .pipe => some (.set .union)
  | union, .name "union" => some (.set .union)
  | intersect, .name "intersect" => some (.set .intersect)
  | intersect, .name "except" => some (.set .except)
  | _, _ => none

end OperatorLevel

/-- The expressions that bind variables. -/
inductive BindingKeyword where
  | for | let | some | every
  deriving DecidableEq, Repr

namespace BindingKeyword

def spelling : BindingKeyword → String
  | .for => "for"
  | .let => "let"
  | .some => "some"
  | .every => "every"

def ofToken? : Token → Option BindingKeyword
  | .name "for" => Option.some .for
  | .name "let" => Option.some .let
  | .name "some" => Option.some .some
  | .name "every" => Option.some .every
  | _ => none

/-- Only these may declare the type of their variable. -/
def allowsType : BindingKeyword → Bool
  | .for | .let => true
  | _ => false

/-- The word before the body. -/
def bodyWord : BindingKeyword → String
  | .for | .let => "return"
  | _ => "satisfies"

def operator (slot : Slot) : BindingKeyword → BinaryOp
  | .for => .for slot
  | .let => .let slot
  | .some => .quantified .some slot
  | .every => .quantified .every slot

end BindingKeyword

/-- A variable with its source. -/
structure BindingClause where
  slot : Slot
  source : Expr
  location : LocationId

namespace BindingClause

/-- The first clause wraps all the others. -/
def wrap (k : BindingKeyword) (clauses : List BindingClause) (body : Expr) : Expr :=
  clauses.foldr (fun c e => .mkBinary (k.operator c.slot) c.source e c.location) body

end BindingClause

namespace Expr

/-- `descendant-or-self::node()` under a base, which is what a double slash stands for. -/
def descendantOrSelf (base : Expr) (at' : LocationId) : Expr :=
  .mkBinary .path base (.mkLeaf (.step .descendantOrSelf (.kind .anyNode)) at') at'

/-- A path is sorted before it becomes the left side of another. -/
def sortedPath : Expr → Expr
  | binary n .path a b => .mkUnary .sort (binary n .path a b) n.location
  | e => e

def pathStep (left step : Expr) (at' : LocationId) : Expr :=
  .mkBinary .path left.sortedPath step at'

end Expr

namespace Parser

def axisAndTest (test : Axis → Parser NodeTest) : Parser (Axis × NodeTest) := do
  if ← eatSymbol .atSign then return (.attr, ← test .attr)
  if ← eatSymbol .dotDot then return (.parent, .kind .anyNode)
  if ← checkNthSymbol 1 .doubleColon then
    let axis := match ← peek with
      | some (.name s) => Axis.ofSpelling? s
      | _ => none
    match axis with
    | none => expected "an axis name"
    | some axis =>
      advance
      advance
      return (axis, ← test axis)
  let t ← test .child
  -- the abbreviated axis follows an attribute or namespace kind test
  match t with
  | .kind (.attr _) => return (.attr, t)
  | .kind .namespaceNode => return (.ns, t)
  | _ => return (.child, t)

/-- Names on the attribute axis have no default namespace. -/
def nodeTest (axis : Axis) : Parser NodeTest := do
  if ← checkKindTest then return .kind (← kindTest)
  let some l ← peekLexeme | expected "a node test"
  match l.token with
  | .symbol .asterisk =>
    advance
    return .name .any
  | .anyLocal p =>
    advance
    return .name (.inNamespace (← resolvePrefix p l))
  | .anyNamespace s =>
    advance
    return .name (.localPart s)
  | .anyInUri u =>
    advance
    return .name (.inNamespace u)
  | _ =>
    let (n, _) ← qname (if axis = .attr then .none else .element)
    return .name (.name n)

/-- Whether the next token can begin a relative path. -/
def startsStep : Parser Bool := do
  return (← peek).any fun
    | .name _ | .prefixedName .. | .uriName .. | .anyLocal _ | .anyNamespace _ | .anyInUri _
    | .symbol .asterisk | .symbol .atSign | .symbol .dot | .symbol .dotDot | .symbol .dollar
    | .symbol .leftParen | .integer _ | .decimal _ | .double _ | .string _ => true
    | _ => false

/-- Whether a step of an axis comes next, and not a primary expression. -/
def startsAxisStep : Parser Bool := do
  let nameStep : Parser Bool := return !(← checkNthSymbol 1 .leftParen) || (← checkKindTest)
  match ← peek with
  | some (.symbol .atSign) | some (.symbol .dotDot) | some (.symbol .asterisk)
  | some (.anyLocal _) | some (.anyNamespace _) | some (.anyInUri _) => return true
  | some (.name s) =>
    if ← checkNthSymbol 1 .doubleColon then return true
    if s == "element" && (← checkNthQName 1) then return false
    if s == "text" && (← checkNthSymbol 1 .leftBrace) then return false
    nameStep
  | some (.prefixedName ..) | some (.uriName ..) => nameStep
  | _ => return false

/-- A variable in scope, else one that the static context declares. -/
def variableRef : Parser Expr := do
  let at' ← location
  expectSymbol .dollar
  let (n, l) ← qname .none
  match (← get).unit.lookup n with
  | some slot => return .mkLeaf (.variable (.range slot)) at'
  | none =>
    if ((← static).variableType n).isSome then return .mkLeaf (.variable (.global n)) at'
    failAt .undefinedName (.undeclaredVariable n) l

/-- In backwards-compatible mode an unknown function gives a warning. -/
def unknownFunction (n : QName) (arity : Nat) (l : Lexeme) : Parser FunctionRef := do
  let cause := StaticCause.unknownFunction n arity
  if (← static).backwardsCompatible then
    warnAt (cause.text ++ "; calling it will fail") l
    return .unresolved n
  failAt .unknownFunction cause l

/-- The function of that name that takes that many arguments. -/
def resolveFunction (n : QName) (arity : Nat) (l : Lexeme) : Parser FunctionRef := do
  let builtin? :=
    if n.uri = some Namespaces.functions then Builtin.lookup? n.localPart arity else none
  match builtin? with
  | some f => return .builtin f
  | none => unknownFunction n arity l

/-- A call, once its name and arguments are known. Constructor functions are casts. -/
def applyFunction (n : QName) (l : Lexeme) (args : List Expr) (at' : LocationId) : Parser Expr := do
  match args with
  | [operand] =>
    if n.uri = some Namespaces.schema then
      return .mkUnary (.cast (← resolveCastTarget n l) true) operand at'
    return .mkNary (.call (← resolveFunction n 1 l)) args at'
  | _ => return .mkNary (.call (← resolveFunction n args.length l)) args at'

/-- A type operator, which is two words, and the type that follows it. -/
def typeOperator (first second : String) (type : Parser UnaryOp) (operand : Expr) : Parser Expr := do
  let some (.name s) ← peekNth 1 | return operand
  if (← checkName first) && s == second then
    let at' ← location
    advance
    advance
    return .mkUnary (← type) operand at'
  return operand

/-- Any of `cast as`, `castable as`, `treat as` and `instance of`, in this order, each at most once. -/
def typeOperators (operand : Expr) : Parser Expr := do
  let e ← typeOperator "cast" "as" (return (fun (t, o) => .cast t o) (← singleType)) operand
  let e ← typeOperator "castable" "as" (return (fun (t, o) => .castable t o) (← singleType)) e
  let e ← typeOperator "treat" "as" (return .treat (← sequenceType)) e
  typeOperator "instance" "of" (return .instanceOf (← sequenceType)) e

/-- The signs before an operand: whether there are any, and whether they negate. -/
def signs : Nat → Bool → Bool → Parser (Bool × Bool)
  | 0, signed, negative => return (signed, negative)
  | n + 1, signed, negative => do
    if ← eatSymbol .minus then signs n true (!negative)
    else if ← eatSymbol .plus then signs n true negative
    else return (signed, negative)

/-- A run of signs counts as one; before a number only a minus shows. -/
def applySigns (signed negative : Bool) (operand : Expr) (at' : LocationId) : Expr :=
  let isNumber := match operand.constant? with
    | some (.integer _) | some (.decimal _) | some (.double _) => true
    | _ => false
  if negative then .mkUnary .negate operand at'
  else if signed && !isNumber then .mkUnary .plus operand at'
  else operand

def tooDeep : Parser α := fail .unsupported .nestedTooDeeply

/-- A new variable, in scope from here on. -/
def declare (n : QName) (type : Option SequenceType) : Parser Slot :=
  modifyGet fun s =>
    let (slot, unit) := s.unit.allocate n .range type
    (slot, { s with unit := unit.push n slot })

/-- A variable with its declared type, up to its source. -/
def clauseHead (k : BindingKeyword) : Parser (QName × Option SequenceType) := do
  expectSymbol .dollar
  let (n, _) ← qname .none
  let typed ← if k.allowsType then eatName "as" else pure false
  let type ← if typed then some <$> sequenceType else pure none
  if k = .let then expectSymbol .colonEqual else expectName "in"
  return (n, type)

mutual

/-- Expressions with commas between them. -/
def expr : Nat → Parser Expr
  | 0 => tooDeep
  | n + 1 => do
    let at' ← location
    let first ← exprSingle n
    if ← checkSymbol .comma then
      return .mkNary .block (first :: (← commaItems n)) at'
    return first

def commaItems : Nat → Parser (List Expr)
  | 0 => tooDeep
  | n + 1 => do
    if ← eatSymbol .comma then
      let e ← exprSingle n
      return e :: (← commaItems n)
    return []

def exprSingle : Nat → Parser Expr
  | 0 => tooDeep
  | n + 1 => do
    if ← checkNthSymbol 1 .dollar then
      if let some k := (← peek).bind BindingKeyword.ofToken? then
        return ← bindingExpr n k
    if (← checkName "if") && (← checkNthSymbol 1 .leftParen) then return ← conditional n
    operators n .or

/-- Operands of a level and tighter ones, joined by the operators of the level. -/
def operators : Nat → OperatorLevel → Parser Expr
  | 0, _ => tooDeep
  | n + 1, level => do
    let left ← operand n level
    match level with
    | .concat =>
      if ← checkSymbol .doublePipe then
        let at' ← location
        return .callAt .concat (left :: (← concatItems n)) at'
      return left
    | _ => moreOperators n level left

def moreOperators : Nat → OperatorLevel → Expr → Parser Expr
  | 0, _, _ => tooDeep
  | n + 1, level, left => do
    match (← peek).bind level.operator? with
    | none => return left
    | some op =>
      let at' ← location
      advance
      let e := Expr.mkBinary op left (← operand n level) at'
      if level.isSingle then return e else moreOperators n level e

def concatItems : Nat → Parser (List Expr)
  | 0 => tooDeep
  | n + 1 => do
    if ← eatSymbol .doublePipe then
      let e ← operand n .concat
      return e :: (← concatItems n)
    return []

def operand : Nat → OperatorLevel → Parser Expr
  | 0, _ => tooDeep
  | n + 1, level =>
    match level.tighter? with
    | some tighter => operators n tighter
    | none => do typeOperators (← unary n)

def unary : Nat → Parser Expr
  | 0 => tooDeep
  | n + 1 => do
    let at' ← location
    let (signed, negative) ← signs (← get).tokens.lexemes.length false false
    return applySigns signed negative (← path n) at'

/-- A lone slash is the root; whether a step follows is decided by one token. -/
def path : Nat → Parser Expr
  | 0 => tooDeep
  | n + 1 => do
    let at' ← location
    let root := Expr.mkLeaf .root at'
    if ← eatSymbol .slash then
      if !(← startsStep) then return root
      let step ← stepExpr n
      relativePath n (.mkBinary .path root step at') true at'
    else if ← eatSymbol .doubleSlash then
      let step ← stepExpr n
      relativePath n (.pathStep (root.descendantOrSelf at') step at') true at'
    else
      let first ← stepExpr n
      relativePath n first false first.location

/-- The rest of a path; `sorted` tells whether there has been a path operator. -/
def relativePath : Nat → Expr → Bool → LocationId → Parser Expr
  | 0, _, _, _ => tooDeep
  | n + 1, current, sorted, start => do
    let at' ← location
    if ← eatSymbol .slash then
      let step ← stepExpr n
      relativePath n (current.pathStep step at') true start
    else if ← eatSymbol .doubleSlash then
      let step ← stepExpr n
      relativePath n ((current.sortedPath.descendantOrSelf at').pathStep step at') true start
    else return if sorted then .mkUnary .sort current start else current

def stepExpr : Nat → Parser Expr
  | 0 => tooDeep
  | n + 1 => do
    if ← startsAxisStep then axisStep n
    else predicates n (← primary n)

/-- The predicates of a reverse axis see the nodes in axis order; the result is reversed at the end. -/
def axisStep : Nat → Parser Expr
  | 0 => tooDeep
  | n + 1 => do
    let at' ← location
    let (axis, test) ← axisAndTest nodeTest
    let e ← predicates n (.mkLeaf (.step axis test) at')
    return if axis.isReverse then .mkUnary .reverse e at' else e

def predicates : Nat → Expr → Parser Expr
  | 0, _ => tooDeep
  | n + 1, base => do
    if ← checkSymbol .leftBracket then predicates n (← predicate n base)
    else return base

def predicate : Nat → Expr → Parser Expr
  | 0, _ => tooDeep
  | n + 1, base => do
    let at' ← location
    expectSymbol .leftBracket
    let p ← expr n
    expectSymbol .rightBracket
    return .mkBinary (.filter true) base p at'

def primary : Nat → Parser Expr
  | 0 => tooDeep
  | n + 1 => do
    let at' ← location
    let constant (c : Constant) : Parser Expr := do
      advance
      return .constantAt c at'
    let call : Parser Expr := do
      if (← checkQName) && (← checkNthSymbol 1 .leftParen) then functionCall n
      else expected "an expression"
    match ← peek with
    | some (.integer i) => constant (.integer i)
    | some (.decimal d) => constant (.decimal d)
    | some (.double x) => constant (.double x)
    | some (.string s) => constant (.string s)
    | some (.symbol .dollar) => variableRef
    | some (.symbol .leftParen) => enclosed n .leftParen .rightParen
    | some (.symbol .dot) =>
      advance
      return .mkLeaf .contextItem at'
    | some (.name s) =>
      if s == "element" && (← checkNthQName 1) && (← checkNthSymbol 2 .leftBrace) then
        advance
        let (name, _) ← qname .element
        return .mkUnary (.element name) (← enclosed n .leftBrace .rightBrace) at'
      else if s == "text" && (← checkNthSymbol 1 .leftBrace) then
        advance
        return .mkUnary .text (← enclosed n .leftBrace .rightBrace) at'
      else call
    | _ => call

/-- An expression between brackets, or nothing. -/
def enclosed : Nat → Symbol → Symbol → Parser Expr
  | 0, _, _ => tooDeep
  | n + 1, left, right => do
    let at' ← location
    expectSymbol left
    if ← eatSymbol right then return .emptyAt at'
    let e ← expr n
    expectSymbol right
    return e

def functionCall : Nat → Parser Expr
  | 0 => tooDeep
  | n + 1 => do
    let at' ← location
    let (name, l) ← qname .function
    expectSymbol .leftParen
    let args ← if ← eatSymbol .rightParen then pure [] else arguments n
    applyFunction name l args at'

/-- At least one argument, up to the closing parenthesis. -/
def arguments : Nat → Parser (List Expr)
  | 0 => tooDeep
  | n + 1 => do
    let e ← exprSingle n
    if ← eatSymbol .rightParen then return [e]
    expectSymbol .comma
    return e :: (← arguments n)

def conditional : Nat → Parser Expr
  | 0 => tooDeep
  | n + 1 => do
    let at' ← location
    expectName "if"
    expectSymbol .leftParen
    let condition ← expr n
    expectSymbol .rightParen
    expectName "then"
    let yes ← exprSingle n
    expectName "else"
    let no ← exprSingle n
    return .mkTernary .if condition yes no at'

/-- Each variable comes into scope after its own source and goes out of it after the body. -/
def bindingExpr : Nat → BindingKeyword → Parser Expr
  | 0, _ => tooDeep
  | n + 1, k => do
    advance
    let (cs, body) ← inScope (clauses n k)
    return BindingClause.wrap k cs body

def clauses : Nat → BindingKeyword → Parser (List BindingClause × Expr)
  | 0, _ => tooDeep
  | n + 1, k => do
    let at' ← location
    let (name, type) ← clauseHead k
    let source ← exprSingle n
    let slot ← declare name type
    let clause : BindingClause := ⟨slot, source, at'⟩
    popping do
      if ← eatSymbol .comma then
        let (cs, body) ← clauses n k
        return (clause :: cs, body)
      expectName k.bodyWord
      return ([clause], ← exprSingle n)

end

/-- Fuel that is enough for the tokens that are left. -/
def fuel : Parser Nat := return 40 * ((← get).tokens.lexemes.length + 2)

end Parser

namespace Expr

/-- Reads the expression in a text from a byte offset on, where the line is `line`. The variables of the
unit are in scope, and its scope is left as it was found, whether or not the text can be read. -/
def parse (text : String) (start : Nat) (terminator : Terminator) (line : Nat)
    (context : StaticContext) (unit : CompileUnit) :
    Except StaticError Expr × CompileUnit × List Warning :=
  let p : Parser Expr := Parser.inScope do
    let e ← Parser.expr (← Parser.fuel)
    Parser.expectTerminator terminator
    return e
  p.run context .expression text start line unit

end Expr
end XPath
