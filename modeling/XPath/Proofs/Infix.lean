import XPath.Proofs.Spelling
import XPath.Proofs.Parsing

/-!
The binary operators of the expression grammar, and how operands that are joined by them are read: what a level takes
for an operand, chains of operands at a level where operators associate to the left, and the end of such a chain.
-/
namespace XPath

namespace Expr

mutual

/-- The expression with every location forgotten. -/
def unlocated : Expr → Expr
  | leaf n op => leaf { n with location := 0 } op
  | unary n op a => unary { n with location := 0 } op a.unlocated
  | binary n op a b => binary { n with location := 0 } op a.unlocated b.unlocated
  | ternary n op a b c => ternary { n with location := 0 } op a.unlocated b.unlocated c.unlocated
  | nary n op args => nary { n with location := 0 } op (unlocatedList args)

def unlocatedList : List Expr → List Expr
  | [] => []
  | e :: es => e.unlocated :: unlocatedList es

end

@[simp] theorem unlocatedList_eq (es : List Expr) : unlocatedList es = es.map unlocated := by
  induction es with
  | nil => rfl
  | cons e es ih => rw [unlocatedList, ih, List.map_cons]

@[simp] theorem unlocated_mkLeaf (op : LeafOp) (at' : LocationId) : (mkLeaf op at').unlocated = mkLeaf op 0 := rfl

@[simp] theorem unlocated_mkBinary (op : BinaryOp) (a b : Expr) (at' : LocationId) :
    (mkBinary op a b at').unlocated = mkBinary op a.unlocated b.unlocated 0 := rfl

@[simp] theorem unlocated_callAt (f : Builtin) (args : List Expr) (at' : LocationId) :
    (callAt f args at').unlocated = callAt f (args.map unlocated) 0 := by
  rw [← unlocatedList_eq]
  rfl

/-- One more operand of `||` behind those of the left side, if that is such a call. -/
def joined (a b : Expr) : Expr :=
  match a with
  | nary _ (.call (.builtin .concat)) args => callAt .concat (args ++ [b]) 0
  | a => callAt .concat [a, b] 0

theorem joined_of_not {a : Expr} (h : a.isCallTo .concat = false) (b : Expr) : a.joined b = callAt .concat [a, b] 0 := by
  unfold joined
  split
  · cases h
  · rfl

theorem foldl_joined_callAt (args items : List Expr) :
    items.foldl joined (callAt .concat args 0) = callAt .concat (args ++ items) 0 := by
  induction items generalizing args with
  | nil => rw [List.append_nil, List.foldl_nil]
  | cons b items ih =>
    have hjoined : (callAt .concat args 0).joined b = callAt .concat (args ++ [b]) 0 := rfl
    rw [List.foldl_cons, hjoined, ih, List.append_assoc, List.singleton_append]

/-- A whole chain of operands of `||` is one call. -/
theorem foldl_joined {a : Expr} (h : a.isCallTo .concat = false) {items : List Expr} (hitems : items ≠ []) :
    items.foldl joined a = callAt .concat (a :: items) 0 := by
  obtain ⟨b, items, rfl⟩ := List.exists_cons_of_ne_nil hitems
  rw [List.foldl_cons, joined_of_not h, foldl_joined_callAt]
  rfl

end Expr

namespace OperatorLevel

/-- How tightly the operators of a level bind. -/
def rank : OperatorLevel → ℕ
  | or => 0
  | and => 1
  | comparison => 2
  | concat => 3
  | range => 4
  | additive => 5
  | multiplicative => 6
  | union => 7
  | intersect => 8

theorem rank_le (ℓ : OperatorLevel) : ℓ.rank ≤ 8 := by cases ℓ <;> decide

theorem rank_tighter {ℓ ℓ' : OperatorLevel} (h : ℓ.tighter? = some ℓ') : ℓ'.rank = ℓ.rank + 1 := by
  cases ℓ <;> cases h <;> rfl

theorem exists_tighter {ℓ : OperatorLevel} (h : ℓ.rank < 8) : ∃ ℓ', ℓ.tighter? = some ℓ' := by
  cases ℓ <;> first | exact ⟨_, rfl⟩ | exact absurd h (by decide)

theorem eq_of_rank {ℓ ℓ' : OperatorLevel} (h : ℓ.rank = ℓ'.rank) : ℓ = ℓ' := by
  cases ℓ <;> cases ℓ' <;> first | rfl | cases h

end OperatorLevel

/-- The binary operators that are written between their operands. -/
inductive Infix where
  | or
  | and
  | general (op : ComparisonOp)
  | value (op : ComparisonOp)
  | node (op : NodeComparisonOp)
  | concat
  | range
  | arithmetic (op : ArithmeticOp)
  | bar
  | union
  | intersect
  | except
  deriving DecidableEq, Repr

namespace Infix

def level : Infix → OperatorLevel
  | or => .or
  | and => .and
  | general _ | value _ | node _ => .comparison
  | concat => .concat
  | range => .range
  | arithmetic .add | arithmetic .subtract => .additive
  | arithmetic _ => .multiplicative
  | bar | union => .union
  | intersect | except => .intersect

def token : Infix → Token
  | or => .name "or"
  | and => .name "and"
  | general .eq => .symbol .equal
  | general .ne => .symbol .notEqual
  | general .lt => .symbol .less
  | general .le => .symbol .lessEqual
  | general .gt => .symbol .greater
  | general .ge => .symbol .greaterEqual
  | value .eq => .name "eq"
  | value .ne => .name "ne"
  | value .lt => .name "lt"
  | value .le => .name "le"
  | value .gt => .name "gt"
  | value .ge => .name "ge"
  | node .is => .name "is"
  | node .precedes => .symbol .precedes
  | node .follows => .symbol .follows
  | concat => .symbol .doublePipe
  | range => .name "to"
  | arithmetic .add => .symbol .plus
  | arithmetic .subtract => .symbol .minus
  | arithmetic .multiply => .symbol .asterisk
  | arithmetic .divide => .name "div"
  | arithmetic .integerDivide => .name "idiv"
  | arithmetic .modulo => .name "mod"
  | bar => .symbol .pipe
  | union => .name "union"
  | intersect => .name "intersect"
  | except => .name "except"

def spelling (x : Infix) : String :=
  match x.token with
  | .name s => s
  | .symbol s => s.spelling
  | _ => ""

/-- What the operator becomes. Concatenation becomes a call. -/
def operator? : Infix → Option BinaryOp
  | or => some .or
  | and => some .and
  | general op => some (.generalComparison op)
  | value op => some (.valueComparison op)
  | node op => some (.nodeComparison op)
  | concat => none
  | range => some .range
  | arithmetic op => some (.arithmetic op)
  | bar | union => some (.set .union)
  | intersect => some (.set .intersect)
  | except => some (.set .except)

/-- The operator applied to its operands. -/
def apply (x : Infix) (a b : Expr) : Expr :=
  match x.operator? with
  | some op => .mkBinary op a b 0
  | none => a.joined b

theorem operator?_token {x : Infix} {op : BinaryOp} (h : x.operator? = some op) : x.level.operator? x.token = some op := by
  cases x <;> cases h <;> first | rfl | (rename_i o; cases o <;> rfl)

/-- These are all the operators that the grammar has at its levels. -/
theorem operator?_iff {ℓ : OperatorLevel} {t : Token} {op : BinaryOp} :
    ℓ.operator? t = some op ↔ ∃ x : Infix, x.level = ℓ ∧ x.token = t ∧ x.operator? = some op := by
  constructor
  · intro h
    unfold OperatorLevel.operator? at h
    split at h <;> cases h
    exacts [⟨or, rfl, rfl, rfl⟩, ⟨and, rfl, rfl, rfl⟩, ⟨general .eq, rfl, rfl, rfl⟩, ⟨general .ne, rfl, rfl, rfl⟩,
      ⟨general .lt, rfl, rfl, rfl⟩, ⟨general .le, rfl, rfl, rfl⟩, ⟨general .gt, rfl, rfl, rfl⟩,
      ⟨general .ge, rfl, rfl, rfl⟩, ⟨node .precedes, rfl, rfl, rfl⟩, ⟨node .follows, rfl, rfl, rfl⟩,
      ⟨value .eq, rfl, rfl, rfl⟩, ⟨value .ne, rfl, rfl, rfl⟩, ⟨value .lt, rfl, rfl, rfl⟩, ⟨value .le, rfl, rfl, rfl⟩,
      ⟨value .gt, rfl, rfl, rfl⟩, ⟨value .ge, rfl, rfl, rfl⟩, ⟨node .is, rfl, rfl, rfl⟩, ⟨range, rfl, rfl, rfl⟩,
      ⟨arithmetic .add, rfl, rfl, rfl⟩, ⟨arithmetic .subtract, rfl, rfl, rfl⟩, ⟨arithmetic .multiply, rfl, rfl, rfl⟩,
      ⟨arithmetic .divide, rfl, rfl, rfl⟩, ⟨arithmetic .integerDivide, rfl, rfl, rfl⟩,
      ⟨arithmetic .modulo, rfl, rfl, rfl⟩, ⟨bar, rfl, rfl, rfl⟩, ⟨union, rfl, rfl, rfl⟩, ⟨intersect, rfl, rfl, rfl⟩,
      ⟨except, rfl, rfl, rfl⟩]
  · rintro ⟨x, rfl, rfl, h⟩
    exact operator?_token h

/-- An operator stands at one level. -/
theorem operator?_of_level {x : Infix} {ℓ : OperatorLevel} (h : x.level ≠ ℓ) : ℓ.operator? x.token = none := by
  cases x <;> (try rename_i o; cases o) <;> cases ℓ <;> first | rfl | exact absurd rfl h

theorem eq_concat {x : Infix} (h : x.token = .symbol .doublePipe) : x = concat := by
  cases x <;> (try rename_i o; cases o) <;> first | rfl | cases h

theorem operator?_eq_none {x : Infix} (h : x.operator? = none) : x = concat := by
  cases x <;> first | rfl | cases h

theorem level_ne_concat {x : Infix} {op : BinaryOp} (h : x.operator? = some op) : x.level ≠ .concat := by
  have htoken := operator?_token h
  intro hlevel
  rw [hlevel] at htoken
  cases htoken

theorem exists_operator? {x : Infix} (h : x.level ≠ .concat) : ∃ op, x.operator? = some op := by
  cases hop : x.operator? with
  | some op => exact ⟨op, rfl⟩
  | none => exact absurd (operator?_eq_none hop ▸ rfl) h

/-- The operators that are names. -/
def names : List String :=
  ["or", "and", "eq", "ne", "lt", "le", "gt", "ge", "is", "to", "div", "idiv", "mod", "union", "intersect", "except"]

/-- The operators that are symbols. -/
def symbols : List Symbol :=
  [.equal, .notEqual, .less, .lessEqual, .greater, .greaterEqual, .precedes, .follows, .doublePipe, .plus, .minus,
    .asterisk, .pipe]

theorem token_cases (x : Infix) : (∃ s ∈ names, x.token = .name s) ∨ ∃ y ∈ symbols, x.token = .symbol y := by
  cases x <;> (try rename_i o; cases o) <;>
    first | exact .inl ⟨_, by decide, rfl⟩ | exact .inr ⟨_, by decide, rfl⟩

theorem token_ne_name {s : String} (h : s ∉ names) (x : Infix) : x.token ≠ .name s := by
  obtain ⟨s', hs', htoken⟩ | ⟨y, -, htoken⟩ := x.token_cases <;> rw [htoken]
  · rintro ⟨⟩
    exact h hs'
  · nofun

theorem token_ne_symbol {y : Symbol} (h : y ∉ symbols) (x : Infix) : x.token ≠ .symbol y := by
  obtain ⟨s, -, htoken⟩ | ⟨y', hy', htoken⟩ := x.token_cases <;> rw [htoken]
  · nofun
  · rintro ⟨⟩
    exact h hy'

theorem spells (x : Infix) : Lexer.Spells x.spelling.toList x.token := by
  obtain ⟨s, hs, htoken⟩ | ⟨y, hy, htoken⟩ := x.token_cases
  · have hname : ∀ s ∈ names, Lexer.isName s.toList := by decide
    have hspells := Lexer.spells_name (hname s hs)
    rw [String.ofList_toList] at hspells
    rw [spelling, htoken]
    exact hspells
  · rw [spelling, htoken]
    refine Lexer.spells_symbol ?_
    rintro rfl
    exact absurd hy (by decide)

end Infix
end XPath
