/-! How many items a sequence may have, as far as is known before a query runs. -/
namespace XPath

inductive Cardinality where
  | empty | one | zeroOrOne | zeroOrMore | oneOrMore
  deriving DecidableEq, Repr, Inhabited

namespace Cardinality

/-- The least and the greatest length; no greatest length means unlimited. -/
def bounds : Cardinality → Nat × Option Nat
  | empty => (0, some 0)
  | one => (1, some 1)
  | zeroOrOne => (0, some 1)
  | zeroOrMore => (0, none)
  | oneOrMore => (1, none)

/-- The narrowest cardinality that covers the bounds. -/
def ofBounds (min : Nat) : Option Nat → Cardinality
  | some 0 => empty
  | some 1 => if 1 ≤ min then one else zeroOrOne
  | _ => if 1 ≤ min then oneOrMore else zeroOrMore

def ofLength (n : Nat) : Cardinality := ofBounds n (some n)

/-- Whether a sequence of that length fits. -/
def allows (c : Cardinality) (n : Nat) : Bool := c.bounds.1 ≤ n && c.bounds.2.all (n ≤ ·)

def allowsEmpty (c : Cardinality) : Bool := c.bounds.1 == 0

def atMostOne : Cardinality → Bool
  | empty | one | zeroOrOne => true
  | zeroOrMore | oneOrMore => false

def allowsMany (c : Cardinality) : Bool := !c.atMostOne

/-- Whether every length of `b` fits `a`. -/
def contains (a b : Cardinality) : Bool :=
  a.bounds.1 ≤ b.bounds.1 && match a.bounds.2, b.bounds.2 with
    | none, _ => true
    | some _, none => false
    | some m, some n => n ≤ m

/-- Whether some length fits both. -/
def overlaps (a b : Cardinality) : Bool :=
  let low := max a.bounds.1 b.bounds.1
  match a.bounds.2, b.bounds.2 with
  | none, none => true
  | some m, none | none, some m => low ≤ m
  | some m, some n => low ≤ min m n

/-- One sequence after the other. -/
def concat (a b : Cardinality) : Cardinality :=
  ofBounds (a.bounds.1 + b.bounds.1) (match a.bounds.2, b.bounds.2 with
    | some m, some n => some (m + n)
    | _, _ => none)

/-- A sequence of `b` for every item of a sequence of `a`. -/
def product (a b : Cardinality) : Cardinality :=
  ofBounds (a.bounds.1 * b.bounds.1) (match a.bounds.2, b.bounds.2 with
    | some 0, _ | _, some 0 => some 0
    | some m, some n => some (m * n)
    | _, _ => none)

/-- The same, or empty. -/
def orEmpty (a : Cardinality) : Cardinality := ofBounds 0 a.bounds.2

/-- One of two alternatives. Other than with the empty and optional forms the answer is coarse. -/
def join : Cardinality → Cardinality → Cardinality
  | empty, x | x, empty => x.orEmpty
  | one, one => one
  | one, zeroOrOne | zeroOrOne, one | zeroOrOne, zeroOrOne => zeroOrOne
  | oneOrMore, oneOrMore => oneOrMore
  | _, _ => zeroOrMore

def indicator : Cardinality → String
  | empty | one => ""
  | zeroOrOne => "?"
  | zeroOrMore => "*"
  | oneOrMore => "+"

def display : Cardinality → String
  | empty => "empty"
  | one => "exactly-one"
  | zeroOrOne => "zero-or-one"
  | zeroOrMore => "zero-or-more"
  | oneOrMore => "one-or-more"

end Cardinality
end XPath
