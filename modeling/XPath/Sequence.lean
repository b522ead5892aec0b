/-!
Sequences as views of shared buffers. Slices share the buffer. A view that ends where its buffer ends is
extended in place, which no other view notices, as every view stops at its own end; any other view is
copied first.
-/
namespace XPath

/-- The items of a buffer from `start` up to `stop`. -/
structure Sequence where
  buffer : Nat
  start : Nat
  stop : Nat
  deriving DecidableEq, Repr, Inhabited

namespace Sequence

def length (s : Sequence) : Nat := s.stop - s.start

def isEmpty (s : Sequence) : Bool := s.start == s.stop

/-- The items from place `start` up to `stop`, as far as there are any. -/
def slice (s : Sequence) (start stop : Nat) : Sequence :=
  let stop := min stop s.length
  { s with start := s.start + min start stop, stop := s.start + stop }

def drop (s : Sequence) (n : Nat) : Sequence := s.slice n s.length

/-- Whether two sequences are views of the same buffer. -/
def shares (s t : Sequence) : Bool := s.buffer == t.buffer

end Sequence

/-- An iterator over a sequence, of which it holds a view of its own; the items before `index` have been
taken. -/
structure SequenceIterator where
  sequence : Sequence
  index : Nat
  deriving DecidableEq, Repr, Inhabited

namespace SequenceIterator

def ofSequence (s : Sequence) : SequenceIterator := ⟨s, 0⟩

/-- How many items are left. -/
def remaining (i : SequenceIterator) : Nat := i.sequence.length - i.index

def advance (i : SequenceIterator) : SequenceIterator := { i with index := i.index + 1 }

end SequenceIterator

/-- All buffers there are. -/
structure Buffers (α : Type) where
  buffers : Array (Array α) := #[]

namespace Buffers

variable {α : Type}

def buffer (b : Buffers α) (s : Sequence) : Array α := b.buffers[s.buffer]?.getD #[]

def toList (b : Buffers α) (s : Sequence) : List α := ((b.buffer s).extract s.start s.stop).toList

def get? (b : Buffers α) (s : Sequence) (n : Nat) : Option α :=
  if n < s.length then (b.buffer s)[s.start + n]? else none

def head? (b : Buffers α) (s : Sequence) : Option α := b.get? s 0

def last? (b : Buffers α) (s : Sequence) : Option α :=
  if s.length = 0 then none else b.get? s (s.length - 1)

/-- A sequence in a buffer of its own. -/
def ofList (b : Buffers α) (xs : List α) : Sequence × Buffers α :=
  (⟨b.buffers.size, 0, xs.length⟩, ⟨b.buffers.push xs.toArray⟩)

/-- The sequence with more items after it. -/
def extend (b : Buffers α) (s : Sequence) (xs : List α) : Sequence × Buffers α :=
  if xs.isEmpty then (s, b)
  else if s.stop = (b.buffer s).size then
    ({ s with stop := s.stop + xs.length }, ⟨b.buffers.modify s.buffer (· ++ xs.toArray)⟩)
  else b.ofList (b.toList s ++ xs)

/-- The next item of an iterator, if one is left. -/
def next? (b : Buffers α) (i : SequenceIterator) : Option (α × SequenceIterator) :=
  (b.get? i.sequence i.index).map fun x => (x, i.advance)

theorem remaining_of_next? {b : Buffers α} {i j : SequenceIterator} {x : α} (h : b.next? i = some (x, j)) :
    j.remaining < i.remaining := by
  simp only [next?, get?, Option.map_eq_some_iff] at h
  obtain ⟨y, hy, hj⟩ := h
  cases hj
  split at hy
  · simp only [SequenceIterator.remaining, SequenceIterator.advance]
    omega
  · cases hy

/-- The items that an iterator gives until it has none. -/
def rest (b : Buffers α) (i : SequenceIterator) : List α :=
  match _h : b.next? i with
  | none => []
  | some (x, j) => x :: b.rest j
termination_by i.remaining
decreasing_by exact remaining_of_next? _h

/-- Whether two sequences have as many items, which are pairwise equal. -/
def equal [BEq α] (b : Buffers α) (s t : Sequence) : Bool :=
  s.length == t.length &&
    ((b.rest (.ofSequence s)).zip (b.rest (.ofSequence t))).all fun (x, y) => x == y

/-- One sequence after the other. The second stands for both if the first is empty. -/
def append (b : Buffers α) (s t : Sequence) : Sequence × Buffers α :=
  if s.isEmpty then (t, b) else b.extend s (b.toList t)

end Buffers
end XPath
