import XPath.Sequence
import Mathlib

/-!
Sharing cannot be noticed. A buffer is only ever extended at its end, and a view stops at its own end, so
a view has the same items for ever. Programs that keep sequences and iterators in registers get the same
answers as if the registers held lists of items.
-/
namespace XPath

namespace Buffers
variable {α : Type} {b b' b'' : Buffers α} {s t : Sequence}

/-- A sequence lies within its buffer. -/
structure IsView (b : Buffers α) (s : Sequence) : Prop where
  buffer : s.buffer < b.buffers.size
  ordered : s.start ≤ s.stop
  within : s.stop ≤ (b.buffer s).size

/-- No buffer is lost, and none is changed but at its end. -/
structure Extends (b b' : Buffers α) : Prop where
  size : b.buffers.size ≤ b'.buffers.size
  buffer : ∀ s, (b.buffer s).toList <+: (b'.buffer s).toList

namespace Extends

theorem refl (b : Buffers α) : b.Extends b := ⟨Nat.le_refl _, fun _ => List.prefix_rfl⟩

theorem trans (h : b.Extends b') (h' : b'.Extends b'') : b.Extends b'' :=
  ⟨Nat.le_trans h.size h'.size, fun s => (h.buffer s).trans (h'.buffer s)⟩

theorem isView (h : b.Extends b') (hs : b.IsView s) : b'.IsView s where
  buffer := Nat.lt_of_lt_of_le hs.buffer h.size
  ordered := hs.ordered
  within := Nat.le_trans hs.within (h.buffer s).length_le

end Extends

theorem toList_eq (b : Buffers α) (s : Sequence) :
    b.toList s = ((b.buffer s).toList.drop s.start).take s.length := by
  rw [toList, Array.toList_extract, List.extract_eq_take_drop, Sequence.length]

theorem Extends.toList (h : b.Extends b') (hs : b.IsView s) : b'.toList s = b.toList s := by
  obtain ⟨more, hmore⟩ := h.buffer s
  have hwithin := hs.within
  have hordered := hs.ordered
  rw [← Array.length_toList] at hwithin
  rw [toList_eq, toList_eq, ← hmore, List.drop_append_of_le_length (by omega),
    List.take_append_of_le_length]
  rw [List.length_drop, Sequence.length]
  omega

theorem length_toList (hs : b.IsView s) : (b.toList s).length = s.length := by
  have hwithin := hs.within
  rw [← Array.length_toList] at hwithin
  rw [toList_eq, List.length_take, List.length_drop, Sequence.length]
  omega

/-! Asking for items. -/

theorem get?_eq (hs : b.IsView s) (n : ℕ) : b.get? s n = (b.toList s)[n]? := by
  unfold get?
  split
  · next hn => rw [toList_eq, List.getElem?_take_of_lt hn, List.getElem?_drop, Array.getElem?_toList]
  · next hn =>
    rw [List.getElem?_eq_none]
    rw [length_toList hs]
    exact Nat.le_of_not_lt hn

theorem head?_eq (hs : b.IsView s) : b.head? s = (b.toList s).head? := by
  rw [head?, get?_eq hs, List.head?_eq_getElem?]

theorem last?_eq (hs : b.IsView s) : b.last? s = (b.toList s).getLast? := by
  rw [last?, get?_eq hs, List.getLast?_eq_getElem?, length_toList hs]
  split
  · next hlength => rw [List.getElem?_eq_none (by rw [length_toList hs]; omega)]
  · rfl

theorem isEmpty_eq (hs : b.IsView s) : s.isEmpty = (b.toList s).isEmpty := by
  have hordered := hs.ordered
  rw [Bool.eq_iff_iff, Sequence.isEmpty, beq_iff_eq, List.isEmpty_iff_length_eq_zero, length_toList hs,
    Sequence.length]
  omega

/-! Views of a part. -/

theorem isView_slice (hs : b.IsView s) (start stop : ℕ) : b.IsView (s.slice start stop) := by
  have hwithin := hs.within
  refine ⟨hs.buffer, ?_, ?_⟩
  · simp only [Sequence.slice]
    omega
  · have hordered := hs.ordered
    change _ ≤ (b.buffer s).size
    simp only [Sequence.slice, Sequence.length]
    omega

theorem toList_slice (b : Buffers α) (s : Sequence) (start stop : ℕ) :
    b.toList (s.slice start stop) = ((b.toList s).take stop).drop start := by
  rw [toList_eq, toList_eq, List.take_take, List.drop_take, List.drop_drop]
  change List.take _ (List.drop _ (b.buffer s).toList) = _
  simp only [Sequence.slice, Sequence.length]
  by_cases hstart : start ≤ min stop (s.stop - s.start)
  · rw [Nat.min_eq_left hstart]
    congr 1
    omega
  · rw [List.take_eq_nil_iff.2 (.inl (by omega)), List.take_eq_nil_iff.2 (.inl (by omega))]

theorem isView_drop (hs : b.IsView s) (n : ℕ) : b.IsView (s.drop n) := isView_slice hs n s.length

theorem toList_drop (hs : b.IsView s) (n : ℕ) : b.toList (s.drop n) = (b.toList s).drop n := by
  rw [Sequence.drop, toList_slice, ← length_toList hs, List.take_length]

/-! Sequences with more items. -/

/-- What an operation gives that makes a sequence: a view of these items, with no other view changed. -/
structure Makes (b : Buffers α) (xs : List α) (r : Sequence × Buffers α) : Prop where
  others : b.Extends r.2
  isView : r.2.IsView r.1
  toList : r.2.toList r.1 = xs

theorem makes_self (hs : b.IsView s) : b.Makes (b.toList s) (s, b) := ⟨.refl b, hs, rfl⟩

theorem buffer_push (b : Buffers α) (xs : Array α) (s : Sequence) :
    buffer ⟨b.buffers.push xs⟩ s = if s.buffer = b.buffers.size then xs else b.buffer s := by
  simp only [buffer, Array.getElem?_push]
  split <;> rfl

theorem ofList_makes (b : Buffers α) (xs : List α) : b.Makes xs (b.ofList xs) := by
  have hbuffer : (b.ofList xs).2.buffer (b.ofList xs).1 = xs.toArray := by
    rw [ofList, buffer_push, if_pos rfl]
  refine ⟨⟨?_, fun s => ?_⟩, ⟨?_, Nat.zero_le _, ?_⟩, ?_⟩
  · simp [ofList]
  · rw [ofList, buffer_push]
    split
    · next hs => simp [buffer, hs]
    · exact List.prefix_rfl
  · simp [ofList]
  · rw [hbuffer]
    simp [ofList]
  · rw [toList_eq, hbuffer]
    simp [ofList, Sequence.length]

theorem buffer_modify (b : Buffers α) (i : ℕ) (f : Array α → Array α) {s : Sequence}
    (hs : s.buffer < b.buffers.size) :
    buffer ⟨b.buffers.modify i f⟩ s = if i = s.buffer then f (b.buffer s) else b.buffer s := by
  simp only [buffer, Array.getElem?_modify, Array.getElem?_eq_getElem hs]
  split <;> rfl

theorem extend_makes (hs : b.IsView s) (xs : List α) : b.Makes (b.toList s ++ xs) (b.extend s xs) := by
  unfold extend
  split
  · next hxs =>
    rw [List.isEmpty_iff.1 hxs, List.append_nil]
    exact makes_self hs
  · split
    · next htail =>
      -- The view owns the end of its buffer: the items after it are the new ones.
      have hbuffer : buffer ⟨b.buffers.modify s.buffer (· ++ xs.toArray)⟩ s = b.buffer s ++ xs.toArray := by
        rw [buffer_modify b _ _ hs.buffer, if_pos rfl]
      have hextends : b.Extends ⟨b.buffers.modify s.buffer (· ++ xs.toArray)⟩ := by
        refine ⟨by simp, fun t => ?_⟩
        by_cases ht : t.buffer < b.buffers.size
        · rw [buffer_modify b _ _ ht]
          split
          · simp
          · exact List.prefix_rfl
        · simp [buffer, Array.getElem?_eq_none (Nat.le_of_not_lt ht)]
      refine ⟨hextends, ⟨?_, ?_, ?_⟩, ?_⟩
      · simpa using hs.buffer
      · exact Nat.le_trans hs.ordered (Nat.le_add_right _ _)
      · change s.stop + xs.length ≤ (buffer _ s).size
        rw [hbuffer]
        simp [htail]
      · have hordered := hs.ordered
        have hlength : (b.buffer s).toList.length = s.stop := by rw [Array.length_toList, htail]
        rw [toList_eq, toList_eq]
        change List.take (s.stop + xs.length - s.start) (List.drop s.start (buffer _ s).toList) = _
        have hitems : (b.buffer s ++ xs.toArray).toList = (b.buffer s).toList ++ xs := by simp
        rw [hbuffer, hitems, List.drop_append_of_le_length (by omega), List.take_of_length_le,
          List.take_of_length_le]
        · rw [List.length_drop, Sequence.length]
          omega
        · rw [List.length_append, List.length_drop]
          omega
    · exact ofList_makes b _

theorem append_makes (hs : b.IsView s) (ht : b.IsView t) :
    b.Makes (b.toList s ++ b.toList t) (b.append s t) := by
  unfold append
  split
  · next hempty =>
    rw [isEmpty_eq hs, List.isEmpty_iff] at hempty
    rw [hempty, List.nil_append]
    exact makes_self ht
  · exact extend_makes hs _

/-! Iterators. -/

/-- An iterator over a view is not past its end. -/
structure IsIterator (b : Buffers α) (i : SequenceIterator) : Prop where
  isView : b.IsView i.sequence
  within : i.index ≤ i.sequence.length

theorem IsIterator.later {i : SequenceIterator} (hi : b.IsIterator i) (h : b.Extends b') :
    b'.IsIterator i :=
  ⟨h.isView hi.isView, hi.within⟩

theorem isIterator_ofSequence (hs : b.IsView s) : b.IsIterator (.ofSequence s) := ⟨hs, Nat.zero_le _⟩

theorem next?_eq {i : SequenceIterator} (hi : b.IsView i.sequence) :
    b.next? i = ((b.toList i.sequence)[i.index]?).map fun x => (x, i.advance) := by
  rw [next?, get?_eq hi]

theorem rest_eq (i : SequenceIterator) (hi : b.IsView i.sequence) :
    b.rest i = (b.toList i.sequence).drop i.index := by
  induction i using rest.induct b with
  | case1 i hnext =>
    rw [rest, hnext]
    rw [next?_eq hi, Option.map_eq_none_iff, List.getElem?_eq_none_iff] at hnext
    exact (List.drop_eq_nil_of_le hnext).symm
  | case2 i x j hnext ih =>
    rw [rest, hnext]
    rw [next?_eq hi, Option.map_eq_some_iff] at hnext
    obtain ⟨y, hy, hj⟩ := hnext
    cases hj
    obtain ⟨hlt, rfl⟩ := List.getElem?_eq_some_iff.1 hy
    rw [List.drop_eq_getElem_cons hlt]
    exact congrArg _ (ih hi)

theorem rest_ofSequence (hs : b.IsView s) : b.rest (.ofSequence s) = b.toList s :=
  rest_eq (.ofSequence s) hs

theorem rest_later {i : SequenceIterator} (hi : b.IsView i.sequence) (h : b.Extends b') :
    b'.rest i = b.rest i := by
  rw [rest_eq i hi, rest_eq i (h.isView hi), h.toList hi]

theorem length_rest {i : SequenceIterator} (hi : b.IsView i.sequence) : (b.rest i).length = i.remaining := by
  rw [rest_eq i hi, List.length_drop, length_toList hi, SequenceIterator.remaining]

/-- The next item is the first that is left, and the others are left then. -/
theorem next?_spec {i : SequenceIterator} (hi : b.IsIterator i) :
    (b.next? i).map (fun (x, j) => (x, b.rest j)) = (b.rest i).head?.map fun x => (x, (b.rest i).tail) := by
  rw [next?_eq hi.isView, rest_eq i hi.isView, Option.map_map, List.head?_drop, List.tail_drop]
  cases (b.toList i.sequence)[i.index]? with
  | none => rfl
  | some x => exact congrArg (fun xs => some (x, xs)) (rest_eq i.advance hi.isView)

theorem isIterator_advance {i j : SequenceIterator} {x : α} (hi : b.IsIterator i)
    (h : b.next? i = some (x, j)) : b.IsIterator j := by
  rw [next?_eq hi.isView, Option.map_eq_some_iff] at h
  obtain ⟨y, hy, hj⟩ := h
  cases hj
  obtain ⟨hlt, _⟩ := List.getElem?_eq_some_iff.1 hy
  exact ⟨hi.isView, by rwa [length_toList hi.isView] at hlt⟩

theorem beq_eq_zip [BEq α] (xs ys : List α) :
    (xs == ys) = (xs.length == ys.length && (xs.zip ys).all fun p => p.1 == p.2) := by
  induction xs generalizing ys with
  | nil => cases ys <;> rfl
  | cons x xs ih =>
    cases ys with
    | nil => rfl
    | cons y ys =>
      simp [ih, Bool.and_left_comm]

theorem equal_eq [BEq α] (hs : b.IsView s) (ht : b.IsView t) : b.equal s t = (b.toList s == b.toList t) := by
  rw [equal, rest_ofSequence hs, rest_ofSequence ht, beq_eq_zip, length_toList hs, length_toList ht]

end Buffers

/-! Programs. -/

/-- What a program does with sequences and iterators, which it keeps in numbered registers. -/
inductive SequenceOp (α : Type) where
  | ofList (xs : List α)
  | clone (v : ℕ)
  | slice (v start stop : ℕ)
  | drop (v n : ℕ)
  | extend (v : ℕ) (xs : List α)
  /-- The sequence with what an iterator still gives after it. -/
  | extendBy (v i : ℕ)
  | append (v w : ℕ)
  | iterate (v : ℕ)
  | next (i : ℕ)
  | remaining (i : ℕ)
  | items (v : ℕ)
  | get (v n : ℕ)
  | head (v : ℕ)
  | last (v : ℕ)
  | length (v : ℕ)
  | isEmpty (v : ℕ)
  | equal (v w : ℕ)

/-- What a program learns from a step. -/
inductive SequenceAnswer (α : Type) where
  | made
  | items (xs : List α)
  | item (x : Option α)
  | count (n : ℕ)
  | truth (b : Bool)
  /-- There is no such register. -/
  | missing
  deriving DecidableEq

/-- The answers that a program gets and the state that it leaves, for registers that take a step so. -/
def SequenceOp.run {α σ : Type} (step : σ → SequenceOp α → SequenceAnswer α × σ) (s : σ) :
    List (SequenceOp α) → List (SequenceAnswer α) × σ
  | [] => ([], s)
  | op :: ops =>
    let r := run step (step s op).2 ops
    ((step s op).1 :: r.1, r.2)

/-- Registers that hold lists: an iterator is what it still gives. -/
structure Contents (α : Type) where
  views : List (List α) := []
  iterators : List (List α) := []

namespace Contents
variable {α : Type}

def keep (c : Contents α) (xs : List α) : SequenceAnswer α × Contents α :=
  (.made, { c with views := c.views ++ [xs] })

def step? [BEq α] (c : Contents α) : SequenceOp α → Option (SequenceAnswer α × Contents α)
  | .ofList xs => some (c.keep xs)
  | .clone v => c.views[v]?.map c.keep
  | .slice v start stop => c.views[v]?.map fun xs => c.keep ((xs.take stop).drop start)
  | .drop v n => c.views[v]?.map fun xs => c.keep (xs.drop n)
  | .extend v ys => c.views[v]?.map fun xs => c.keep (xs ++ ys)
  | .extendBy v i => c.views[v]?.bind fun xs => c.iterators[i]?.map fun ys =>
    { c with iterators := c.iterators.set i [] }.keep (xs ++ ys)
  | .append v w => c.views[v]?.bind fun xs => c.views[w]?.map fun ys => c.keep (xs ++ ys)
  | .iterate v => c.views[v]?.map fun xs => (.made, { c with iterators := c.iterators ++ [xs] })
  | .next i => c.iterators[i]?.map fun xs =>
    (.item xs.head?, { c with iterators := c.iterators.set i xs.tail })
  | .remaining i => c.iterators[i]?.map fun xs => (.count xs.length, c)
  | .items v => c.views[v]?.map fun xs => (.items xs, c)
  | .get v n => c.views[v]?.map fun xs => (.item xs[n]?, c)
  | .head v => c.views[v]?.map fun xs => (.item xs.head?, c)
  | .last v => c.views[v]?.map fun xs => (.item xs.getLast?, c)
  | .length v => c.views[v]?.map fun xs => (.count xs.length, c)
  | .isEmpty v => c.views[v]?.map fun xs => (.truth xs.isEmpty, c)
  | .equal v w => c.views[v]?.bind fun xs => c.views[w]?.map fun ys => (.truth (xs == ys), c)

def step [BEq α] (c : Contents α) (op : SequenceOp α) : SequenceAnswer α × Contents α :=
  (c.step? op).getD (.missing, c)

end Contents

/-- Registers that hold views of shared buffers, and iterators over such views. -/
structure Registers (α : Type) where
  buffers : Buffers α := {}
  views : List Sequence := []
  iterators : List SequenceIterator := []

namespace Registers
variable {α : Type} {r : Registers α}

def keep (r : Registers α) (x : Sequence × Buffers α) : SequenceAnswer α × Registers α :=
  (.made, { r with buffers := x.2, views := r.views ++ [x.1] })

def step? [BEq α] (r : Registers α) : SequenceOp α → Option (SequenceAnswer α × Registers α)
  | .ofList xs => some (r.keep (r.buffers.ofList xs))
  | .clone v => r.views[v]?.map fun s => r.keep (s, r.buffers)
  | .slice v start stop => r.views[v]?.map fun s => r.keep (s.slice start stop, r.buffers)
  | .drop v n => r.views[v]?.map fun s => r.keep (s.drop n, r.buffers)
  | .extend v xs => r.views[v]?.map fun s => r.keep (r.buffers.extend s xs)
  | .extendBy v i => r.views[v]?.bind fun s => r.iterators[i]?.map fun j =>
    { r with iterators := r.iterators.set i { j with index := j.sequence.length } }.keep
      (r.buffers.extend s (r.buffers.rest j))
  | .append v w => r.views[v]?.bind fun s => r.views[w]?.map fun t => r.keep (r.buffers.append s t)
  | .iterate v => r.views[v]?.map fun s => (.made, { r with iterators := r.iterators ++ [.ofSequence s] })
  | .next i => r.iterators[i]?.map fun j => match r.buffers.next? j with
    | none => (.item none, r)
    | some (x, j) => (.item (some x), { r with iterators := r.iterators.set i j })
  | .remaining i => r.iterators[i]?.map fun j => (.count j.remaining, r)
  | .items v => r.views[v]?.map fun s => (.items (r.buffers.toList s), r)
  | .get v n => r.views[v]?.map fun s => (.item (r.buffers.get? s n), r)
  | .head v => r.views[v]?.map fun s => (.item (r.buffers.head? s), r)
  | .last v => r.views[v]?.map fun s => (.item (r.buffers.last? s), r)
  | .length v => r.views[v]?.map fun s => (.count s.length, r)
  | .isEmpty v => r.views[v]?.map fun s => (.truth s.isEmpty, r)
  | .equal v w => r.views[v]?.bind fun s => r.views[w]?.map fun t => (.truth (r.buffers.equal s t), r)

def step [BEq α] (r : Registers α) (op : SequenceOp α) : SequenceAnswer α × Registers α :=
  (r.step? op).getD (.missing, r)

/-- Every view lies within its buffer, and no iterator is past the end of its view. -/
structure IsSound (r : Registers α) : Prop where
  views : ∀ s ∈ r.views, r.buffers.IsView s
  iterators : ∀ i ∈ r.iterators, r.buffers.IsIterator i

/-- What the registers stand for. -/
def contents (r : Registers α) : Contents α :=
  ⟨r.views.map r.buffers.toList, r.iterators.map r.buffers.rest⟩

/-- What becomes of registers is what becomes of their contents. Views are only added, and buffers are
only extended. -/
structure Mirrors {A : Type} (r : Registers α) (x : A × Registers α) (y : A × Contents α) : Prop where
  answer : x.1 = y.1
  contents : x.2.contents = y.2
  sound : x.2.IsSound
  buffers : r.buffers.Extends x.2.buffers
  views : r.views <+: x.2.views

theorem mirrors_ask (hr : r.IsSound) {a a' : SequenceAnswer α} (h : a = a') :
    r.Mirrors (a, r) (a', r.contents) :=
  ⟨h, rfl, hr, .refl _, List.prefix_rfl⟩

theorem mirrors_keep (hr : r.IsSound) {xs : List α} {x : Sequence × Buffers α} (hx : r.buffers.Makes xs x) :
    r.Mirrors (r.keep x) (r.contents.keep xs) := by
  refine ⟨rfl, ?_, ⟨fun s hs => ?_, fun i hi => ?_⟩, hx.others, List.prefix_append _ _⟩
  · have hviews : r.views.map x.2.toList = r.views.map r.buffers.toList :=
      List.map_congr_left fun s hs => hx.others.toList (hr.views s hs)
    have hiterators : r.iterators.map x.2.rest = r.iterators.map r.buffers.rest :=
      List.map_congr_left fun i hi => Buffers.rest_later (hr.iterators i hi).isView hx.others
    simp only [contents, keep, Contents.keep, List.map_append, List.map_cons, List.map_nil, hviews,
      hiterators, hx.toList]
  · obtain hs | hs := List.mem_append.1 hs
    · exact hx.others.isView (hr.views s hs)
    · rw [List.mem_singleton.1 hs]
      exact hx.isView
  · exact (hr.iterators i hi).later hx.others

/-- An iterator that is replaced by one that gives less. -/
theorem mirrors_set (hr : r.IsSound) {a : SequenceAnswer α} {i : ℕ} {j : SequenceIterator}
    (hj : r.buffers.IsIterator j) {ys : List α} (hys : r.buffers.rest j = ys) :
    r.Mirrors (a, { r with iterators := r.iterators.set i j })
      (a, { r.contents with iterators := r.contents.iterators.set i ys }) := by
  refine ⟨rfl, ?_, ⟨hr.views, fun j' hj' => ?_⟩, .refl _, List.prefix_rfl⟩
  · simp only [contents, List.map_set, hys]
  · obtain hj' | rfl := List.mem_or_eq_of_mem_set hj'
    · exact hr.iterators j' hj'
    · exact hj

theorem rel_view (hr : r.IsSound) (v : ℕ) {f : Sequence → Option (SequenceAnswer α × Registers α)}
    {g : List α → Option (SequenceAnswer α × Contents α)}
    (h : ∀ s, r.buffers.IsView s → Option.Rel r.Mirrors (f s) (g (r.buffers.toList s))) :
    Option.Rel r.Mirrors (r.views[v]?.bind f) (r.contents.views[v]?.bind g) := by
  rw [contents, List.getElem?_map]
  cases hs : r.views[v]? with
  | none => exact .none
  | some s => exact h s (hr.views s (List.mem_of_getElem? hs))

theorem rel_view_map (hr : r.IsSound) (v : ℕ) {f : Sequence → SequenceAnswer α × Registers α}
    {g : List α → SequenceAnswer α × Contents α}
    (h : ∀ s, r.buffers.IsView s → r.Mirrors (f s) (g (r.buffers.toList s))) :
    Option.Rel r.Mirrors (r.views[v]?.map f) (r.contents.views[v]?.map g) := by
  rw [Option.map_eq_bind, Option.map_eq_bind]
  exact rel_view hr v fun s hs => .some (h s hs)

theorem rel_iterator (hr : r.IsSound) (i : ℕ) {f : SequenceIterator → SequenceAnswer α × Registers α}
    {g : List α → SequenceAnswer α × Contents α}
    (h : ∀ j, r.iterators[i]? = some j → r.buffers.IsIterator j → r.Mirrors (f j) (g (r.buffers.rest j))) :
    Option.Rel r.Mirrors (r.iterators[i]?.map f) (r.contents.iterators[i]?.map g) := by
  rw [contents, List.getElem?_map]
  cases hj : r.iterators[i]? with
  | none => exact .none
  | some j => exact .some (h j hj (hr.iterators j (List.mem_of_getElem? hj)))

theorem isSound_empty : ({} : Registers α).IsSound :=
  ⟨fun _ hs => absurd hs List.not_mem_nil, fun _ hi => absurd hi List.not_mem_nil⟩

variable [BEq α]

theorem step?_mirrors (hr : r.IsSound) (op : SequenceOp α) :
    Option.Rel r.Mirrors (r.step? op) (r.contents.step? op) := by
  cases op with
  | ofList xs => exact .some (mirrors_keep hr (Buffers.ofList_makes _ xs))
  | clone v => exact rel_view_map hr v fun s hs => mirrors_keep hr (Buffers.makes_self hs)
  | slice v start stop =>
    exact rel_view_map hr v fun s hs => mirrors_keep hr
      ⟨.refl _, Buffers.isView_slice hs start stop, Buffers.toList_slice _ s start stop⟩
  | drop v n =>
    exact rel_view_map hr v fun s hs => mirrors_keep hr
      ⟨.refl _, Buffers.isView_drop hs n, Buffers.toList_drop hs n⟩
  | extend v xs => exact rel_view_map hr v fun s hs => mirrors_keep hr (Buffers.extend_makes hs xs)
  | extendBy v i =>
    refine rel_view hr v fun s hs => rel_iterator hr i fun j _ hj => ?_
    -- The iterator is used up before the buffer changes.
    have hend : r.buffers.IsIterator { j with index := j.sequence.length } := ⟨hj.isView, Nat.le_refl _⟩
    have hnothing : r.buffers.rest { j with index := j.sequence.length } = [] := by
      rw [Buffers.rest_eq _ hend.isView, List.drop_eq_nil_iff, Buffers.length_toList hj.isView]
    have hset := mirrors_set (a := .made) (i := i) hr hend hnothing
    have hkeep := mirrors_keep hset.sound (Buffers.extend_makes hs (r.buffers.rest j))
    have hcontents := congrArg (fun c => (Contents.keep c (r.buffers.toList s ++ r.buffers.rest j)).2)
      hset.contents
    exact ⟨rfl, hkeep.contents.trans hcontents, hkeep.sound, hkeep.buffers, hkeep.views⟩
  | append v w =>
    exact rel_view hr v fun s hs => rel_view_map hr w fun t ht =>
      mirrors_keep hr (Buffers.append_makes hs ht)
  | iterate v =>
    refine rel_view_map hr v fun s hs => ⟨rfl, ?_, ⟨hr.views, fun j hj => ?_⟩, .refl _, List.prefix_rfl⟩
    · simp only [contents, List.map_append, List.map_cons, List.map_nil, Buffers.rest_ofSequence hs]
    · obtain hj | hj := List.mem_append.1 hj
      · exact hr.iterators j hj
      · rw [List.mem_singleton.1 hj]
        exact Buffers.isIterator_ofSequence hs
  | next i =>
    refine rel_iterator hr i fun j hj hi => ?_
    have hnext := Buffers.next?_spec hi
    split
    · next hnone =>
      rw [hnone] at hnext
      have hrest : r.buffers.rest j = [] := by simpa using hnext.symm
      have hset := mirrors_set (a := SequenceAnswer.item none) (i := i) hr hi hrest
      rw [hrest]
      obtain ⟨_, rfl⟩ := List.getElem?_eq_some_iff.1 hj
      rwa [List.set_getElem_self] at hset
    · next x j' hsome =>
      rw [hsome] at hnext
      obtain ⟨y, hy, heq⟩ := Option.map_eq_some_iff.1 hnext.symm
      obtain ⟨rfl, htail⟩ := Prod.mk.inj heq
      rw [hy]
      exact mirrors_set hr (Buffers.isIterator_advance hi hsome) htail.symm
  | remaining i =>
    exact rel_iterator hr i fun j _ hj => mirrors_ask hr (congrArg _ (Buffers.length_rest hj.isView).symm)
  | items v => exact rel_view_map hr v fun s hs => mirrors_ask hr rfl
  | get v n => exact rel_view_map hr v fun s hs => mirrors_ask hr (congrArg _ (Buffers.get?_eq hs n))
  | head v => exact rel_view_map hr v fun s hs => mirrors_ask hr (congrArg _ (Buffers.head?_eq hs))
  | last v => exact rel_view_map hr v fun s hs => mirrors_ask hr (congrArg _ (Buffers.last?_eq hs))
  | length v =>
    exact rel_view_map hr v fun s hs => mirrors_ask hr (congrArg _ (Buffers.length_toList hs).symm)
  | isEmpty v => exact rel_view_map hr v fun s hs => mirrors_ask hr (congrArg _ (Buffers.isEmpty_eq hs))
  | equal v w =>
    exact rel_view hr v fun s hs => rel_view_map hr w fun t ht =>
      mirrors_ask hr (congrArg _ (Buffers.equal_eq hs ht))

theorem step_mirrors (hr : r.IsSound) (op : SequenceOp α) :
    r.Mirrors (r.step op) (r.contents.step op) := by
  unfold step Contents.step
  have hstep := step?_mirrors hr op
  generalize r.step? op = x at hstep
  generalize r.contents.step? op = y at hstep
  cases hstep with
  | none => exact mirrors_ask hr rfl
  | some h => exact h

theorem run_mirrors (ops : List (SequenceOp α)) (hr : r.IsSound) :
    r.Mirrors (SequenceOp.run step r ops) (SequenceOp.run Contents.step r.contents ops) := by
  induction ops generalizing r with
  | nil => exact ⟨rfl, rfl, hr, .refl _, List.prefix_rfl⟩
  | cons op ops ih =>
    have hstep := step_mirrors hr op
    have hrun := ih hstep.sound
    rw [hstep.contents] at hrun
    refine ⟨?_, hrun.contents, hrun.sound, hstep.buffers.trans hrun.buffers, hstep.views.trans hrun.views⟩
    exact congrArg₂ List.cons hstep.answer hrun.answer

/-- A program gets the answers from shared buffers that it gets from lists. Whatever it does next, the
views that it has are the same ones and have the same items. No view and no iterator ever leaves its
buffer. -/
theorem run_eq_run_lists (ops more : List (SequenceOp α)) :
    let now := (SequenceOp.run step {} ops).2
    let later := (SequenceOp.run step now more).2
    (SequenceOp.run step ({} : Registers α) ops).1 = (SequenceOp.run Contents.step {} ops).1 ∧
      now.contents = (SequenceOp.run Contents.step {} ops).2 ∧ now.IsSound ∧
      now.views <+: later.views ∧
      now.views.map later.buffers.toList = now.views.map now.buffers.toList := by
  have hnow := run_mirrors ops (isSound_empty (α := α))
  have hlater := run_mirrors more hnow.sound
  refine ⟨hnow.answer, hnow.contents, hnow.sound, hlater.views, ?_⟩
  exact List.map_congr_left fun s hs => hlater.buffers.toList (hnow.sound.views s hs)

/-- Two continuations of one sequence: the first takes the end of the buffer, the second is a copy, to
which it is appended itself. -/
example : (SequenceOp.run step ({} : Registers ℕ) [.ofList [0, 1], .extend 0 [2], .extend 0 [3],
    .append 2 2, .items 0, .items 1, .items 3]).1 =
      [.made, .made, .made, .made, .items [0, 1], .items [0, 1, 2], .items [0, 1, 3, 0, 1, 3]] := by
  decide

end Registers
end XPath
