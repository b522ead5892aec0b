import XPath.Proofs.Inference
import XPath.Query

/-!
The regime of a run: every value that is put off has a type, and what has been kept of it is of that type;
an index holds items of its base; and trees are laid out. In it a checked tree counts right.
-/
namespace XPath

theorem Forest.IsLaid.attributes {f : Forest} (h : f.IsLaid) : f.HasDistinctAttributes := by
  intro i t ht
  exact (Tree.isLaid_of_mem_chain h t (List.mem_of_mem_head? ht)).attributes

/-- A world in which the values that have been put off have these types. -/
structure World.IsTyped (types : List SequenceType) (w : World) : Prop where
  size : w.cells.size = types.length
  kept : ∀ (i : ℕ) (t : SequenceType) (xs : List Item), types[i]? = some t →
    w.cells[i]?.bind (·.kept) = some xs → t.Admits xs
  indexes : ∀ key x, w.indexes.lookup key = some x → x.Fits key.base.info.type
  forest : w.forest.IsLaid

/-- A run starts with nothing put off and without an index. -/
theorem World.isTyped_start {f : Forest} (h : f.IsLaid) : World.IsTyped [] { forest := f } :=
  ⟨rfl, by simp, by simp, h⟩

namespace Regime

/-- The types of the values that have been put off so far. -/
def storing : Regime where
  Stage := List SequenceType
  le := List.IsPrefix
  refl := List.prefix_refl
  trans := List.IsPrefix.trans
  good := World.IsTyped
  reordered _ h := ⟨h.size, h.kept, h.indexes, h.forest⟩

/-- Changing a cell so that it keeps what it has kept, or else a list of its type. -/
theorem storing_modify {types : List SequenceType} {w : World} {i : ℕ} {t : SequenceType}
    {g : Cell → Cell} (h : w.IsTyped types) (hi : types[i]? = some t)
    (hg : ∀ cell xs, (g cell).kept = some xs → cell.kept = some xs ∨ t.Admits xs) :
    World.IsTyped types { w with cells := w.cells.modify i g } where
  size := Array.size_modify.trans h.size
  kept j u xs hj hxs := by
    dsimp only at hxs
    rw [Array.getElem?_modify] at hxs
    split at hxs
    · next heq =>
      subst heq
      cases hi.symm.trans hj
      obtain ⟨cell', hcell', hkept⟩ := Option.bind_eq_some_iff.1 hxs
      obtain ⟨cell, hcell, rfl⟩ := Option.map_eq_some_iff.1 hcell'
      obtain hold | hnew := hg cell xs hkept
      · exact h.kept i t xs hi (Option.bind_eq_some_iff.2 ⟨cell, hcell, hold⟩)
      · exact hnew
    · exact h.kept j u xs hj hxs
  indexes := h.indexes
  forest := h.forest

/-- A new cell. -/
theorem storing_push {types : List SequenceType} {w : World} (h : w.IsTyped types) (t : SequenceType) :
    World.IsTyped (types ++ [t]) { w with cells := w.cells.push {} } where
  size := by rw [Array.size_push, List.length_append, h.size, List.length_singleton]
  kept i u xs hi hxs := by
    dsimp only at hxs
    rw [Array.getElem?_push] at hxs
    split at hxs
    · cases hxs
    · next hne =>
      have hlt : i < types.length := by
        have := (List.getElem?_eq_some_iff.1 hi).1
        rw [List.length_append, List.length_singleton] at this
        have := h.size
        omega
      rw [List.getElem?_append_left hlt] at hi
      exact h.kept i u xs hi hxs
  indexes := h.indexes
  forest := h.forest

theorem storing_defers (t : SequenceType) : storing.Defers t := by
  intro k src keeps hsrc (types : List SequenceType) w (hk : k <+: types) hw
  have hpush := storing_push hw t
  refine ⟨types ++ [t], List.prefix_append _ _, hpush, fun d hd => ?_⟩
  cases hd
  have hcell {types' : List SequenceType} (hl : types ++ [t] <+: types') :
      types'[w.cells.size]? = some t := by
    obtain ⟨more, rfl⟩ := hl
    have hw' := hw.size
    rw [hw', List.getElem?_append_left (by simp), List.getElem?_append_right le_rfl, Nat.sub_self]
    rfl
  refine .of_cells (hsrc.later (hk.trans (List.prefix_append _ _))) (fun hl hw' => ?_)
    (fun hl hw' hxs => ?_) fun hl hw' hxs => ?_
  · exact storing_modify hw' (hcell hl) fun _ _ hkept => .inl hkept
  · exact fitsType_iff.2 (hw'.kept _ _ _ (hcell hl) hxs)
  · apply storing_modify hw' (hcell hl)
    intro cell ys hkept
    dsimp only at hkept
    cases hc : cell.kept with
    | some zs =>
      rw [hc] at hkept
      exact .inl hkept
    | none =>
      rw [hc] at hkept
      cases hkept
      exact .inr (fitsType_iff.1 hxs)

theorem storing_keepsIndexes (base : Expr) : storing.KeepsIndexes base base.info.type where
  found hw hbase hx := hbase ▸ hw.indexes _ _ hx
  stored {types w key x} hw hbase hx := by
    refine ⟨types, List.prefix_refl types, hw.size, hw.kept, fun key' x' hx' => ?_, hw.forest⟩
    dsimp only at hx'
    rw [List.lookup_cons] at hx'
    split at hx'
    · next heq =>
      cases hx'
      rw [eq_of_beq heq, hbase]
      exact hx
    · exact hw.indexes key' x' hx'

theorem storing_keepsNodes : storing.KeepsNodes where
  element {types w} name content hw := by
    have hlaid := ((Construction.IsLaid.start hw.forest name).appendContent [] content).finish
    exact ⟨types, List.prefix_refl types, hw.size, hw.kept, hw.indexes, hlaid⟩
  text {types w} s hw :=
    ⟨types, List.prefix_refl types, hw.size, hw.kept, hw.indexes, hw.forest.add (.leaf 0 (.text s))⟩

theorem storing_hasDistinctAttributes : storing.HasDistinctAttributes :=
  fun hw => hw.forest.attributes

theorem storing_supports (types : Slot → SequenceType) (context : StaticContext) (e : Expr) :
    storing.Supports (.recorded types context) e where
  defers := storing_defers _
  distinct _ _ _ := .inl storing_hasDistinctAttributes
  makes _ _ _ _ _ := storing_keepsNodes
  indexes _ a _ _ _ := storing_keepsIndexes a

end Regime

namespace Expr
open Regime

variable {c : DynamicContext} {e : Expr} {k : storing.Stage} {f : Frame}

/-- In whatever way it is evaluated, an expression gives as many items as its note allows, and leaves a
world in which what is put off has types. One by one, anything may happen between the items. -/
structure CountsIn (c : DynamicContext) (e : Expr) (k : storing.Stage) (f : Frame) : Prop where
  item : Runs k ((e.meaning c).item f) fun _ o => e.cardinality.allows o.toList.length
  toList : Runs k ((e.meaning c).toList f) fun _ xs => e.cardinality.allows xs.length
  push : Runs k ((e.meaning c).push f) fun _ xs => e.cardinality.allows xs.length
  items : Yields (.any storing Item) e.cardinality.least e.cardinality.most k ((e.meaning c).items f)

theorem countsIn_of_sound (h : Sound k (e.meaning c).toWays f e.type) : e.CountsIn c k f where
  item := h.item.imp fun _ _ _ ho => (fitsType_iff.1 ho).length
  toList := h.toList.imp fun _ _ _ hxs => (fitsType_iff.1 hxs).length
  push := h.push.imp fun _ _ _ hxs => (fitsType_iff.1 hxs).length
  items := h.items.imp (fun _ _ _ _ => trivial) le_rfl le_rfl

/-- Frames that an evaluation does not leave: where the parts of a tree are evaluated in them, so is
whatever they give a focus or a variable to, and what they put off. -/
structure Confines (tree : Expr) (c : DynamicContext) (I : storing.Stage → Frame → Prop) : Prop where
  later : ∀ {k l f}, I k f → storing.le k l → I l f
  focus : ∀ {k f} x n size, I k f → I k (f.withFocus x n size)
  capture : ∀ {k f} slots, I k f → I k (f.capture slots)
  item : ∀ {k f n op slot a b}, .binary n op a b ∈ tree.preorder →
    (op = .for slot ∨ ∃ q, op = .quantified q slot) → I k f →
    Yields ⟨fun l x => I l (f.bind slot (.items [x])), fun hl h => later h hl⟩ 0 ⊤ k
      ((a.meaning c).items f)
  value : ∀ {k f n slot a b}, .binary n (.let slot) a b ∈ tree.preorder → I k f →
    Runs k ((a.meaning c).bound f) fun l v => I l (f.bind slot v)

variable {T : Claims}

theorem confines_conforms (he : e.Justified storing T) (hc : ∀ k : storing.Stage, GlobalsConform T.globals k c) :
    e.Confines c (Conforms T.ranges) := by
  have hpart {x : Expr} (hx : x ∈ e.preorder) : x.Justified storing T := All.all e he x hx
  refine ⟨Conforms.later, fun _ _ _ => id, fun slots h => h.capture slots,
    fun {k f n op slot a b} hx hop hf => ?_, fun {k f n slot a b} hx hf => ?_⟩
  · obtain ⟨⟨⟨_, hslot⟩, _⟩, ha, _⟩ := all_binary.1 (hpart hx)
    have hloop : Narrower (.one (T.info a).item) (T.ranges slot) ∨ (T.info a).cardinality.most = 0 := by
      obtain rfl | ⟨q, rfl⟩ := hop
      · exact hslot
      · exact hslot
    exact ((sound c a ha).loop hf (hc k) hloop).imp (fun l x hl hx => (hf.later hl).bind hx)
      (Nat.zero_le _) le_top
  · obtain ⟨⟨⟨_, hslot⟩, hmode, _⟩, ha, _⟩ := all_binary.1 (hpart hx)
    exact ((sound c a ha).value hf (hc k) hslot (hmode n slot a b rfl)).imp
      fun l v hl hv => (hf.later hl).bind hv

end Expr

namespace Typing
open XPath.Expr Regime

/-- If the rows that promise too little do not stand alone, what checking promises is kept. A run starts in
a world and a frame that conform, the frames that it makes conform, and whatever part of the tree is
evaluated in a frame that conforms gives as many items as were promised, as does every variable. -/
theorem check_counts {context : StaticContext} {unit unit' : CompileUnit} {source e : Expr}
    (hcheck : (check source).run context unit = (.ok e, unit')) (hbound : WellBound [source])
    (hslots : ∀ s ∈ source.boundSlots, s < unit.bindings.size)
    (hcounted : e.All (IsCounted unit'.typeOf)) {c : DynamicContext}
    (hglobals : ∀ n xs, c.valueOf? n.toName = some xs → (context.globalType n).Admits xs)
    {start : Frame} (hstart : ∀ s v, start.slots s = some v →
      s ∉ source.boundSlots ∧ ∃ xs, v = .items xs ∧ (unit.typeOf s).Admits xs)
    {forest : Forest} (hforest : forest.IsLaid) :
    World.IsTyped [] { forest } ∧ @Conforms storing unit'.typeOf [] start ∧
    (Modes.assign unit' e).Confines c (Conforms unit'.typeOf) ∧
    ∀ (k : storing.Stage) f, Conforms unit'.typeOf k f →
      (∀ x ∈ (Modes.assign unit' e).preorder, x.CountsIn c k f) ∧
      ∀ s v, f.slots s = some v →
        Runs k v.toList fun _ xs => (unit'.typeOf s).cardinality.allows xs.length := by
  have hfollows := check_follows source hcheck hbound hslots (fun _ _ => rfl) hcounted
  have hjustified : (Modes.assign unit' e).Justified storing (.recorded unit'.typeOf context) :=
    fun x hx => by
      obtain ⟨hrow, hmode⟩ := Modes.assign_follows unit' e hfollows x hx
      exact ⟨hrow, hmode, storing_supports _ _ x⟩
  have hc (k : storing.Stage) : GlobalsConform context.globalType k c :=
    fun n xs hxs => fitsType_iff.2 (hglobals n xs hxs)
  refine ⟨World.isTyped_start hforest, fun s v hv => ?_, confines_conforms hjustified hc,
    fun k f hf => ⟨fun x hx => ?_, fun s v hv => ?_⟩⟩
  · obtain ⟨hs, xs, rfl, hxs⟩ := hstart s v hv
    rw [(check_refines source hcheck).typeOf s hs]
    exact fitsType_iff.2 hxs
  · exact countsIn_of_sound ((sound c x (All.all _ hjustified x hx)).ways hf (hc k))
  · exact (hf s v hv).toList.imp fun _ _ _ hxs => (fitsType_iff.1 hxs).length

theorem wellBound_of_closed {e : Expr} (h : ∀ s, e.needs s = false) (honce : e.boundSlots.Nodup) :
    WellBound [e] := by
  refine ⟨fun x hx s hs => ?_, by rwa [List.flatMap_singleton]⟩
  obtain rfl := List.mem_singleton.1 hx
  exact absurd hs (by simp [h])

def threeNumbers : Expr := .mkLeaf (.literal [.integer 1, .integer 2, .integer 3]) 0

/-- `for $x in (1, 2, 3) return ($x, $x)` -/
def eachTwice : Expr :=
  .mkBinary (.for 0) threeNumbers
    (.mkNary .block [.mkLeaf (.variable (.range 0)) 0, .mkLeaf (.variable (.range 0)) 0] 0) 0

/-- One variable, of which nothing is declared. -/
def oneVariable : CompileUnit := (({} : CompileUnit).allocate (.unprefixed "x") .range none).2

/-- The loop and everything in it counts right; it gives six items. -/
theorem check_each_twice_counts : ∃ e unit', (check eachTwice).run {} oneVariable = (.ok e, unit') ∧
    (∀ x ∈ (Modes.assign unit' e).preorder, x.CountsIn {} ([] : List SequenceType) {}) ∧
    ((((Modes.assign unit' e).meaning {}).toList {}).perform { forest := {} }).1.map List.length =
      .ok 6 := by
  have hbound : WellBound [eachTwice] := by
    refine wellBound_of_closed (fun s => ?_) (by decide)
    simp [eachTwice, threeNumbers, mkBinary, mkLeaf, mkNary, needs, needsList, BinaryOp.slot?]
  have hcounted : ∀ e unit', (check eachTwice).run {} oneVariable = (.ok e, unit') →
      e.All (IsCounted unit'.typeOf) := by
    intro e unit' h
    cases h
    have hvariable {n : Note} {slot : Slot} {types : Slot → SequenceType} :
        (Expr.leaf n (.variable (.range slot))).All (IsCounted types) := all_leaf.2 trivial
    refine all_binary.2 ⟨by rintro ⟨⟩, all_leaf.2 trivial, all_nary.2 ⟨trivial, ?_⟩⟩
    exact List.forall_mem_cons.2 ⟨hvariable, List.forall_mem_singleton.2 hvariable⟩
  obtain ⟨_, hstart, _, hcounts⟩ := @check_counts {} oneVariable _ eachTwice _ rfl hbound (by decide)
    (hcounted _ _ rfl) {} (by rintro _ _ ⟨⟩) {} (by rintro _ _ ⟨⟩) {} (by rintro _ ⟨⟩)
  exact ⟨_, _, rfl, (hcounts _ _ hstart).1, rfl⟩

/-- `(1, 2, 3)[position()]` -/
def allPositions : Expr := .mkBinary (.filter false) threeNumbers (.callAt .position [] 0) 0

/-- `sum((), (1, 2, 3))` -/
def sumOfNone : Expr := .callAt .sum [.emptyAt 0, threeNumbers] 0

/-- `for $x as empty-sequence() in (1, 2, 3) return $x` -/
def loopOverNone : Expr := .mkBinary (.for 0) threeNumbers (.mkLeaf (.variable (.range 0)) 0) 0

/-- One variable, of which it is declared that it is empty. -/
def emptyVariable : CompileUnit :=
  (({} : CompileUnit).allocate (.unprefixed "x") .range (some .empty)).2

/-- A well bound tree of which no more than one item is promised, and which gives several. -/
def Miscounts (source : Expr) (unit : CompileUnit) : Prop :=
  WellBound [source] ∧ ∃ e unit', (check source).run {} unit = (.ok e, unit') ∧ e.cardinality.atMostOne ∧
    ∃ n, 2 ≤ n ∧
      ((((Modes.assign unit' e).meaning {}).toList {}).perform { forest := {} }).1.map List.length = .ok n

/-- Each of the three rows promises too little. -/
theorem check_miscounts :
    Miscounts allPositions {} ∧ Miscounts sumOfNone {} ∧ Miscounts loopOverNone emptyVariable := by
  have hthree : 2 ≤ 3 := by decide
  refine ⟨?_, ?_, ?_⟩
  · exact ⟨wellBound_of_closed (fun _ => rfl) (by decide), _, _, rfl, rfl, 3, hthree, rfl⟩
  · exact ⟨wellBound_of_closed (fun _ => rfl) (by decide), _, _, rfl, rfl, 3, hthree, rfl⟩
  · refine ⟨wellBound_of_closed (fun s => ?_) (by decide), _, _, rfl, rfl, 3, hthree, rfl⟩
    simp [loopOverNone, threeNumbers, mkBinary, mkLeaf, needs, BinaryOp.slot?]

end Typing
end XPath
