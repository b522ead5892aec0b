import XPath.Proofs.Evaluation
import XPath.Proofs.Layout

/-!
Values of variables in a regime: lists, and evaluations that are put off and keep their promise whenever
they are started or what they have kept is read. Whatever way a value is obtained, it is of the type of
its expression.
-/
namespace XPath

namespace Tree

/-- An element without two attributes of one name has one of a given name at most. -/
theorem length_attributes_named {t : Tree} (h : t.HasDistinctAttributes) (n : QName) :
    (t.attributes.filter (NodeTest.holds (.name (.name n)) .attr)).length ≤ 1 := by
  have hname {u : Tree} (hu : NodeTest.holds (.name (.name n)) .attr u) :
      u.content.name? = some n.nodeName := by
    unfold NodeTest.holds at hu
    dsimp only at hu
    split at hu
    · next m v heq =>
      rw [heq, eq_of_beq hu]
      rfl
    · cases hu
    all_goals simp_all
  have hsub := List.filter_sublist (l := t.attributes) (p := NodeTest.holds (.name (.name n)) .attr)
  have hnodup := List.Nodup.sublist (hsub.map fun u : Tree => u.content.name?) h
  have hall : ∀ u ∈ t.attributes.filter (NodeTest.holds (.name (.name n)) .attr),
      u.content.name? = some n.nodeName := fun u hu => hname (List.mem_filter.1 hu).2
  generalize t.attributes.filter (NodeTest.holds (.name (.name n)) .attr) = us at hnodup hall ⊢
  match us with
  | [] => exact Nat.zero_le _
  | [u] => exact le_rfl
  | u :: v :: us =>
    have huv := (hall u (by simp)).trans (hall v (by simp)).symm
    exact absurd huv (by simp_all)

end Tree

namespace Expr

theorem least_stepCardinality (axis : Axis) (test : NodeTest) :
    (stepCardinality axis test).least = 0 := by
  unfold stepCardinality
  split <;> rfl

/-- A step finds no more nodes than its cardinality allows. -/
theorem most_stepCardinality {chain : List Tree} (axis : Axis) (test : NodeTest)
    (h : axis = .attr → (∃ n, test = .name (.name n)) →
      ∀ t rest, chain = t :: rest → t.HasDistinctAttributes) :
    ((axis.nodes chain).filter (test.holds axis)).length ≤ (stepCardinality axis test).most := by
  have hone {ts : List Tree} (hts : ts.length ≤ 1) (p : Tree → Bool) :
      ((ts.filter p).length : ℕ∞) ≤ 1 := by
    exact_mod_cast (List.length_filter_le p ts).trans hts
  unfold stepCardinality
  split
  · exact hone (by cases chain <;> simp [Axis.nodes]) _
  · exact hone (by cases chain <;> simp [Axis.nodes]) _
  · next n =>
    cases chain with
    | nil => simp [Axis.nodes]
    | cons t rest =>
      have hlen := Tree.length_attributes_named (h rfl ⟨n, rfl⟩ t rest rfl) n
      change ((List.length _ : ℕ) : ℕ∞) ≤ ((1 : ℕ) : ℕ∞)
      exact Nat.cast_le.2 hlen
  · exact le_top

end Expr

/-- No node of the forest has two attributes of one name. -/
def Forest.HasDistinctAttributes (f : Forest) : Prop :=
  ∀ i t, f.node? i = some t → t.HasDistinctAttributes

namespace Regime
variable {R : Regime} {k l : R.Stage} {f : Frame} {s t : SequenceType}

/-- What is put off gives what a type says. -/
structure SoundDeferred (k : R.Stage) (d : Deferred) (t : SequenceType) : Prop where
  start : Yields (R.ofType t.item) t.cardinality.least t.cardinality.most k d.start
  toList : Runs k d.toList fun l xs => FitsType t l xs

/-- Where first items are left out, none of the rest are promised. -/
def SoundValue (k : R.Stage) (v : Value) (t : SequenceType) : Prop :=
  match v with
  | .items xs => FitsType t k xs
  | .deferred d skip => ∃ s, SoundDeferred k d s ∧ (∀ x, s.item.Suits x → t.item.Suits x) ∧
      s.cardinality.most ≤ t.cardinality.most ∧
      (skip = 0 ∧ t.cardinality.least ≤ s.cardinality.least ∨ t.cardinality.least = 0)

/-- Evaluations that give what a type says can be put off. -/
def Defers (R : Regime) (t : SequenceType) : Prop :=
  ∀ {k : R.Stage} {src : Items} (keeps : Bool),
    Yields (R.ofType t.item) t.cardinality.least t.cardinality.most k src →
    Runs k (Deferred.create keeps src) fun l d => SoundDeferred l d t

/-- The items are the ones that are kept in the cell, if it keeps any. -/
theorem perform_deferred (d : Deferred) (w : World) :
    d.toList.perform w = (match w.cells[d.cell]?.bind (·.kept) with
      | some xs => pure xs
      | none => do
        let xs ← d.start.toList
        if d.keeps then
          modify fun w => { w with
            cells := w.cells.modify d.cell fun c => { c with kept := c.kept <|> some xs } }
        return xs : Eval (List Item)).perform w := rfl

namespace SoundDeferred
variable {d : Deferred}

/-- It suffices that the cells may be written to, and that what they keep is of the type. -/
theorem of_cells
    (hsrc : Yields (R.ofType t.item) t.cardinality.least t.cardinality.most k d.items)
    (hstart : ∀ {l w}, R.le k l → R.good l w → R.good l { w with
      cells := w.cells.modify d.cell fun c => { c with starts := c.starts + 1 } })
    (hkept : ∀ {l w xs}, R.le k l → R.good l w → w.cells[d.cell]?.bind (·.kept) = some xs →
      FitsType t l xs)
    (hkeep : ∀ {l w xs}, R.le k l → R.good l w → FitsType t l xs → R.good l { w with
      cells := w.cells.modify d.cell fun c => { c with kept := c.kept <|> some xs } }) :
    SoundDeferred k d t := by
  have hs : Yields (R.ofType t.item) t.cardinality.least t.cardinality.most k d.start :=
    fun l w hl hw => hsrc l _ hl (hstart hl hw)
  refine ⟨hs, fun l w hl hw => ?_⟩
  rw [perform_deferred]
  cases hcell : w.cells[d.cell]?.bind (·.kept) with
  | some xs =>
    refine ⟨l, R.refl l, hw, fun ys hys => ?_⟩
    cases hys
    exact hkept hl hw hcell
  | none =>
    refine ((hs.later hl).toList.bind fun m xs hm hxs => ?_) l w (R.refl l) hw
    split
    · intro m' w' hm' hw'
      refine ⟨m', R.refl m', ?_, fun ys hys => ?_⟩
      · exact hkeep (R.trans hl (R.trans hm hm')) hw' (hxs.later hm')
      · cases hys
        exact hxs.later hm'
    · exact runs_pure fun _ hm' => hxs.later hm'

theorem later (h : SoundDeferred k d t) (hl : R.le k l) : SoundDeferred l d t :=
  ⟨h.start.later hl, h.toList.later hl⟩

theorem source (h : SoundDeferred k d t) :
    Yields (R.ofType t.item) t.cardinality.least t.cardinality.most k d.source := by
  unfold Deferred.source
  split
  · exact yields_after (h.toList.bind fun _ _ _ hxs => runs_pure fun _ hm =>
      yields_ofList (hxs.later hm))
  · exact h.start

end SoundDeferred

namespace SoundValue
variable {v : Value}

theorem later (h : SoundValue k v t) (hl : R.le k l) : SoundValue l v t := by
  cases v with
  | items xs => exact Fits.later h hl
  | deferred d skip =>
    obtain ⟨s, hd, hs⟩ := h
    exact ⟨s, hd.later hl, hs⟩

theorem narrower (h : SoundValue k v s) (hn : Narrower s t) : SoundValue k v t := by
  cases v with
  | items xs => exact FitsType.narrower h hn
  | deferred d skip =>
    obtain ⟨u, hd, hsuits, hmost, hleast⟩ := h
    refine ⟨u, hd, fun x hx => hn.suits x (hsuits x hx), hmost.trans hn.most, ?_⟩
    exact hleast.imp (fun h => ⟨h.1, hn.least.trans h.2⟩) fun h => Nat.le_zero.1 (hn.least.trans_eq h)

/-- An empty value is of every type that allows it. -/
theorem of_none (h : SoundValue k v s) (hs : s.cardinality.most = 0) (ht : t.cardinality.least = 0) :
    SoundValue k v t := by
  have hempty {u : SequenceType} (hu : u.cardinality.most ≤ 0) {l : R.Stage} {xs : List Item}
      (hxs : FitsType u l xs) : FitsType ⟨t.item, u.cardinality⟩ l xs := by
    have hlen : (xs.length : ℕ∞) ≤ 0 := hxs.most.trans hu
    obtain rfl : xs = [] := List.length_eq_zero_iff.1 (Nat.le_zero.1 (by exact_mod_cast hlen))
    exact ⟨List.forall_mem_nil _, hxs.least, hxs.most⟩
  cases v with
  | items xs =>
    obtain ⟨heach, _, hmost⟩ := hempty hs.le h
    exact ⟨heach, ht.le.trans (Nat.zero_le _), (hmost.trans hs.le).trans zero_le⟩
  | deferred d skip =>
    obtain ⟨u, hd, _, hmost, _⟩ := h
    have hu : u.cardinality.most = 0 := nonpos_iff_eq_zero.1 (hmost.trans hs.le)
    refine ⟨⟨t.item, u.cardinality⟩, ⟨?_, ?_⟩, fun _ => id, hu.le.trans zero_le, .inr ht⟩
    · have hstart := hd.start
      rw [hu] at hstart
      exact (hstart.of_none _).imp (fun _ _ _ => id) le_rfl zero_le
    · exact hd.toList.imp fun _ _ _ => hempty hu.le

theorem passes (h : SoundValue k v s) (hp : Passes s t) : SoundValue k v t :=
  hp.elim h.narrower fun hnone => h.of_none hnone.1 hnone.2

theorem source (h : SoundValue k v t) :
    Yields (R.ofType t.item) t.cardinality.least t.cardinality.most k v.source := by
  cases v with
  | items xs => exact yields_ofList h
  | deferred d skip =>
    obtain ⟨s, hd, hsuits, hmost, ⟨rfl, hleast⟩ | hleast⟩ := h
    · have hdrop : (Value.deferred d 0).source = d.source := rfl
      rw [hdrop]
      exact hd.source.imp (fun _ x _ => hsuits x) hleast hmost
    · exact (hd.source.drop skip).imp (fun _ x _ => hsuits x) hleast.le hmost

theorem toList (h : SoundValue k v t) : Runs k v.toList fun l xs => FitsType t l xs := by
  cases v with
  | items xs => exact runs_pure fun _ hm => Fits.later h hm
  | deferred d skip =>
    obtain ⟨s, hd, hsuits, hmost, hleast⟩ := h
    apply hd.toList.bind
    intro m xs _ hxs
    apply runs_pure
    intro m' hm'
    have hdrop : ((xs.drop skip).length : ℕ∞) ≤ xs.length := by
      exact_mod_cast (List.drop_sublist skip xs).length_le
    refine ⟨fun x hx => hsuits x (hxs.each x (List.mem_of_mem_drop hx)), ?_,
      hdrop.trans (hxs.most.trans hmost)⟩
    obtain ⟨rfl, hleast⟩ | hleast := hleast
    · exact hleast.trans hxs.least
    · exact hleast.trans_le (Nat.zero_le _)

theorem tail (h : SoundValue k v t) (n : ℕ) :
    Runs k (v.tail n) fun l u => SoundValue l u ⟨t.item, t.cardinality.orEmpty⟩ := by
  refine runs_require fun m u hm hu => ?_
  have hv := h.later hm
  obtain ⟨xs, rfl, rfl⟩ | ⟨d, skip, rfl, -, rfl⟩ := Value.exists_of_tail? hu
  · have hsub := List.drop_sublist n xs
    exact FitsType.dropAll hv hsub.subset hsub.length_le
  · obtain ⟨s, hd, hsuits, hmost, _⟩ := hv
    exact ⟨s, hd, hsuits, by rwa [Cardinality.most_orEmpty], .inr (Cardinality.least_orEmpty _)⟩

end SoundValue

/-- Items that are values of a type, each by itself. -/
def valuesFor (R : Regime) (t : SequenceType) : R.Known Item :=
  ⟨fun k x => SoundValue k (.items [x]) t, fun hl h => h.later hl⟩

/-- The variables of a frame have values of their types. -/
def Conforms (types : Slot → SequenceType) (k : R.Stage) (f : Frame) : Prop :=
  ∀ slot v, f.slots slot = some v → SoundValue k v (types slot)

/-- The declared variables have values of their types. -/
def GlobalsConform (types : QName → SequenceType) (k : R.Stage) (c : DynamicContext) : Prop :=
  ∀ n xs, c.valueOf? n.toName = some xs → FitsType (types n) k xs

theorem GlobalsConform.later {types : QName → SequenceType} {c : DynamicContext}
    (h : GlobalsConform types k c) (hl : R.le k l) : GlobalsConform types l c :=
  fun n xs hn => Fits.later (h n xs hn) hl

namespace Conforms
variable {types : Slot → SequenceType}

theorem later (h : Conforms types k f) (hl : R.le k l) : Conforms types l f :=
  fun slot v hv => (h slot v hv).later hl

theorem bind (h : Conforms types k f) {slot : Slot} {v : Value} (hv : SoundValue k v (types slot)) :
    Conforms types k (f.bind slot v) := by
  intro slot' v' hv'
  unfold Frame.bind at hv'
  dsimp only at hv'
  split at hv'
  · next heq =>
    cases hv'
    rw [heq]
    exact hv
  · exact h slot' v' hv'

theorem capture (h : Conforms types k f) (slots : List Slot) : Conforms types k (f.capture slots) := by
  intro slot v hv
  unfold Frame.capture at hv
  dsimp only at hv
  split at hv
  · exact h slot v hv
  · cases hv

end Conforms

theorem runs_valueOf {types : Slot → SequenceType} {globals : QName → SequenceType}
    {c : DynamicContext} (hf : Conforms types k f) (hc : GlobalsConform globals k c)
    (r : VariableRef) :
    Runs k (f.valueOf c r) fun l v =>
      SoundValue l v ((LeafOp.variable r).typeWith types globals) := by
  cases r with
  | range slot => exact runs_require fun m v hm hv => (hf slot v hv).later hm
  | global n =>
    apply runs_require
    intro m v hm hv
    obtain ⟨xs, hxs, rfl⟩ := Option.map_eq_some_iff.1 hv
    exact (hc n xs hxs).later hm

/-! Operators without operands. -/

theorem sound_variable (n : Note) {c : DynamicContext} {r : VariableRef}
    (h : Runs k (f.valueOf c r) fun l v => SoundValue l v t) :
    Sound k ((LeafOp.variable r).ways c n) f t :=
  .ofItems n (yields_after (h.bind fun _ _ _ hv => runs_pure fun _ hm => (hv.later hm).source))

theorem isNumeric_ofConstant {c : Constant} (h : c.type.isNumeric) : (Atomic.ofConstant c).isNumeric := by
  cases c <;> first | rfl | cases h

theorem sound_literal (n : Note) (c : DynamicContext) (cs : List Constant) :
    Sound k ((LeafOp.literal cs).ways c n) f
      ⟨.commonOf (cs.map fun c => .atomic c.type), .ofLength cs.length⟩ := by
  rw [LeafOp.ways_literal]
  refine .ofItems n (yields_ofList ⟨fun x hx hnum => ?_, ?_, ?_⟩)
  · obtain ⟨b, hb, rfl⟩ := List.mem_map.1 hx
    exact isNumeric_ofConstant (ItemType.isNumeric_of_commonOf hnum (.atomic b.type)
      (List.mem_map_of_mem hb))
  · rw [List.length_map]
    exact Cardinality.least_ofLength _
  · rw [List.length_map]
    exact Cardinality.most_ofLength _

theorem runs_contextItem : Runs k f.contextItem fun _ _ => True :=
  runs_require_any _ _

theorem runs_contextNode : Runs k f.contextNode fun _ _ => True :=
  runs_contextItem.bind fun _ _ _ _ => runs_require_any _ _

theorem sound_contextItem (n : Note) (c : DynamicContext) :
    Sound k (LeafOp.contextItem.ways c n) f (.one .item) :=
  .ofItem n (runs_contextItem.map fun _ _ _ _ =>
    fitsType_single (ItemType.suits_of_not rfl _) le_rfl le_rfl)

theorem sound_root (n : Note) (c : DynamicContext) :
    Sound k (LeafOp.root.ways c n) f (.one (.node (.document none))) := by
  have hdocument : Runs k (documentOf f) fun _ _ => True :=
    runs_contextNode.bind fun _ _ _ _ => runs_forest.bind fun _ _ _ _ =>
      (runs_require_any _ _).bind fun _ _ _ _ =>
        runs_pure fun _ _ => trivial
  exact .ofItem n (hdocument.bind fun _ _ _ _ => runs_pure fun _ _ =>
    fitsType_single (ItemType.suits_of_not rfl _) le_rfl le_rfl)

/-- As many nodes as are on the axis and pass the test. -/
theorem runs_stepNodes (axis : Axis) (test : NodeTest) : Runs k (stepNodes axis test f) fun _ is =>
    ∃ l w i, R.good l w ∧
      is.length = ((axis.nodes (w.forest.chain i)).filter (test.holds axis)).length := by
  apply runs_contextNode.bind
  intro m i _ _
  apply runs_forest.bind
  intro m' t _ ht
  obtain ⟨w, hw, rfl⟩ := ht
  dsimp only
  split
  · refine (runs_ordering (Q := fun _ is => is.length =
        ((axis.nodes (w.forest.chain i)).filter (test.holds axis)).length) _ fun _ t o => ?_).bind
      fun _ is _ his => runs_pure fun _ _ => ⟨m', w, i, hw, ?_⟩
    · rw [DocumentOrder.length_arrange, List.length_map]
    · rw [List.length_reverse, his]
  · exact runs_pure fun _ _ => ⟨m', w, i, hw, List.length_map _⟩

/-- No element has two attributes of one name. -/
def HasDistinctAttributes (R : Regime) : Prop :=
  ∀ {k w}, R.good k w → w.forest.HasDistinctAttributes

theorem sound_step (n : Note) (c : DynamicContext) (axis : Axis) (test : NodeTest)
    (hn : Narrower ⟨Expr.stepType axis test, .zeroOrMore⟩ ⟨t.item, .zeroOrMore⟩)
    (hleast : t.cardinality.least = 0)
    (hmost : ∀ l w i, R.good l w →
      ((axis.nodes (w.forest.chain i)).filter (test.holds axis)).length ≤ t.cardinality.most) :
    Sound k ((LeafOp.step axis test).ways c n) f t := by
  have hnumber : (Expr.stepType axis test).isNumeric = false := by
    unfold Expr.stepType
    split
    · rfl
    · dsimp only
      split <;> rfl
  refine .ofItems n (yields_after ((runs_stepNodes axis test).bind fun _ is _ his => runs_pure
    fun _ _ => yields_ofList (fitsType_nodes (hn.not_numeric hnumber) ?_ ?_)))
  · exact hleast.trans_le (Nat.zero_le _)
  · obtain ⟨m, w, i, hw, hlen⟩ := his
    rw [hlen]
    exact hmost m w i hw

/-! The value that a variable is bound to. -/

theorem runs_bound {c : DynamicContext} {e : Expr} {own : Ways} {parts : List Ways}
    (hdefers : R.Defers t) (hown : Sound k own f t)
    (hcaptured : ∀ slots l, R.le k l → Sound l own (f.capture slots) t)
    (hempty : e.mode = .returnEmpty → t.cardinality.least = 0)
    (href : ∀ r, e.reference? = some r → Runs k (f.valueOf c r) fun l v => SoundValue l v t)
    (htail : ∀ r n, e.tail? = some (r, n) →
      Runs k (do (← f.valueOf c r).tail n) fun l v => SoundValue l v t)
    (happend : ∀ r x rest, e.head? = some r → parts = [x, rest] →
      Runs k (do
        let xs ← (← f.valueOf c r).toList
        return Value.items (xs ++ (← rest.toList f))) fun l v => SoundValue l v t) :
    Runs k (e.bound c own parts f) fun l v => SoundValue l v t := by
  have hlist {p : Eval (List Item)} (hp : Runs k p fun l xs => FitsType t l xs) :
      Runs k (do return Value.items (← p)) fun l v => SoundValue l v t :=
    hp.bind fun _ _ _ hxs => runs_pure fun _ hm => Fits.later hxs hm
  have hall := hlist hown.toList
  have hdefer (keeps : Bool) (slots : List Slot) :
      Runs k (do return Value.deferred (← Deferred.create keeps (own.items (f.capture slots))) 0)
        fun l v => SoundValue l v t := by
    refine (hdefers keeps (hcaptured slots k (R.refl k)).items).bind fun m d _ hd => runs_pure
      fun m' hm' => ⟨t, hd.later hm', fun _ => id, le_rfl, .inl ⟨rfl, le_rfl⟩⟩
  unfold Expr.bound
  cases hmode : e.mode with
  | returnEmpty =>
    exact runs_pure fun _ _ => ⟨List.forall_mem_nil _, (hempty hmode).le, zero_le⟩
  | alreadyValue => exact hall
  | iterateAndMaterialize => exact hall
  | singleItem => exact hown.item.bind fun _ _ _ ho => runs_pure fun _ hm => Fits.later ho hm
  | pushProduction => exact hlist hown.push
  | oneShotClosure slots => exact hdefer false slots
  | memoClosure slots => exact hdefer true slots
  | evaluateVariable =>
    dsimp only
    split
    · next r hr => exact href r hr
    · exact hall
  | materializeVariable =>
    dsimp only
    split
    · next r hr =>
      exact (href r hr).bind fun m v _ hv => hv.toList.bind fun _ _ _ hxs => runs_pure fun _ hm =>
        Fits.later hxs hm
    · exact hall
  | lazyTail =>
    dsimp only
    split
    · next r n hr => exact htail r n hr
    · exact hall
  | sharedAppend =>
    dsimp only
    split
    · next r x rest hr => exact happend r x rest hr rfl
    · exact hall

end Regime
end XPath
