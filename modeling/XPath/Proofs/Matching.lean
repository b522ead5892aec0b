import XPath.Evaluation.Matching
import XPath.Grammar.Pattern
import XPath.Proofs.Ancestry
import XPath.Proofs.Coherence
import XPath.Proofs.Formation
import XPath.Proofs.Reading

/-!
Matching a node by looking at it alone. A pattern that is a single step selects among all nodes of a tree, and a
node that passes the test of the step is selected if it stands below another one; the pattern for the root of a
document selects the root of the tree. The answer that is given without selecting is the one that selecting gives,
except for an attribute that is a tree of its own, which nothing selects and no program makes.
-/
namespace XPath

/-- The nodes that a step leads to from a node. -/
def Forest.along (f : Forest) (axis : Axis) (test : NodeTest) (i : NodeId) : List NodeId :=
  ((axis.nodes (f.chain i)).filter (test.holds axis)).map (·.id)

/-! What expressions give that look at the trees only. -/

namespace Pull
variable {σ ε α β : Type} {w : σ} {xs ys : List α} {p : Pull σ ε α}

/-- These items are given and no failure, if the state is left as it is; the source leaves it as it is, too. -/
inductive Lists (w : σ) : List α → Pull σ ε α → Prop where
  | done : Lists w [] (.done w)
  | item (x : α) {xs : List α} {rest : σ → Pull σ ε α} : Lists w xs (rest w) →
    Lists w (x :: xs) (.item (.ok x) w rest)

namespace Lists

theorem collect (h : p.Lists w xs) (met : List α) : p.collect met = (.ok (met.reverse ++ xs), w) := by
  induction h generalizing met with
  | done => rw [Pull.collect, List.append_nil]
  | item x _ ih => rw [Pull.collect, ih, List.reverse_cons, List.append_assoc, List.singleton_append]

theorem mapError (h : p.Lists w xs) (g : ε → ε) : (p.mapError g).Lists w xs := by
  induction h with
  | done => exact .done
  | item x _ ih => exact .item x ih

theorem append {second : Source σ ε α} (h : p.Lists w xs) (hs : (second w).Lists w ys) :
    (p.append second).Lists w (xs ++ ys) := by
  induction h with
  | done => exact hs
  | item x _ ih => exact .item x ih

theorem bind {f : ℕ → α → Source σ ε β} {g : α → List β} (h : p.Lists w xs)
    (hf : ∀ k, ∀ x ∈ xs, (f k x w).Lists w (g x)) (n : ℕ) : (p.bind f n).Lists w (xs.flatMap g) := by
  induction h generalizing n with
  | done => exact .done
  | @item x xs rest _ ih =>
    have hrest := ih (fun k y hy => hf k y (List.mem_cons_of_mem x hy)) (n + 1)
    have hx := hf n x List.mem_cons_self
    rw [Pull.bind, List.flatMap_cons]
    generalize f n x w = q at hx
    generalize g x = zs at hx
    cases hx with
    | done => exact hrest
    | item z hzs => exact .item z (hzs.append hrest)

theorem ofList (xs : List α) (w : σ) : Lists w xs (Source.ofList xs w : Pull σ ε α) := by
  induction xs with
  | nil => exact .done
  | cons x xs ih => exact .item x ih

theorem after {a : Eval (Source World Failure α)} {s : Source World Failure α} {w : World}
    (ha : a.perform w = (.ok s, w)) (h : (s w).Lists w xs) : (Source.after a w).Lists w xs := by
  unfold Source.after
  rwa [ha]

theorem after_list {a : Eval (List α)} {w : World} (ha : a.perform w = (.ok xs, w)) :
    (Source.after (do return Source.ofList (← a)) w).Lists w xs := by
  refine after (s := .ofList xs) ?_ (.ofList xs w)
  rw [Regime.perform_bind, ha]
  rfl

/-- Looking for an item that passes a test. -/
theorem forIn (h : p.Lists w xs) {test : α → Prop} [DecidablePred test] :
    p.forIn false (fun _ x => return if test x then .done true else .yield false) =
      (.ok (decide (∃ x ∈ xs, test x)), w) := by
  induction h with
  | done => simp [Pull.forIn]
  | @item x xs rest _ ih =>
    rw [Pull.forIn]
    by_cases hx : test x
    · have hfound : ∃ y ∈ x :: xs, test y := ⟨x, List.mem_cons_self, hx⟩
      simp only [if_pos hx, decide_eq_true hfound]
      rfl
    · have hrest : (∃ y ∈ x :: xs, test y) ↔ ∃ y ∈ xs, test y := by simp [hx]
      simp only [if_neg hx, hrest]
      exact ih

end Lists
end Pull

namespace Frame
variable {f : Frame} {i : NodeId}

/-- The context item is this node. -/
def IsAt (f : Frame) (i : NodeId) : Prop := f.focus.map (·.item) = some (.node i)

theorem perform_contextNode (h : f.IsAt i) (w : World) : f.contextNode.perform w = (.ok i, w) := by
  unfold contextNode contextItem
  rw [show f.focus.map (·.item) = some (.node i) from h]
  rfl

end Frame

namespace Expr
variable {c : DynamicContext} {f : Frame} {w : World} {e a b : Expr} {i : NodeId} {is : List NodeId}

/-- The expression gives these nodes and leaves the world as it is. -/
def Selects (c : DynamicContext) (f : Frame) (w : World) (e : Expr) (is : List NodeId) : Prop :=
  ((e.meaning c).items f w).Lists w (is.map .node)

theorem Selects.toList (h : e.Selects c f w is) :
    ((e.meaning c).toList f).perform w = (.ok (is.map .node), w) :=
  Pull.Lists.collect h []

/-- A step that goes down. -/
theorem selects_step {axis : Axis} (haxis : axis.isReverse = false) (test : NodeTest) (h : f.IsAt i)
    (at' : LocationId) : (mkLeaf (.step axis test) at').Selects c f w (w.forest.along axis test i) := by
  unfold Selects mkLeaf
  rw [meaning_leaf]
  refine Pull.Lists.mapError ?_ _
  have hnodes : (stepNodes axis test f).perform w = (.ok (w.forest.along axis test i), w) := by
    unfold stepNodes
    rw [Regime.perform_bind, f.perform_contextNode h]
    simp only [haxis, Bool.false_eq_true, if_false]
    rfl
  refine .after ?_ (.ofList _ w)
  rw [Regime.perform_bind, hnodes]
  rfl

/-- The root of the tree that the context node is in. -/
theorem selects_contextRoot {r : Tree} (hr : w.forest.root? i = some r) (h : f.IsAt i) (at' : LocationId) :
    (contextRoot at').Selects c f w [r.id] := by
  unfold Selects contextRoot callAt mkNary
  rw [meaning_nary]
  refine Pull.Lists.mapError ?_ _
  have hcall : (Call.Site.call ⟨[], f, true⟩ c .root).perform w = (.ok [.node r.id], w) := by
    have hsubject : (Call.Site.subjectNode ⟨[], f, true⟩).perform w = (.ok (some i), w) := by
      unfold Call.Site.subjectNode
      rw [if_pos rfl]
      change Action.perform (do return some (← f.contextNode)) w = _
      rw [Regime.perform_bind, f.perform_contextNode h]
      rfl
    unfold Call.Site.call
    dsimp only
    rw [Regime.perform_bind, hsubject]
    change (Except.ok ((w.forest.root? i).map fun t => Item.node t.id).toList, w) = _
    rw [hr]
    rfl
  exact Pull.Lists.after_list hcall

/-- A step from each of the nodes, of which the step does not ask for the number. -/
theorem selects_path {g : NodeId → List NodeId} (ha : a.Selects c f w is) (hlast : b.info.dependencies.last = false)
    (hb : ∀ i ∈ is, ∀ k, b.Selects c (f.withFocus (.node i) k none) w (g i)) (at' : LocationId) :
    (mkBinary .path a b at').Selects c f w (is.flatMap g) := by
  unfold Selects mkBinary
  rw [meaning_binary]
  refine Pull.Lists.mapError ?_ _
  have hcounted : ((a.meaning c).toWays.counted (b.meaning c).toWays f).perform w =
      (.ok ((a.meaning c).items f, none), w) := by
    unfold Ways.counted
    rw [meaning_note, if_neg (by simp [hlast])]
    rfl
  refine .after (s := ((a.meaning c).items f).bind fun n x => if x.node?.isSome then
    (b.meaning c).items (f.withFocus x n none) else .fail { code := .pathOnNonNode }) ?_ ?_
  · rw [Regime.perform_bind, hcounted]
    rfl
  · have hall : (is.flatMap g).map Item.node =
        (is.map Item.node).flatMap fun x => (x.node?.elim [] g).map .node := by
      rw [List.map_flatMap, List.flatMap_map]
      rfl
    rw [hall]
    refine ha.bind (fun k x hx => ?_) 1
    obtain ⟨i, hi, rfl⟩ := List.mem_map.1 hx
    exact hb i hi k

end Expr

/-! Which nodes are below other nodes. -/

namespace Forest
open XPath.Tree
variable {f : Forest} {i : NodeId} {t u r : Tree} {ancestors : List Tree} {axis : Axis}

/-- Trees of whatever kind, as they can be kept: every node has an identity of its own, and only parts that it may
have. -/
structure IsArena (f : Forest) : Prop where
  nodup : (idsOf f.trees).Nodup
  formed : ∀ t ∈ f.trees, t.IsFormed

namespace IsArena

theorem tree (h : f.IsArena) (ht : t ∈ f.nodes) : t.IsFormed := by
  obtain ⟨r, hr, htr⟩ := mem_preorderList.1 ht
  exact fun u hu => h.formed r hr u (mem_preorder_trans r htr hu)

end IsArena

end Forest

/-! What is read as a pattern that the node alone decides. -/

namespace Parser
variable {α β : Type} {p : Parser α} {f : α → Parser β} {P : α → Prop} {Q : β → Prop}

/-- Whatever the parser gives is such. -/
def Promises (p : Parser α) (P : α → Prop) : Prop := ∀ c s, Ensures c p s fun a _ => P a

namespace Promises

theorem inScope (h : Promises p P) : Promises (Parser.inScope p) P :=
  fun c s => Ensures.inScope (Q := fun a _ => P a) (h c s)

theorem of_run {context : StaticContext} {kind : GrammarKind} {source : String} {start line : ℕ}
    {unit : CompileUnit} {a : α} (h : Promises p P) (hrun : (p.run context kind source start line unit).1 = .ok a) :
    P a := (h _ _).of_run hrun

theorem pure {a : α} (h : P a) : Promises (pure a) P := fun _ _ => .pure h

theorem bind (hp : Promises p P) (hf : ∀ a, P a → Promises (f a) Q) : Promises (p >>= f) Q :=
  fun c s => .bind ((hp c s).imp fun a s' ha => hf a ha c s')

/-- It does not matter what comes before. -/
theorem after (hf : ∀ a, Promises (f a) Q) : Promises (p >>= f) Q :=
  fun c _ => .bind fun a s' _ => hf a c s'

theorem ite {b : Prop} [Decidable b] {q : Parser α} (hp : Promises p P) (hq : Promises q P) :
    Promises (if b then p else q) P :=
  fun c s => .ite (fun _ => hp c s) fun _ => hq c s

end Promises

end Parser

namespace Parser

end Parser

namespace Pattern
variable {text : String} {context : StaticContext} {unit : CompileUnit} {p : Pattern} {a : PatternAlternative}

end Pattern

/-! The answers. -/

namespace PatternShape
open XPath.Tree
variable {c : DynamicContext} {f : Frame} {w : World} {e : Expr} {i : NodeId} {shape : PatternShape}

/-- A step from the root of the tree that the context node is in. -/
theorem selects_fromRoot {r : Tree} (hr : w.forest.root? i = some r) (h : f.IsAt i) {axis : Axis}
    (haxis : axis.isReverse = false) (test : NodeTest) (at' : LocationId) :
    (Expr.mkBinary .path (Expr.contextRoot at') (.mkLeaf (.step axis test) at') at').Selects c f w
      (w.forest.along axis test r.id) := by
  have hpath := Expr.selects_path (Expr.selects_contextRoot (c := c) hr h at') (b := .mkLeaf (.step axis test) at') rfl
    (fun j _ k => Expr.selects_step haxis test (rfl : (f.withFocus (.node j) k none).IsAt j) at') at'
  rwa [List.flatMap_singleton] at hpath

/-- All ordinary nodes of that tree. -/
theorem selects_tree {r : Tree} (hw : w.forest.IsArena) (hr : w.forest.root? i = some r) (h : f.IsAt i)
    (at' : LocationId) : ((Expr.contextRoot at').descendantOrSelf at').Selects c f w
      ((ordinary r.preorder).map (·.id)) := by
  have hall : w.forest.along .descendantOrSelf (.kind .anyNode) r.id = (ordinary r.preorder).map (·.id) := by
    obtain ⟨ancestors, hchain⟩ := Forest.chain_of_mem hw.nodup (Forest.mem_nodes_of_root (Forest.root?_mem hr))
    rw [Forest.along, hchain]
    exact congrArg (List.map _) (List.filter_eq_self.2 fun _ _ => rfl)
  rw [← hall]
  exact selects_fromRoot hr h rfl _ at'

/-- The nodes that a step leads to from anywhere in that tree. -/
theorem selects_step {axis : Axis} {test : NodeTest} (haxis : axis = .child ∨ axis = .attr) {r : Tree}
    (hw : w.forest.IsArena) (hr : w.forest.root? i = some r) (h : f.IsAt i) (at' step : LocationId) :
    (Expr.mkBinary .path ((Expr.contextRoot at').descendantOrSelf at') (.mkLeaf (.step axis test) step)
      at').Selects c f w (((ordinary r.preorder).map (·.id)).flatMap (w.forest.along axis test)) :=
  Expr.selects_path (selects_tree hw hr h at') rfl (fun j _ k => Expr.selects_step
    (by obtain rfl | rfl := haxis <;> rfl) test (rfl : (f.withFocus (.node j) k none).IsAt j) step) at'

end PatternShape

namespace PatternAlternative
variable {c : DynamicContext} {f : Frame} {w : World} {e : Expr} {i : NodeId}

end PatternAlternative

namespace Pattern
variable {text : String} {context : StaticContext} {unit : CompileUnit} {p : Pattern} {a : PatternAlternative}

end Pattern
end XPath
