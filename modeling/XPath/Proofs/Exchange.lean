import XPath.Proofs.Likeness
import XPath.Proofs.TypedOperators

/-!
One forest in place of another. Where two forests have some nodes in the same places, and an evaluation
starts with no others, it meets no others: in either forest it answers the same and finds out the same.
-/
namespace XPath

/-- Nodes that are found in the same places of two forests, with all nodes of their trees. -/
structure Exchange where
  before : Forest
  after : Forest
  inside : NodeId → Prop
  chain : ∀ {i}, inside i → after.chain i = before.chain i
  closed : ∀ {i t u}, inside i → t ∈ before.chain i → u ∈ t.preorder → inside u.id

namespace Exchange
variable {E : Exchange} {i j : NodeId} {is : List NodeId} {x : Item} {xs : List Item}

/-! What is read of a node that is inside. -/

section Reads

theorem node?_eq (hi : E.inside i) : E.after.node? i = E.before.node? i := congrArg List.head? (E.chain hi)

theorem root?_eq (hi : E.inside i) : E.after.root? i = E.before.root? i := congrArg List.getLast? (E.chain hi)

theorem content?_eq (hi : E.inside i) : E.after.content? i = E.before.content? i :=
  congrArg (Option.map Tree.content) (node?_eq hi)

theorem stringValue_eq (hi : E.inside i) : E.after.stringValue i = E.before.stringValue i := by
  rw [Forest.stringValue, node?_eq hi, Forest.stringValue]

theorem inside_of_root? {r u : Tree} (hi : E.inside i) (hr : E.before.root? i = some r) (hu : u ∈ r.preorder) :
    E.inside u.id :=
  E.closed hi (List.mem_of_getLast? hr) hu

/-- No axis leads outside. -/
theorem inside_of_axis {axis : Axis} {u : Tree} (hi : E.inside i) (hu : u ∈ axis.nodes (E.before.chain i)) :
    E.inside u.id := by
  -- The node and its ancestors are taken for the trees of a forest, which no axis leaves.
  let line : Forest := { trees := E.before.chain i }
  have hmem : u ∈ line.nodes := Axis.nodes_subset axis (fun t ht => Forest.mem_nodes_of_root ht) u hu
  obtain ⟨t, ht, hut⟩ := Tree.mem_preorderList.1 hmem
  exact E.closed hi ht hut

/-- An atomic value, or a node that is inside. -/
def Has (E : Exchange) (x : Item) : Prop := ∀ i, x.node? = some i → E.inside i

theorem has_atomic (a : Atomic) : E.Has (.atomic a) := nofun

theorem has_node : E.Has (.node i) ↔ E.inside i := ⟨fun h => h i rfl, fun h _ hj => Option.some.inj hj ▸ h⟩

theorem text_eq (hx : E.Has x) : x.text E.after = x.text E.before := by
  cases x with
  | atomic a => rfl
  | node i => exact stringValue_eq (has_node.1 hx)

theorem value_eq (hx : E.Has x) : x.value E.after = x.value E.before := by
  cases x with
  | atomic a => rfl
  | node i => simp only [Item.value, content?_eq (has_node.1 hx), stringValue_eq (has_node.1 hx)]

theorem itemType_holds_eq (t : ItemType) (hx : E.Has x) : t.holds E.after x = t.holds E.before x := by
  cases x with
  | atomic a => cases t <;> rfl
  | node i =>
    cases t with
    | node k => simp only [ItemType.holds, node?_eq (has_node.1 hx)]
    | _ => rfl

theorem holds_eq (t : SequenceType) (hxs : ∀ x ∈ xs, E.Has x) : t.holds E.after xs = t.holds E.before xs := by
  have hall : xs.all (t.item.holds E.after) = xs.all (t.item.holds E.before) := by
    rw [Bool.eq_iff_iff, List.all_eq_true, List.all_eq_true]
    exact forall₂_congr fun x hx => by rw [itemType_holds_eq t.item (hxs x hx)]
  rw [SequenceType.holds, hall, SequenceType.holds]

end Reads

/-! Document order. -/

section Order
open DocumentOrder

theorem rank_eq (hi : E.inside i) (o : DocumentOrder) : o.rank E.after i = o.rank E.before i := by
  unfold rank
  rw [root?_eq hi]

theorem compare_eq (hi : E.inside i) (hj : E.inside j) (o : DocumentOrder) :
    o.compare E.after i j = o.compare E.before i j := by
  simp only [DocumentOrder.compare, rank_eq hi, rank_eq hj]

theorem rankAll_eq (his : ∀ i ∈ is, E.inside i) (o : DocumentOrder) :
    rankAll E.after is o = rankAll E.before is o := by
  induction is generalizing o with
  | nil => rfl
  | cons i is ih =>
    obtain ⟨hi, his⟩ := List.forall_mem_cons.1 his
    simp only [rankAll, rank_eq hi, ih his]

theorem arrange_eq (his : ∀ i ∈ is, E.inside i) (o : DocumentOrder) :
    o.arrange E.after is = o.arrange E.before is := by
  simp only [arrange, rankAll_eq his]

end Order

/-! Worlds. -/

/-- The same world with the other forest. -/
def move (E : Exchange) (w : World) : World := { w with forest := E.after }

theorem move_indexes (w : World) : (E.move w).indexes = w.indexes := rfl

theorem move_cells (w : World) : (E.move w).cells = w.cells := rfl

/-- The items of an index do not lead outside. -/
def HasIndex (E : Exchange) (x : Index) : Prop := ∀ e ∈ x.entries, E.Has e.1

/-- A world with the first forest, in which nothing that is kept leads outside. -/
structure Good (E : Exchange) (w : World) : Prop where
  forest : w.forest = E.before
  found : ∀ key x, w.indexes.lookup key = some x → E.HasIndex x
  kept : ∀ (n : ℕ) xs, w.cells[n]?.bind (·.kept) = some xs → ∀ x ∈ xs, E.Has x

theorem Good.reordered {w : World} (hw : E.Good w) (o : DocumentOrder) : E.Good { w with order := o } :=
  ⟨hw.forest, hw.found, hw.kept⟩

end Exchange

/-- Forests that are exchanged, with worlds that are alike in spite of that: they have these forests, find the
same order of nodes that are inside, and put off evaluations that they know so much of that these give the same
items in each of them. -/
structure Setting extends Exchange, Likeness where
  Knows : Deferred → Prop
  forests : ∀ {w w'}, alike w w' → w.forest = before ∧ w'.forest = after
  compares : ∀ {i j}, inside i → inside j →
    toLikeness.Runs (Eval.ordering fun t o => o.compare t i j) fun _ => True
  arranges : ∀ {is : List NodeId}, (∀ i ∈ is, inside i) →
    toLikeness.Runs (Eval.ordering fun t o => o.arrange t is) fun js => ∀ j ∈ js, inside j
  starts : ∀ {d : Deferred}, Knows d → toLikeness.Yields d.items toExchange.Has →
    toLikeness.Yields d.start toExchange.Has
  lists : ∀ {d : Deferred}, Knows d → toLikeness.Yields d.items toExchange.Has →
    toLikeness.Runs d.toList (∀ x ∈ ·, toExchange.Has x)

namespace Setting
variable {S : Setting} {i j : NodeId} {is : List NodeId} {x : Item} {α β : Type} {P : α → Prop} {Q : β → Prop}

/-- What is read of the forest is in both, and goes on in the same way. -/
theorem runs_forest {f : Forest → Eval β} (hsame : f S.after = f S.before) (hf : S.Runs (f S.before) Q) :
    S.Runs (Eval.forest >>= f) Q := by
  intro w w' hw
  have h := hf w w' hw
  obtain ⟨hbefore, hafter⟩ := S.forests hw
  rw [Regime.perform_bind, Regime.perform_bind]
  change S.Answers Q ((f w.forest).perform w) ((f w'.forest).perform w')
  rwa [hbefore, hafter, hsame]

/-- A value that is read of the forest. -/
theorem runs_read {g : Forest → α} (hsame : g S.after = g S.before) (hg : P (g S.before)) :
    S.Runs (do return g (← Eval.forest)) P :=
  runs_forest (congrArg pure hsame) (Likeness.runs_pure hg)

theorem runs_value (hx : S.Has x) : S.Runs (Eval.value x) fun _ => True :=
  runs_read (Exchange.value_eq hx) trivial

theorem runs_sort (his : ∀ i ∈ is, S.inside i) :
    S.Runs (Eval.ordering fun t o => o.sort t is) (∀ j ∈ ·, S.inside j) :=
  (S.arranges his).map fun _ hjs j hj => hjs j (DocumentOrder.mem_dropRepeats.1 hj)

end Setting
end XPath
