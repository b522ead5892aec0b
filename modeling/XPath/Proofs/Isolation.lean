import XPath.Proofs.Ignoring
import XPath.Proofs.Preservation

/-!
Queries do not disturb each other. A query that makes no nodes does not notice an exchange, and whatever is
done in between is an exchange of the forests that the documents are in.
-/
namespace XPath

namespace Exchange
open Likeness
variable {E : Exchange} {c : DynamicContext} {f : Frame} {d : Deferred}

/-- Worlds that differ in the forest alone. -/
def likeness (E : Exchange) : Likeness := ⟨fun w w' => E.Good w ∧ w' = E.move w⟩

theorem alike_move {w : World} (hw : E.Good w) : E.likeness.alike w (E.move w) := ⟨hw, rfl⟩

/-! Document order and cells. -/

theorem runs_ordering {α : Type} {Q : α → Prop} {g : Forest → DocumentOrder → α × DocumentOrder}
    (hsame : ∀ o, g E.after o = g E.before o) (hg : ∀ o, Q (g E.before o).1) :
    E.likeness.Runs (Eval.ordering g) Q := by
  rintro w _ ⟨hw, rfl⟩
  change E.likeness.Answers Q (.ok (g w.forest w.order).1, { w with order := (g w.forest w.order).2 })
    (.ok (g E.after w.order).1, E.move { w with order := (g E.after w.order).2 })
  rw [hsame, ← hw.forest]
  exact .ok (hw.forest ▸ hg _) (alike_move (hw.reordered _))

theorem Good.modify {w : World} (hw : E.Good w) (i : ℕ) {g : Cell → Cell}
    (hg : ∀ c xs, (g c).kept = some xs → c.kept = some xs ∨ ∀ x ∈ xs, E.Has x) :
    E.Good { w with cells := w.cells.modify i g } := by
  refine ⟨hw.forest, hw.found, fun n xs hxs => ?_⟩
  dsimp only at hxs
  rw [Array.getElem?_modify] at hxs
  split at hxs
  · next heq =>
    subst heq
    obtain ⟨c', hc', hkept⟩ := Option.bind_eq_some_iff.1 hxs
    obtain ⟨c, hc, rfl⟩ := Option.map_eq_some_iff.1 hc'
    obtain hold | hnew := hg c xs hkept
    · exact hw.kept i xs (Option.bind_eq_some_iff.2 ⟨c, hc, hold⟩)
    · exact hnew
  · exact hw.kept n xs hxs

theorem runs_create (keeps : Bool) {src : Items} (h : E.likeness.Yields src E.Has) :
    E.likeness.Runs (Deferred.create keeps src) fun d => True ∧ E.likeness.Yields d.items E.Has := by
  rintro w _ ⟨hw, rfl⟩
  have hpush : E.Good { w with cells := w.cells.push {} } := by
    refine ⟨hw.forest, hw.found, fun n xs hxs => ?_⟩
    dsimp only at hxs
    rw [Array.getElem?_push] at hxs
    split at hxs
    · cases hxs
    · exact hw.kept n xs hxs
  exact .ok (x := (⟨w.cells.size, keeps, src⟩ : Deferred)) ⟨trivial, h⟩ (alike_move hpush)

theorem yields_start (h : E.likeness.Yields d.items E.Has) : E.likeness.Yields d.start E.Has := by
  rintro w _ ⟨hw, rfl⟩
  exact h _ _ (alike_move (hw.modify d.cell fun _ _ => .inl))

theorem runs_deferred (h : E.likeness.Yields d.items E.Has) : E.likeness.Runs d.toList (∀ x ∈ ·, E.Has x) := by
  rintro w _ ⟨hw, rfl⟩
  rw [Regime.perform_deferred, Regime.perform_deferred, move_cells]
  cases hcell : w.cells[d.cell]?.bind (·.kept) with
  | some xs => exact runs_pure (hw.kept _ _ hcell) _ _ (alike_move hw)
  | none =>
    refine ((yields_start h).toList.bind fun xs hxs => ?_) _ _ (alike_move hw)
    split
    · rintro w _ ⟨hw, rfl⟩
      refine .ok hxs (alike_move (hw.modify d.cell fun c ys hys => ?_))
      dsimp only at hys
      cases hkept : c.kept with
      | some zs =>
        rw [hkept] at hys
        exact .inl hys
      | none =>
        rw [hkept] at hys
        cases hys
        exact .inr hxs
    · exact runs_pure hxs

/-- Worlds that differ in the forest alone. -/
def setting (E : Exchange) : Setting where
  toExchange := E
  toLikeness := E.likeness
  Knows _ := True
  forests := by
    rintro w _ ⟨hw, rfl⟩
    exact ⟨hw.forest, rfl⟩
  compares hi hj := runs_ordering (compare_eq hi hj) fun _ => trivial
  arranges his := runs_ordering (arrange_eq his) fun _ j hj => his j (DocumentOrder.mem_arrange hj)
  starts _ := yields_start
  lists _ := runs_deferred

theorem defers_setting (E : Exchange) : E.setting.Defers := fun keeps _ h => runs_create keeps h

theorem finds_setting (E : Exchange) (c : DynamicContext) (a b : Expr) : E.setting.Finds c a b := by
  intro ha hb f hf _ w _ ⟨hw, hmove⟩
  subst hmove
  rw [Regime.perform_findIndex, Regime.perform_findIndex, move_indexes]
  cases hlook : w.indexes.lookup _ with
  | some x => exact runs_pure (hw.found _ x hlook) _ _ (alike_move hw)
  | none =>
    have hmake := Setting.runs_makeIndex (ha f hf) fun _ n size hx => hb _ (hf.withFocus hx n size)
    refine (hmake.bind fun x hx => ?_) _ _ (alike_move hw)
    rintro w _ ⟨hw, rfl⟩
    refine .ok hx (alike_move ⟨hw.forest, fun key' y hy => ?_, hw.kept⟩)
    rw [List.lookup_cons] at hy
    split at hy
    · cases hy
      exact hx
    · exact hw.found key' y hy

/-- An expression that makes no nodes does not notice an exchange. -/
theorem suits_setting (E : Exchange) (c : DynamicContext) {e : Expr} (he : e.effects.creates = false) :
    e.Suits E.setting c :=
  ⟨he, fun _ => E.defers_setting, fun _ a b _ _ => E.finds_setting c a b⟩

end Exchange

/-! Runs. -/

/-- Where two forests have the same documents, these are in the same places. -/
def Forest.Guards.exchange {D : List Tree} {f g : Forest} (h : f.Guards D) (h' : g.Guards D) : Exchange where
  before := f
  after := g
  inside i := i ∈ Tree.idsOf D
  chain hi := (h'.chain hi).trans (h.chain hi).symm
  closed := h.closed

namespace Exchange
variable {E : Exchange}

/-- A world in which nothing has been found out yet. -/
theorem good_start : E.Good { forest := E.before } := ⟨rfl, nofun, fun n xs hxs => by simp at hxs⟩

theorem runs_answer {m : Meaning} {f : Frame} (h : E.setting.Carries m.toWays f) (extent : Extent) :
    E.setting.Runs (m.answer f extent) (∀ x ∈ ·, E.Has x) := by
  cases extent with
  | all => exact h.toList
  | pushed => exact h.push
  | single => exact h.item.gives fun o ho x hx => ho x (Option.mem_toList.1 hx)
  | first n => exact (h.items.take n).toList

theorem answer_eq {p : Eval α} {Q : α → Prop} (h : E.setting.Runs p Q) :
    (p.perform { forest := E.after }).1 = (p.perform { forest := E.before }).1 := by
  have ha := h _ _ (alike_move good_start)
  change E.likeness.Answers Q _ (p.perform { forest := E.after }) at ha
  generalize p.perform { forest := E.before } = r, p.perform { forest := E.after } = r' at ha ⊢
  cases ha <;> rfl

end Exchange

namespace Documents

/-- The context item and the values of the variables are atomic or nodes of the documents, and keys are
searched for below a given node. -/
structure Admits (d : Documents) (c : DynamicContext) (item : Option Item) : Prop where
  item : ∀ i, item = some (.node i) → d.Has i
  globals : ∀ n xs, c.valueOf? n = some xs → ∀ i, .node i ∈ xs → d.Has i
  keys : ∀ r, c.keys = some r → r.SearchesBelow

variable {d d' : Documents}

namespace Admits
variable {E : Exchange} {c : DynamicContext} {item : Option Item}

theorem has_value (h : d.Admits c item) (hin : ∀ i, d.Has i → E.inside i) {n : Name} {xs : List Item}
    (hxs : c.valueOf? n = some xs) : ∀ x ∈ xs, E.Has x := by
  intro x hx i hi
  cases x with
  | atomic a => cases hi
  | node j =>
    cases hi
    exact hin _ (h.globals n xs hxs _ hx)

theorem hasContext (h : d.Admits c item) (hin : ∀ i, d.Has i → E.inside i) : E.setting.HasContext c :=
  ⟨fun _ _ => h.has_value hin, h.keys⟩

theorem hasFrame (h : d.Admits c item) (hin : ∀ i, d.Has i → E.inside i) (p : Program) :
    E.setting.HasFrame (p.frame c item) := by
  refine ⟨fun s v hv => ?_, fun o ho i hi => ?_⟩
  · obtain ⟨n, xs, hxs, rfl⟩ := Program.frame_items hv
    exact h.has_value hin hxs
  · obtain ⟨x, rfl, rfl⟩ := Option.map_eq_some_iff.1 ho
    cases x with
    | atomic a => cases hi
    | node j =>
      cases hi
      exact hin _ (h.item _ rfl)

end Admits

theorem Leads.has {i : NodeId} (hd : Leads {} d) (h : Leads d d') (hi : d.Has i) : d'.Has i := by
  obtain ⟨r, hr, t, ht, hit⟩ := hi
  have hself : r ∈ t.ids := (Forest.node?_eq_some ht).2 ▸ List.mem_map_of_mem (Tree.mem_preorder_self t)
  have hroot : d.Has r := ⟨r, hr, t, ht, hself⟩
  refine ⟨r, h.roots r hr, t, ?_, hit⟩
  rw [Forest.node?, Leads.chain hd h hroot]
  exact ht

/-- Whatever documents are added, and whatever is run or tested, with or without success, every node of the
documents that there were keeps its parent and all that is below it. A query that makes no nodes and starts
from nodes of those documents answers as it did before. -/
theorem run_isolated (hd : Leads {} d) (h : Leads d d') :
    (∀ i, d.Has i → d'.Has i ∧ d'.forest.node? i = d.forest.node? i ∧
      d'.forest.parent? i = d.forest.parent? i) ∧
    ∀ (p : Program) (extent : Extent) (c : DynamicContext) (item : Option Item),
      p.expr.effects.creates = false → d.Admits c item →
      (p.run extent c item d').1 = (p.run extent c item d).1 := by
  refine ⟨fun i hi => ⟨Leads.has hd h hi, ?_, ?_⟩, fun p extent c item hp hadmits => ?_⟩
  · rw [Forest.node?, Leads.chain hd h hi, Forest.node?]
  · rw [Forest.parent?, Leads.chain hd h hi, Forest.parent?]
  · -- The documents are guarded in both forests, and what comes of them alone stays among them.
    obtain ⟨D, hD⟩ := exists_guarded hd
    let E := hD.forest.exchange (h.spares D hD.forest)
    have hin : ∀ i, d.Has i → E.inside i := fun _ => hD.mem_ids
    have hignores := p.expr.ignores (hadmits.hasContext hin) fun x hx =>
      E.suits_setting c (Expr.all_not_creates _ hp x hx)
    exact Exchange.answer_eq (Exchange.runs_answer (hignores.carries _ (hadmits.hasFrame hin p)) extent)

/-- Elements are keyed by their names. -/
def findNamed : KeyResolver := fun f _ value root =>
  .ok (((((f.node? root).map Tree.preorder).getD []).filter fun t =>
    t.content.isElement && t.content.name?.any (·.localPart == value)).map Tree.id)

theorem findNamed_searchesBelow : KeyResolver.SearchesBelow findNamed where
  below f _ value root is his i hi := by
    cases his
    obtain ⟨u, hu, rfl⟩ := List.mem_map.1 hi
    obtain ⟨hu, -⟩ := List.mem_filter.1 hu
    cases hroot : f.node? root with
    | none =>
      rw [hroot] at hu
      cases hu
    | some t =>
      rw [hroot] at hu
      exact ⟨t, rfl, List.mem_map_of_mem hu⟩
  same f g _ value root h := by
    unfold findNamed
    rw [h]

/-- The document `<a/>`. -/
def small : Documents := ⟨⟨2, [.node 0 .document [.node 1 (.element ⟨"a", ""⟩) []]]⟩, #[0]⟩

/-- Makes an element with a copy of the context item. -/
def wrapping : Program :=
  ⟨.mkUnary (.element { localPart := "e", uri := none, pfx := none }) (.mkLeaf .contextItem 0) 0, 0, [], #[]⟩

/-- `key('k', 'a')`. -/
def lookup : Program :=
  ⟨.mkNary (.call (.builtin .key)) [.mkLeaf (.literal [.string "k"]) 0, .mkLeaf (.literal [.string "a"]) 0] 0,
    0, [], #[]⟩

/-- The element of the document is wrapped, and is looked up afterwards as before. -/
theorem run_isolated_lookup :
    let keyed : DynamicContext := { keys := some findNamed }
    let wrapped := (wrapping.run .all {} (some (.node 1)) small).2
    Leads {} small ∧ Leads small wrapped ∧ small.Has 1 ∧ small.Admits keyed (some (.node 0)) ∧
    lookup.expr.effects.creates = false ∧ wrapped.forest.parent? 1 = small.forest.parent? 1 ∧
    (lookup.run .all keyed (some (.node 0)) wrapped).1 = (lookup.run .all keyed (some (.node 0)) small).1 ∧
    (lookup.run .all keyed (some (.node 0)) small).1.toOption = some [.node 1] := by
  intro keyed wrapped
  have hread : ({} : Documents).add? "<a/>" = some small := by rfl
  have hadd : Leads {} small := .single (.add hread)
  have hrun : Leads small wrapped := .single (.run wrapping .all {} (some (.node 1)))
  have hhas : ∀ i < 2, small.Has i := fun i hi =>
    ⟨0, by simp [small], _, rfl, by interval_cases i <;> decide⟩
  have hadmits : small.Admits keyed (some (.node 0)) := by
    refine ⟨fun i hi => ?_, fun n xs hxs => ?_, fun r hr => ?_⟩
    · cases hi
      exact hhas 0 (by decide)
    · cases hxs
    · cases hr
      exact findNamed_searchesBelow
  obtain ⟨hkept, hsame⟩ := run_isolated hadd hrun
  exact ⟨hadd, hrun, hhas 1 (by decide), hadmits, rfl, (hkept 1 (hhas 1 (by decide))).2.2,
    hsame lookup .all keyed (some (.node 0)) rfl hadmits, by decide +kernel⟩

end Documents
end XPath
