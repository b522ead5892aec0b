import XPath.Proofs.Growth
import XPath.Proofs.Purity
import XPath.Query

/-!
Documents are spared. Elements are made beside the documents: what is taken from a document is copied, and
what is moved into an element is not part of one. This needs nothing of the content, which may also name
nodes that there are not.
-/
namespace XPath

namespace Tree
variable {i : NodeId} {t : Tree} {ts : List Tree} {D : List Tree}

/-- Whether a tree has a node that one of these trees has. -/
def meets (D : List Tree) (t : Tree) : Bool := t.ids.any (idsOf D).contains

theorem meets_eq_true : t.meets D = true ↔ ∃ i ∈ t.ids, i ∈ idsOf D := by
  simp [meets]

theorem meets_eq_false : t.meets D = false ↔ ∀ i ∈ t.ids, i ∉ idsOf D := by
  simp [meets]

theorem mem_idsOf (ht : t ∈ ts) (hi : i ∈ t.ids) : i ∈ idsOf ts := by
  rw [idsOf_eq]
  exact List.mem_flatMap.2 ⟨t, ht, hi⟩

theorem chain?_eq_none (h : i ∉ t.ids) : t.chain? i = none := by
  cases hc : t.chain? i with
  | none => rfl
  | some us =>
    have hline := isLine_of_chain? t hc
    obtain ⟨u, hu, hid⟩ := Option.map_eq_some_iff.1 hline.head
    refine absurd (List.mem_map.2 ⟨u, ?_, hid⟩) h
    exact hline.mem_preorder u (List.mem_of_mem_head? hu)

/-- New numbers are the free ones, up to those that are still free. -/
theorem mem_renumber {n : NodeId} (hi : i ∈ (t.renumber n).1.ids) : n ≤ i ∧ i < (t.renumber n).2 := by
  obtain ⟨hids, hnext⟩ := t.renumber_ids n
  rw [hids, List.mem_range'_1] at hi
  rwa [hnext]

theorem le_renumber (t : Tree) (n : NodeId) : n ≤ (t.renumber n).2 := by
  rw [(t.renumber_ids n).2]
  exact Nat.le_add_right _ _

theorem renumber_id (t : Tree) (n : NodeId) : (t.renumber n).1.id = n := by
  cases t
  rfl

/-- Trees without the node do not matter to where it is found. -/
theorem chainList?_filter {p : Tree → Bool} (h : ∀ t ∈ ts, p t = false → i ∉ t.ids) :
    chainList? i (ts.filter p) = chainList? i ts := by
  induction ts with
  | nil => rfl
  | cons t ts ih =>
    obtain ⟨ht, hts⟩ := List.forall_mem_cons.1 h
    cases hp : p t with
    | true => rw [List.filter_cons_of_pos hp, chainList?, chainList?, ih hts]
    | false =>
      rw [List.filter_cons_of_neg (by simp [hp]), chainList?, chain?_eq_none (ht hp), ih hts]
      rfl

end Tree

theorem Content.eq_document {c : Content} (h : c.isDocument) : c = .document := by
  cases c <;> first | rfl | cases h

namespace Forest
open XPath.Tree

/-- A node without ancestors is a tree of its own. -/
theorem root_of_chain {f : Forest} {i : NodeId} {t : Tree} (h : f.chain i = [t]) : t ∈ f.trees ∧ t.id = i := by
  obtain ⟨r, hr, hline⟩ := isLine_chain (by simp [h] : f.chain i ≠ [])
  rw [h] at hline
  cases hline.last
  exact ⟨hr, chain_head h⟩

/-- The documents are trees of the forest, and no other tree has a node of theirs. -/
structure Guards (D : List Tree) (f : Forest) : Prop where
  trees : f.trees.filter (·.meets D) = D
  documents : ∀ t ∈ D, t.content.isDocument
  below : ∀ i ∈ idsOf f.trees, i < f.next

namespace Guards
variable {f : Forest} {D : List Tree} {i n : NodeId} {t : Tree}

theorem mem_trees (h : f.Guards D) (ht : t ∈ D) : t ∈ f.trees := by
  rw [← h.trees] at ht
  exact (List.mem_filter.1 ht).1

theorem mem_ids (h : f.Guards D) (hi : i ∈ idsOf D) : i ∈ idsOf f.trees := by
  obtain ⟨u, hu, rfl⟩ := List.mem_map.1 hi
  obtain ⟨t, ht, hut⟩ := mem_preorderList.1 hu
  exact List.mem_map_of_mem (mem_preorderList.2 ⟨t, h.mem_trees ht, hut⟩)

/-- A node of a document is found where it is in the documents. -/
theorem chain (h : f.Guards D) (hi : i ∈ idsOf D) : f.chain i = (chainList? i D).getD [] := by
  have hfilter : chainList? i (f.trees.filter (·.meets D)) = chainList? i f.trees :=
    chainList?_filter fun t _ hmeets hit => meets_eq_false.1 hmeets i hit hi
  unfold Forest.chain
  rw [← hfilter, h.trees]

/-- From a node of a document only nodes of the documents are reached. -/
theorem closed {u : Tree} (h : f.Guards D) (hi : i ∈ idsOf D) (ht : t ∈ f.chain i) (hu : u ∈ t.preorder) :
    u.id ∈ idsOf D := by
  rw [h.chain hi] at ht
  obtain ⟨us, hus⟩ := Option.isSome_iff_exists.1 (chainList?_isSome D hi)
  obtain ⟨root, hroot, hline⟩ := isLine_of_chainList? D hus
  rw [hus] at ht
  have hut := mem_preorder_trans root (hline.mem_preorder t ht) hu
  exact List.mem_map_of_mem (mem_preorderList.2 ⟨root, hroot, hut⟩)

theorem mem_of_meets (h : f.Guards D) (ht : t ∈ f.trees) (hmeets : t.meets D) : t ∈ D := by
  rw [← h.trees]
  exact List.mem_filter.2 ⟨ht, hmeets⟩

theorem id_mem_of_meets (h : f.Guards D) (ht : t ∈ f.trees) (hmeets : t.meets D) : t.id ∈ idsOf D :=
  List.mem_map_of_mem (mem_preorderList.2 ⟨t, h.mem_of_meets ht hmeets, mem_preorder_self t⟩)

/-- New nodes are in no document. -/
theorem not_meets (h : f.Guards D) (ht : ∀ i ∈ t.ids, f.next ≤ i) : t.meets D = false :=
  meets_eq_false.2 fun i hi hD => absurd (h.below i (h.mem_ids hD)) (Nat.not_lt.2 (ht i hi))

theorem withNext (h : f.Guards D) (hn : f.next ≤ n) : Guards D { f with next := n } :=
  ⟨h.trees, h.documents, fun i hi => (h.below i hi).trans_le hn⟩

theorem cons (h : f.Guards D) (hmeets : t.meets D = false) (hbelow : ∀ i ∈ t.ids, i < f.next) :
    Guards D { f with trees := t :: f.trees } := by
  refine ⟨?_, h.documents, fun i hi => ?_⟩
  · rw [List.filter_cons_of_neg (by simp [hmeets]), h.trees]
  · rw [idsOf_cons, List.mem_append] at hi
    exact hi.elim (hbelow i) (h.below i)

/-- A tree that has no node of the documents is taken away. -/
theorem remove (h : f.Guards D) (hi : i ∉ idsOf D) : Guards D { f with trees := f.trees.filter (·.id != i) } := by
  refine ⟨?_, h.documents, fun j hj => h.below j ?_⟩
  · rw [List.filter_filter, List.filter_congr (q := (·.meets D)) fun u hu => ?_, h.trees]
    cases hmeets : u.meets D with
    | false => rfl
    | true =>
      have hne : u.id ≠ i := fun hid => hi (hid ▸ h.id_mem_of_meets hu hmeets)
      simp [hne]
  · obtain ⟨u, hu, rfl⟩ := List.mem_map.1 hj
    obtain ⟨t, ht, hut⟩ := mem_preorderList.1 hu
    exact List.mem_map_of_mem (mem_preorderList.2 ⟨t, (List.mem_filter.1 ht).1, hut⟩)

theorem add (h : f.Guards D) (t : Tree) : (f.add t).2.Guards D :=
  (h.withNext (le_renumber t f.next)).cons (h.not_meets fun _ hi => (mem_renumber hi).1)
    fun _ hi => (mem_renumber hi).2

/-- A document is added and guarded with the others. -/
theorem addDocument (h : f.Guards D) (ht : t.content.isDocument) :
    (f.add t).2.Guards ((t.renumber f.next).1 :: D) := by
  have hmeets : (t.renumber f.next).1.meets ((t.renumber f.next).1 :: D) := by
    refine meets_eq_true.2 ⟨f.next, ?_, ?_⟩ <;> simp [ids_eq, idsOf_cons, renumber_id]
  refine ⟨?_, List.forall_mem_cons.2 ⟨?_, h.documents⟩, (h.add t).below⟩
  · change List.filter _ ((t.renumber f.next).1 :: f.trees) = _
    rw [List.filter_cons_of_pos hmeets, List.filter_congr (q := (·.meets D)) fun v hv => ?_, h.trees]
    -- The new nodes are in no other tree, so the other trees meet the documents as before.
    have hold : ∀ i ∈ v.ids, i ∉ (t.renumber f.next).1.ids := fun i hi hnew =>
      absurd (h.below i (mem_idsOf hv hi)) (Nat.not_lt.2 (mem_renumber hnew).1)
    rw [Bool.eq_iff_iff, meets_eq_true, meets_eq_true]
    simp only [idsOf_cons, List.mem_append]
    exact exists_congr fun i => and_congr_right fun hi => or_iff_right (hold i hi)
  · rwa [renumber_content]

end Guards

end Forest

namespace Construction
open XPath.Tree

/-- Making the element spares the documents. -/
structure Guards (D : List Tree) (c : Construction) : Prop where
  forest : c.forest.Guards D
  apart : c.element.meets D = false
  below : ∀ i ∈ c.element.ids, i < c.forest.next

namespace Guards
variable {f : Forest} {D : List Tree} {c : Construction} {t : Tree}

theorem start (h : f.Guards D) (name : NodeName) : (Construction.start f name).Guards D := by
  refine ⟨h.withNext (Nat.le_succ _), h.not_meets fun i hi => ?_, fun i hi => ?_⟩
  · exact (List.mem_singleton.1 hi).ge
  · rw [List.mem_singleton.1 hi]
    exact Nat.lt_succ_self _

theorem finish (h : c.Guards D) : c.finish.2.Guards D := h.forest.cons h.apart h.below

theorem append (h : c.Guards D) (hapart : t.meets D = false) (hbelow : ∀ i ∈ t.ids, i < c.forest.next) :
    (c.append t).Guards D := by
  have hids : ∀ i ∈ (c.append t).element.ids, i ∈ c.element.ids ∨ i ∈ t.ids := by
    intro i hi
    rw [ids_eq c.element, List.mem_cons]
    change i ∈ (node c.element.id c.element.content (place t c.element.parts)).ids at hi
    rw [ids_node, List.mem_cons] at hi
    obtain ⟨hperm, -⟩ | ⟨heq, -⟩ := (Placed.place t c.element.parts).ids
    · rw [hperm.mem_iff, List.mem_append] at hi
      tauto
    · rw [heq] at hi
      tauto
  refine ⟨h.forest, meets_eq_false.2 fun i hi => ?_, fun i hi => (hids i hi).elim (h.below i) (hbelow i)⟩
  exact (hids i hi).elim (meets_eq_false.1 h.apart i) (meets_eq_false.1 hapart i)

/-- A tree of new nodes is appended. -/
theorem appendNew (h : c.Guards D) {n : NodeId} (hn : c.forest.next ≤ n)
    (ht : ∀ i ∈ t.ids, c.forest.next ≤ i ∧ i < n) :
    Guards D (Construction.append t { c with forest := { c.forest with next := n } }) := by
  have hnext : Guards D { c with forest := { c.forest with next := n } } :=
    ⟨h.forest.withNext hn, h.apart, fun i hi => (h.below i hi).trans_le hn⟩
  exact hnext.append (h.forest.not_meets fun i hi => (ht i hi).1) fun i hi => (ht i hi).2

theorem appendCopy (h : c.Guards D) (t : Tree) : (c.appendCopy t).Guards D :=
  h.appendNew (le_renumber t c.forest.next) fun _ => mem_renumber

theorem appendCopies (h : c.Guards D) (ts : List Tree) : Guards D (ts.foldl (fun c u => c.appendCopy u) c) := by
  induction ts generalizing c with
  | nil => exact h
  | cons t ts ih => exact ih (h.appendCopy t)

theorem appendString (h : c.Guards D) (s : String) : (c.appendString s).Guards D := by
  unfold Construction.appendString
  split
  · exact h
  · refine h.appendNew (Nat.le_succ _) fun i hi => ?_
    rw [List.mem_singleton.1 hi]
    exact ⟨le_rfl, Nat.lt_succ_self _⟩

theorem appendNode (h : c.Guards D) (i : NodeId) : (c.appendNode i).Guards D := by
  unfold Construction.appendNode
  split
  · exact h
  · next t ancestors heq =>
    split
    · exact h.appendCopies _
    · exact h
    · next hdocument _ =>
      split
      · next hnone =>
        -- A tree of its own that is not a document has no node of a document.
        obtain rfl := List.isEmpty_iff.1 hnone
        obtain ⟨hroot, rfl⟩ := c.whole.root_of_chain heq
        have hapart : t.meets D = false := by
          obtain rfl | ht := List.mem_cons.1 hroot
          · exact h.apart
          · refine Bool.eq_false_iff.2 fun hmeets => hdocument ?_
            exact Content.eq_document (h.forest.documents t (h.forest.mem_of_meets ht hmeets))
        have hrest : Guards D { c with
            forest := { c.forest with trees := c.forest.trees.filter (·.id != t.id) } } :=
          ⟨h.forest.remove (meets_eq_false.1 hapart _ (by simp [ids_eq])), h.apart, h.below⟩
        exact hrest.append hapart fun i hi => h.finish.below i (mem_idsOf hroot hi)
      · exact h.appendCopy t

theorem appendContent (words : List String) (xs : List Item) (h : c.Guards D) :
    (c.appendContent words xs).Guards D := by
  induction xs generalizing words c with
  | nil => exact h.appendString _
  | cons x xs ih =>
    cases x with
    | atomic a => exact ih (a.text :: words) h
    | node i => exact ih [] ((h.appendString _).appendNode i)

end Guards
end Construction

/-! Runs. -/

/-- Whatever documents there are, they are left alone. -/
def Forest.Spares (f g : Forest) : Prop := ∀ D, f.Guards D → g.Guards D

theorem Forest.moves_spares : Forest.Moves Forest.Spares :=
  ⟨fun _ _ h => h, fun h h' D hD => h' D (h D hD)⟩

theorem Forest.makes_spares : Forest.Makes Forest.Spares :=
  ⟨fun _ name content _ h => ((Construction.Guards.start h name).appendContent [] content).finish,
    fun _ _ _ h => h.add _⟩

section Runs
open Regime
variable {le : Forest → Forest → Prop} {m : Meaning} {f : Frame}

theorem Meaning.Keeps.answer (h : Forest.Moves le) (hm : m.Keeps le f) (extent : Extent) :
    Eval.Keeps le (m.answer f extent) := by
  cases extent with
  | all => exact Runs.keeps (h := h) fun t => (yields_of_keeps hm.items t).toList
  | pushed => exact hm.push
  | single =>
    exact Runs.keeps (h := h) fun t => (runs_of_keeps hm.item t).gives (S := fun _ _ => True) fun _ _ => trivial
  | first n => exact Runs.keeps (h := h) fun t => ((yields_of_keeps hm.items t).take n).toList

theorem Expr.meaning_keeps (h : Forest.Moves le) (hmakes : Forest.Makes le) (c : DynamicContext) (e : Expr)
    (hf : ∀ s v, f.slots s = some v → v.Keeps le) : (e.meaning c).Keeps le f :=
  keeps_of_makes h c (fun _ _ _ => hmakes) hf

/-- The variables that a program starts with have lists of items. -/
theorem Program.frame_items {p : Program} {c : DynamicContext} {item : Option Item} {s : Slot} {v : Value}
    (hv : (p.frame c item).slots s = some v) : ∃ n xs, c.valueOf? n = some xs ∧ v = .items xs := by
  obtain ⟨⟨n, s'⟩, _, hv⟩ := Option.bind_eq_some_iff.1 hv
  obtain ⟨xs, hxs, hv⟩ := Option.bind_eq_some_iff.1 hv
  exact ⟨n.toName, xs, hxs, (Option.some.inj hv).symm⟩

theorem Program.run_keeps (h : Forest.Moves le) (hmakes : Forest.Makes le) (p : Program) (extent : Extent)
    (c : DynamicContext) (item : Option Item) (d : Documents) :
    le d.forest (p.run extent c item d).2.forest := by
  refine (p.expr.meaning_keeps h hmakes c fun s v hv => ?_).answer h extent { forest := d.forest }
  obtain ⟨_, _, _, rfl⟩ := frame_items hv
  trivial

theorem PatternAlternative.runs_accepts (h : Forest.Moves le) (hmakes : Forest.Makes le)
    (a : PatternAlternative) (i : NodeId) (t : Forest) :
    Runs (R := keeping h) t (a.accepts {} {} i) fun _ _ => True := by
  have hitems := (a.expr.meaning_keeps h hmakes {}
    (f := ({} : Frame).withFocus (.node i) 1 (some 1)) (by rintro _ _ ⟨⟩)).items
  refine runs_forest.bind fun t₁ _ _ _ => ?_
  dsimp only
  split
  · exact runs_pure fun _ _ => trivial
  · split
    · exact (yields_of_keeps hitems t₁).head?.bind fun _ _ _ _ => runs_pure fun _ _ => trivial
    · refine (yields_of_keeps hitems t₁).forIn_any _ fun _ _ x _ _ => ?_
      split <;> exact runs_pure fun _ _ => trivial

theorem Pattern.test_keeps (h : Forest.Moves le) (hmakes : Forest.Makes le) (p : Pattern) (i : NodeId)
    (d : Documents) : le d.forest (p.test i d).2.forest := by
  have hany (as : List PatternAlternative) (t : Forest) :
      Runs (R := keeping h) t (as.anyM fun a => a.accepts {} {} i) fun _ _ => True := by
    induction as generalizing t with
    | nil => exact runs_pure fun _ _ => trivial
    | cons a as ih =>
      refine (a.runs_accepts h hmakes i t).bind fun t₁ b _ _ => ?_
      cases b with
      | true => exact runs_pure fun _ _ => trivial
      | false => exact ih t₁
  exact Runs.keeps (hany p.alternatives) { forest := d.forest }

end Runs

/-! Documents that are added, and what comes after. -/

theorem Xml.content_of_read? {text : String} {t : Tree} (h : read? text = some t) : t.content = .document := by
  obtain ⟨ms, _, h⟩ := Option.bind_eq_some_iff.1 h
  obtain ⟨s, _, h⟩ := Option.bind_eq_some_iff.1 h
  split at h
  · cases h
    rfl
  · cases h

namespace Documents
open XPath.Tree

/-- The node is in a document that has been added. -/
def Has (d : Documents) (i : NodeId) : Prop := ∃ r ∈ d.roots, ∃ t, d.forest.node? r = some t ∧ i ∈ t.ids

/-- A document is added, a query is run or a pattern is tested; a run may end with a failure. -/
inductive Step : Documents → Documents → Prop where
  | add {d d' text} : d.add? text = some d' → Step d d'
  | run {d} (p : Program) (extent : Extent) (c : DynamicContext) (item : Option Item) :
      Step d (p.run extent c item d).2
  | test {d} (p : Pattern) (i : NodeId) : Step d (p.test i d).2

/-- Any number of steps. -/
def Leads : Documents → Documents → Prop := Relation.ReflTransGen Step

/-- The documents that have been added are among those that are guarded. -/
structure Guarded (D : List Tree) (d : Documents) : Prop where
  forest : d.forest.Guards D
  roots : ∀ r ∈ d.roots, r ∈ idsOf D

variable {d d' : Documents} {D : List Tree} {i : NodeId}

theorem Step.spares (h : Step d d') : d.forest.Spares d'.forest := by
  cases h with
  | add hadd =>
    obtain ⟨t, -, rfl⟩ := Option.map_eq_some_iff.1 hadd
    exact fun D hD => hD.add t
  | run p extent c item => exact p.run_keeps Forest.moves_spares Forest.makes_spares extent c item d
  | test p i => exact p.test_keeps Forest.moves_spares Forest.makes_spares i d

theorem Leads.spares (h : Leads d d') : d.forest.Spares d'.forest := by
  induction h with
  | refl => exact Forest.moves_spares.refl _
  | tail _ hstep ih => exact Forest.moves_spares.trans ih hstep.spares

theorem Step.roots (h : Step d d') : ∀ r ∈ d.roots, r ∈ d'.roots := by
  cases h with
  | add hadd =>
    obtain ⟨t, -, rfl⟩ := Option.map_eq_some_iff.1 hadd
    exact fun r hr => Array.mem_push_of_mem _ hr
  | run p extent c item => exact fun _ hr => hr
  | test p i => exact fun _ hr => hr

theorem Leads.roots (h : Leads d d') : ∀ r ∈ d.roots, r ∈ d'.roots := by
  induction h with
  | refl => exact fun _ hr => hr
  | tail _ hstep ih => exact fun r hr => hstep.roots r (ih r hr)

theorem Guarded.add {text : String} (h : d.Guarded D) (hadd : d.add? text = some d') :
    ∃ u, d'.Guarded (u :: D) := by
  obtain ⟨t, ht, rfl⟩ := Option.map_eq_some_iff.1 hadd
  refine ⟨_, h.forest.addDocument (Xml.content_of_read? ht ▸ rfl), fun r hr => ?_⟩
  rw [idsOf_cons, List.mem_append]
  obtain hr | rfl := Array.mem_push.1 hr
  · exact .inr (h.roots r hr)
  · refine .inl ?_
    rw [ids_eq, renumber_id]
    exact List.mem_cons_self

/-- All documents are guarded. -/
theorem exists_guarded (h : Leads {} d) : ∃ D, d.Guarded D := by
  induction h with
  | refl => exact ⟨[], ⟨rfl, nofun, nofun⟩, by simp⟩
  | tail _ hstep ih =>
    obtain ⟨D, hD⟩ := ih
    cases hstep with
    | add hadd =>
      obtain ⟨u, hu⟩ := hD.add hadd
      exact ⟨_, hu⟩
    | run p extent c item =>
      exact ⟨D, (Step.run p extent c item).spares D hD.forest, hD.roots⟩
    | test p i => exact ⟨D, (Step.test p i).spares D hD.forest, hD.roots⟩

theorem Guarded.mem_ids (h : d.Guarded D) (hi : d.Has i) : i ∈ idsOf D := by
  obtain ⟨r, hr, t, ht, hi⟩ := hi
  obtain ⟨u, hu, rfl⟩ := List.mem_map.1 hi
  exact h.forest.closed (h.roots r hr) (List.mem_of_mem_head? ht) hu

/-- Whatever is done, every node of the documents is found in the same place and has the same parts. -/
theorem Leads.chain (hd : Leads {} d) (h : Leads d d') (hi : d.Has i) : d'.forest.chain i = d.forest.chain i := by
  obtain ⟨D, hD⟩ := exists_guarded hd
  rw [hD.forest.chain (hD.mem_ids hi), (h.spares D hD.forest).chain (hD.mem_ids hi)]

end Documents
end XPath
