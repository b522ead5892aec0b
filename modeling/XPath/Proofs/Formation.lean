import XPath.Proofs.Preservation

/-!
Which nodes stand below which. Only elements and documents have parts, no part is a document, and no tree of its
own is an attribute. Documents are read like that, and elements are made like that from whatever content.
-/
namespace XPath

/-- Whether a node may have another one as a part. -/
def Content.MayHold (c d : Content) : Prop := (c.isElement ∨ c.isDocument) ∧ d.isDocument = false

namespace Tree
variable {t : Tree} {i : NodeId} {c : Content} {ts us : List Tree}

/-- Every node has only parts that it may have. -/
def IsFormed (t : Tree) : Prop := ∀ u ∈ t.preorder, ∀ p ∈ u.parts, u.content.MayHold p.content

/-- What may stand below an element. -/
def IsPart (t : Tree) : Prop := t.content.isDocument = false ∧ t.IsFormed

theorem isFormed_node : (node i c ts).IsFormed ↔ ∀ t ∈ ts, c.MayHold t.content ∧ t.IsFormed := by
  constructor
  · intro h t ht
    exact ⟨h _ (mem_preorder_self _) t ht,
      fun u hu => h u (mem_preorder_trans _ (mem_preorder_of_part ht) hu)⟩
  · intro h u hu
    obtain rfl | ⟨t, ht, hu⟩ := mem_preorder_iff.1 hu
    · exact fun p hp => (h p hp).1
    · exact (h t ht).2 u hu

theorem isFormed_leaf (i : NodeId) (c : Content) : (node i c []).IsFormed := isFormed_node.2 nofun

/-- An element or a document of parts. -/
theorem isFormed_of_parts (hc : c.isElement ∨ c.isDocument) (h : ∀ t ∈ ts, t.IsPart) : (node i c ts).IsFormed :=
  isFormed_node.2 fun t ht => ⟨⟨hc, (h t ht).1⟩, (h t ht).2⟩

theorem IsFormed.isPart (h : t.IsFormed) : ∀ p ∈ t.parts, p.IsPart := by
  cases t with
  | node i c ts => exact fun p hp => ⟨(isFormed_node.1 h p hp).1.2, (isFormed_node.1 h p hp).2⟩

/-- A node that may have no parts has none, so that it may become any other node. -/
theorem IsFormed.withContent {d : Content} (h : (node i c ts).IsFormed)
    (hc : ¬ (c.isElement ∨ c.isDocument)) : (node i d ts).IsFormed :=
  isFormed_node.2 fun t ht => absurd (isFormed_node.1 h t ht).1.1 hc

mutual

theorem renumber_isFormed (t : Tree) (n : NodeId) (h : t.IsFormed) : (t.renumber n).1.IsFormed := by
  match t with
  | .node _ d ts => exact isFormed_node.2 (renumberList_isFormed d ts (n + 1) (isFormed_node.1 h))

theorem renumberList_isFormed (d : Content) (ts : List Tree) (n : NodeId)
    (h : ∀ t ∈ ts, d.MayHold t.content ∧ t.IsFormed) :
    ∀ t ∈ (renumberList n ts).1, d.MayHold t.content ∧ t.IsFormed := by
  match ts with
  | [] => nofun
  | t :: ts =>
    obtain ⟨⟨hc, ht⟩, hts⟩ := List.forall_mem_cons.1 h
    exact List.forall_mem_cons.2
      ⟨⟨by rwa [renumber_content], renumber_isFormed t n ht⟩, renumberList_isFormed d ts _ hts⟩

end

theorem IsPart.renumber (h : t.IsPart) (n : NodeId) : (t.renumber n).1.IsPart :=
  ⟨by rw [renumber_content, h.1], renumber_isFormed t n h.2⟩

end Tree

/-- Every tree is formed, and is not an attribute. -/
def Forest.IsFormed (f : Forest) : Prop := ∀ t ∈ f.trees, t.content.isOrdinary ∧ t.IsFormed

namespace Forest.IsFormed
open XPath.Tree
variable {f : Forest} {t : Tree}

theorem tree (h : f.IsFormed) (ht : t ∈ f.nodes) : t.IsFormed := by
  obtain ⟨r, hr, htr⟩ := mem_preorderList.1 ht
  exact fun u hu => (h r hr).2 u (mem_preorder_trans r htr hu)

theorem add (h : f.IsFormed) (hroot : t.content.isOrdinary) (ht : t.IsFormed) : (f.add t).2.IsFormed :=
  List.forall_mem_cons.2 ⟨⟨by rwa [renumber_content], t.renumber_isFormed f.next ht⟩, h⟩

end Forest.IsFormed

namespace Construction
open XPath.Tree

theorem Placed.isPart {t : Tree} {ts us : List Tree} (h : Placed t ts us) (ht : t.IsPart)
    (hts : ∀ u ∈ ts, u.IsPart) : ∀ u ∈ us, u.IsPart := by
  cases h with
  | added before after => grind
  | joined before after parts hkind =>
    rename_i i c d
    have hold : (node i c parts).IsPart := hts _ (by simp)
    have hnew : (node i d parts).IsPart := by
      obtain ⟨_, hc, hd⟩ | ⟨_, n, v, w, rfl, rfl⟩ := hkind
      · refine ⟨?_, hold.2.withContent ?_⟩
        · cases d <;> first | rfl | cases hd
        · cases c <;> first | (cases hc; done) | simp [Content.isElement, Content.isDocument]
      · exact ⟨rfl, hold.2.withContent (by simp [Content.isElement, Content.isDocument])⟩
    grind

/-- The element and the other trees are formed. -/
structure IsFormed (c : Construction) : Prop where
  element : c.element.content.isElement
  whole : c.whole.IsFormed

namespace IsFormed
variable {c : Construction} {f : Forest} {t : Tree}

theorem start (h : f.IsFormed) (name : NodeName) : (Construction.start f name).IsFormed :=
  ⟨rfl, List.forall_mem_cons.2 ⟨⟨rfl, isFormed_leaf _ _⟩, h⟩⟩

theorem append (h : c.IsFormed) (ht : t.IsPart) (hf : f.IsFormed) :
    IsFormed (Construction.append t { c with forest := f }) := by
  obtain ⟨hcontent, hwhole⟩ := h
  refine ⟨hcontent, List.forall_mem_cons.2 ⟨⟨(hwhole c.element List.mem_cons_self).1, ?_⟩, hf⟩⟩
  have hparts := (hwhole c.element List.mem_cons_self).2.isPart
  exact isFormed_of_parts (.inl hcontent) ((Placed.place t c.element.parts).isPart ht hparts)

theorem forest (h : c.IsFormed) : c.forest.IsFormed := fun t ht => h.whole t (List.mem_cons_of_mem _ ht)

theorem appendCopy (h : c.IsFormed) (ht : t.IsPart) : (c.appendCopy t).IsFormed :=
  h.append (ht.renumber _) h.forest

theorem appendCopies {ts : List Tree} (h : c.IsFormed) (hts : ∀ t ∈ ts, t.IsPart) :
    IsFormed (ts.foldl (fun c u => c.appendCopy u) c) := by
  induction ts generalizing c with
  | nil => exact h
  | cons t ts ih =>
    obtain ⟨ht, hts⟩ := List.forall_mem_cons.1 hts
    exact ih (h.appendCopy ht) hts

theorem appendNode (h : c.IsFormed) (i : NodeId) : (c.appendNode i).IsFormed := by
  unfold Construction.appendNode
  split
  · exact h
  · next t ancestors heq =>
    have hmem : t ∈ c.whole.nodes :=
      Forest.mem_nodes_of_chain (i := i) (by rw [show c.whole.chain i = _ from heq]; exact List.mem_cons_self)
    have ht : t.IsFormed := h.whole.tree hmem
    split
    · exact h.appendCopies fun u hu => ht.isPart u (List.mem_filter.1 hu).1
    · exact h
    · next hdocument _ =>
      have hpart : t.IsPart := by
        refine ⟨Bool.eq_false_iff.2 fun hd => hdocument (Content.eq_document hd), ht⟩
      split
      · exact h.append hpart fun u hu => h.forest u (List.mem_filter.1 hu).1
      · exact h.appendCopy hpart

theorem appendString (h : c.IsFormed) (s : String) : (c.appendString s).IsFormed := by
  unfold Construction.appendString
  split
  · exact h
  · exact h.append ⟨rfl, isFormed_leaf _ _⟩ h.forest

theorem appendContent (words : List String) (xs : List Item) (h : c.IsFormed) :
    (c.appendContent words xs).IsFormed := by
  induction xs generalizing words c with
  | nil => exact h.appendString _
  | cons x xs ih =>
    cases x with
    | atomic a => exact ih (a.text :: words) h
    | node i => exact ih [] ((h.appendString _).appendNode i)

end IsFormed
end Construction

namespace Xml
open XPath.Tree

/-- The nodes that have been read may stand below elements. -/
structure State.IsFormed (s : State) : Prop where
  stack : ∀ e ∈ s.stack, ∀ t ∈ e.parts, t.IsPart
  top : ∀ t ∈ s.top, t.IsPart

namespace State.IsFormed
variable {s s' : State} {t : Tree}

theorem add (h : s.IsFormed) (ht : t.IsPart) : (s.add t).IsFormed := by
  unfold State.add
  split
  · exact ⟨h.stack, List.forall_mem_cons.2 ⟨ht, h.top⟩⟩
  · next e es heq =>
    have hstack := h.stack
    rw [heq] at hstack
    obtain ⟨he, hes⟩ := List.forall_mem_cons.1 hstack
    exact ⟨List.forall_mem_cons.2 ⟨List.forall_mem_cons.2 ⟨ht, he⟩, hes⟩, h.top⟩

theorem addText (h : s.IsFormed) (text : String) : (s.addText text).IsFormed := by
  unfold State.addText
  split
  · exact h
  · split
    · next name outer i before us parts es heq =>
      have hstack := h.stack
      rw [heq] at hstack
      obtain ⟨hparts, hes⟩ := List.forall_mem_cons.1 hstack
      obtain ⟨hlast, hbefore⟩ := List.forall_mem_cons.1 hparts
      refine ⟨List.forall_mem_cons.2 ⟨List.forall_mem_cons.2 ⟨⟨rfl, hlast.2.withContent ?_⟩, hbefore⟩, hes⟩, h.top⟩
      simp [Content.isElement, Content.isDocument]
    · exact h.add ⟨rfl, isFormed_leaf _ _⟩

theorem close (h : s.IsFormed) : s.close.IsFormed := by
  unfold State.close
  split
  · exact h
  · next e es heq =>
    have hstack := h.stack
    rw [heq] at hstack
    obtain ⟨he, hes⟩ := List.forall_mem_cons.1 hstack
    refine add ⟨hes, h.top⟩ ⟨rfl, isFormed_of_parts (.inl rfl) fun t ht => he t (List.mem_reverse.1 ht)⟩

theorem open? {n : TagName} {tags : List (TagName × List Char)} (h : s.IsFormed)
    (hs : s.open? n tags = some s') : s'.IsFormed := by
  unfold State.open? at hs
  obtain ⟨values, _, hs⟩ := Option.bind_eq_some_iff.1 hs
  obtain ⟨name, _, hs⟩ := Option.bind_eq_some_iff.1 hs
  obtain ⟨names, _, hs⟩ := Option.bind_eq_some_iff.1 hs
  dsimp only at hs
  split at hs
  · cases hs
  · cases hs
    refine ⟨List.forall_mem_cons.2 ⟨fun t ht => ?_, h.stack⟩, h.top⟩
    obtain ht | ht := List.mem_append.1 (List.mem_reverse.1 ht)
    · obtain ⟨d, _, rfl⟩ := List.mem_map.1 ht
      exact ⟨rfl, isFormed_leaf _ _⟩
    · obtain ⟨d, _, rfl⟩ := List.mem_map.1 ht
      exact ⟨rfl, isFormed_leaf _ _⟩

end State.IsFormed

end Xml

namespace Forest

end Forest

namespace Documents
variable {d d' : Documents}

end Documents
end XPath
