import XPath.Proofs.Ancestry
import XPath.Proofs.Assembly
import XPath.Proofs.Coherence

/-!
Element constructors. What the nodes of the content supply to the element is said of the trees as they were before
it: nodes that are part of a tree are copied, and a tree of its own goes into the element itself, for which it is met
there when it comes again. All other trees stay as they are.
-/
namespace XPath

namespace Tree

mutual

/-- What is numbered anew may have been numbered anew before. -/
theorem renumber_renumber (t : Tree) (n m : NodeId) : (t.renumber n).1.renumber m = t.renumber m := by
  match t with
  | .node i c ts => rw [renumber, renumber, renumberList_renumberList, renumber]

theorem renumberList_renumberList (ts : List Tree) (n m : NodeId) :
    renumberList m (renumberList n ts).1 = renumberList m ts := by
  match ts with
  | [] => rfl
  | t :: ts => simp only [renumberList, renumber_renumber, renumberList_renumberList]

end

/-- The same tree, made of nodes that there are not in the forest. -/
def IsCopy (f : Forest) (t u : Tree) : Prop := u.renumber 0 = t.renumber 0 ∧ ∀ i ∈ u.ids, f.next ≤ i

theorem isCopy_renumber {f : Forest} {n : NodeId} (hn : f.next ≤ n) (t : Tree) : IsCopy f t (t.renumber n).1 :=
  ⟨t.renumber_renumber n 0, fun _ hi => hn.trans (mem_renumber hi).1⟩

theorem exists_line {i : NodeId} {r : Tree} (h : i ∈ r.ids) : ∃ us, IsLine i r us := by
  obtain ⟨us, hus⟩ := Option.isSome_iff_exists.1 (chain?_isSome r h)
  exact ⟨us, isLine_of_chain? r hus⟩

end Tree

/-- Content that goes into an element as it is. -/
def Content.IsPiece (c : Content) : Prop := c ≠ .document ∧ c ≠ .text ""

namespace Construction
open XPath.Tree

/-- What a node of the content supplies to an element after other nodes of the content. -/
inductive Supplies (f : Forest) (before : List NodeId) (i : NodeId) : List Tree → Prop where
  | children {t ancestors us} (hchain : f.chain i = t :: ancestors) (hcontent : t.content = .document)
    (hcopies : List.Forall₂ (IsCopy f) t.children us) : Supplies f before i us
  | nothing {t ancestors} (hchain : f.chain i = t :: ancestors) (hcontent : t.content = .text "") :
    Supplies f before i []
  | moved {t} (hchain : f.chain i = [t]) (hcontent : t.content.IsPiece) (hfirst : i ∉ before) : Supplies f before i [t]
  | copied {t ancestors u} (hchain : f.chain i = t :: ancestors) (hcontent : t.content.IsPiece)
    (hplaced : ancestors ≠ [] ∨ i ∈ before) (hcopy : IsCopy f t u) : Supplies f before i [u]

/-- A new text node, unless the text is empty. -/
inductive IsTextOf (f : Forest) : String → List Tree → Prop where
  | nothing : IsTextOf f "" []
  | node {s n} (hs : s ≠ "") (hnew : f.next ≤ n) : IsTextOf f s [.node n (.text s) []]

/-- What the content supplies after these nodes. Atomic values that stand together are one text, with spaces between
them. -/
inductive Pieces (f : Forest) : List NodeId → List Item → List Tree → Prop where
  | nil (before) : Pieces f before [] []
  | node {before i xs ts us} (hnode : Supplies f before i ts) (hrest : Pieces f (i :: before) xs us) :
    Pieces f before (.node i :: xs) (ts ++ us)
  | run {before} {as : List Atomic} {xs ts us} (hall : ∀ a ys, xs ≠ .atomic a :: ys)
    (htext : IsTextOf f (" ".intercalate (as.map Atomic.text)) ts) (hrest : Pieces f before xs us) :
    Pieces f before (as.map .atomic ++ xs) (ts ++ us)

/-- A tree of its own that goes into the element. -/
def Takes (xs : List Item) (r : Tree) : Prop := .node r.id ∈ xs ∧ r.content.IsPiece

/-- No text of its own is met twice. -/
def MeetsTextsOnce (f : Forest) (xs : List Item) : Prop :=
  ∀ r ∈ f.trees, r.content.isText → r.content.IsPiece → xs.count (.node r.id) ≤ 1

variable {f : Forest} {name : NodeName} {before : List NodeId} {i : NodeId} {t r : Tree}
  {ts pieces ancestors : List Tree} {xs : List Item} {c : Construction}

/-- An element that is being made, when these nodes have been met and these pieces supplied. -/
structure Built (f : Forest) (name : NodeName) (before : List NodeId) (pieces : List Tree) (c : Construction) :
    Prop where
  grows : Grows f name c
  assembled : IsAssembled pieces c.element.parts
  stays : ∀ r ∈ f.trees, ¬ (r.id ∈ before ∧ r.content.IsPiece) → r ∈ c.forest.trees
  taken : ∀ r ∈ f.trees, r.id ∈ before → r.content.IsPiece → r ∈ pieces
  trees : c.forest.trees ⊆ f.trees

namespace Built

theorem start (hf : f.IsSound) (name : NodeName) : Built f name [] [] (start f name) :=
  ⟨.start hf name, isAssembled_nil, fun _ hr _ => hr, nofun, List.Subset.refl _⟩

/-! Where nodes are found. -/

theorem chain_of_stays (hf : f.IsSound) (h : Built f name before pieces c) (hr : r ∈ f.trees)
    (hstays : ¬ (r.id ∈ before ∧ r.content.IsPiece)) (hi : i ∈ r.ids) : c.whole.chain i = f.chain i := by
  obtain ⟨us, hline⟩ := exists_line hi
  have hmem : r ∈ c.whole.trees := List.mem_cons_of_mem c.element (h.stays r hr hstays)
  rw [Forest.chain_of_line hf.nodup hr hline, Forest.chain_of_line h.grows.sound.nodup hmem hline]

theorem chain_of_taken (hf : f.IsSound) (h : Built f name before pieces c) (hr : r ∈ f.trees) (hbefore : r.id ∈ before)
    (hcontent : r.content.IsPiece) (htext : r.content.isText = false) (hi : i ∈ r.ids) :
    c.whole.chain i = f.chain i ++ [c.element] := by
  obtain ⟨us, hline⟩ := exists_line hi
  have hattr : r.content.isAttribute = false := Content.not_attribute_of_ordinary (hf.roots r hr)
  have hpart : r ∈ c.element.parts := h.assembled.mem_parts (h.taken r hr hbefore hcontent) hattr htext
  rw [Forest.chain_of_line hf.nodup hr hline,
    Forest.chain_of_line h.grows.sound.nodup List.mem_cons_self (hline.concat hpart)]

/-- A node of the content is what it was. It is on its own if it was, unless it has been met before. -/
theorem chain_met (hf : f.IsSound) (h : Built f name before pieces c) (hchain : f.chain i = t :: ancestors)
    (honce : ancestors = [] → t.content.isText → t.content.IsPiece → i ∉ before) :
    ∃ ancestors', c.chain i = t :: ancestors' ∧
      (t.content.IsPiece → (ancestors' = [] ↔ ancestors = [] ∧ i ∉ before)) := by
  obtain ⟨r, hr, hline⟩ := Forest.isLine_chain (by simp [hchain] : f.chain i ≠ [])
  rw [hchain] at hline
  have hi : i ∈ r.ids := List.mem_map.2 ⟨t, hline.mem_preorder t List.mem_cons_self, Forest.chain_head hchain⟩
  -- The node is the root of its tree if it has no ancestors.
  have hroot : ancestors = [] → t = r ∧ r.id = i := by
    rintro rfl
    obtain rfl : t = r := Option.some.inj hline.last
    exact ⟨rfl, Forest.chain_head hchain⟩
  by_cases htaken : r.id ∈ before ∧ r.content.IsPiece
  · have htext : r.content.isText = false := by
      refine Bool.eq_false_iff.2 fun htext => ?_
      have hparts : r.parts = [] := hf.texts r (Forest.mem_nodes_of_root hr) htext
      obtain rfl : i = r.id := by simpa [ids_eq, hparts] using hi
      have hself := hchain.symm.trans (Forest.chain_of_root hf.nodup hr)
      cases hself
      exact honce rfl htext htaken.2 htaken.1
    refine ⟨ancestors ++ [c.element], ?_, fun _ => ⟨fun hnil => by simp at hnil, fun ⟨hnil, hnot⟩ => ?_⟩⟩
    · rw [show c.chain i = c.whole.chain i from rfl, h.chain_of_taken hf hr htaken.1 htaken.2 htext hi, hchain,
        List.cons_append]
    · exact absurd ((hroot hnil).2 ▸ htaken.1) hnot
  · refine ⟨ancestors, (h.chain_of_stays hf hr htaken hi).trans hchain, fun hcontent =>
      ⟨fun hnil => ⟨hnil, ?_⟩, And.left⟩⟩
    obtain ⟨rfl, rfl⟩ := hroot hnil
    exact fun hbefore => htaken ⟨hbefore, hcontent⟩

/-! What is supplied. -/

/-- A new tree is placed. -/
theorem appendNew (h : Built f name before pieces c) {n : NodeId}
    (hgrows : Grows f name (append t { c with forest := { c.forest with next := n } })) :
    Built f name before (pieces ++ [t]) (append t { c with forest := { c.forest with next := n } }) :=
  ⟨hgrows, h.assembled.place t, h.stays, fun r hr hbefore hcontent =>
    List.mem_append_left _ (h.taken r hr hbefore hcontent), h.trees⟩

theorem appendCopy (hf : f.IsSound) (h : Built f name before pieces c) (ht : t.HasLeafTexts) :
    ∃ u, IsCopy f t u ∧ Built f name before (pieces ++ [u]) (c.appendCopy t) :=
  ⟨_, isCopy_renumber h.grows.becomes.next t, h.appendNew (h.grows.appendCopy hf ht)⟩

theorem appendCopies (hf : f.IsSound) (h : Built f name before pieces c) (hts : ∀ t ∈ ts, t.HasLeafTexts) :
    ∃ us, List.Forall₂ (IsCopy f) ts us ∧
      Built f name before (pieces ++ us) (ts.foldl (fun c t => c.appendCopy t) c) := by
  induction ts generalizing pieces c with
  | nil => exact ⟨[], .nil, by simpa using h⟩
  | cons t ts ih =>
    obtain ⟨ht, hts⟩ := List.forall_mem_cons.1 hts
    obtain ⟨u, hcopy, hu⟩ := h.appendCopy hf ht
    obtain ⟨us, hcopies, hus⟩ := ih hu hts
    exact ⟨u :: us, .cons hcopy hcopies, by simpa using hus⟩

theorem appendString (hf : f.IsSound) (h : Built f name before pieces c) (s : String) :
    ∃ ts, IsTextOf f s ts ∧ Built f name before (pieces ++ ts) (c.appendString s) := by
  have hgrows := h.grows.appendString hf s
  unfold Construction.appendString at hgrows ⊢
  by_cases hs : s = ""
  · subst hs
    exact ⟨[], .nothing, by simpa using h⟩
  · rw [if_neg (by simpa using hs)] at hgrows ⊢
    exact ⟨_, .node hs h.grows.becomes.next, h.appendNew hgrows⟩

/-- It does not matter that a node has been met if it does not go into the element, or did so before. -/
theorem meets (h : Built f name before pieces c)
    (hknown : ∀ r ∈ f.trees, r.id = i → r.content.IsPiece → i ∈ before) : Built f name (i :: before) pieces c := by
  have hbefore {r : Tree} (hr : r ∈ f.trees) (hmem : r.id ∈ i :: before) (hcontent : r.content.IsPiece) :
      r.id ∈ before := by
    obtain heq | hmem := List.mem_cons.1 hmem
    · exact heq ▸ hknown r hr heq hcontent
    · exact hmem
  refine ⟨h.grows, h.assembled, fun r hr hnot => h.stays r hr fun ⟨hmem, hcontent⟩ => ?_,
    fun r hr hmem hcontent => h.taken r hr (hbefore hr hmem hcontent) hcontent, h.trees⟩
  exact hnot ⟨List.mem_cons_of_mem i hmem, hcontent⟩

/-- A tree of its own that has not been met goes into the element. -/
theorem appendMoved (hf : f.IsSound) (h : Built f name before pieces c) (ht : t ∈ f.trees)
    (hcontent : t.content.IsPiece) (hnot : t.id ∉ before) :
    Built f name (t.id :: before) (pieces ++ [t]) (append t { c with
      forest := { c.forest with trees := c.forest.trees.filter (·.id != t.id) } }) := by
  have hthis {r : Tree} (hr : r ∈ f.trees) (hid : r.id = t.id) : r = t :=
    hf.eq_of_id (Forest.mem_nodes_of_root hr) (Forest.mem_nodes_of_root ht) hid
  have hmem : t ∈ c.forest.trees := h.stays t ht fun ⟨hbefore, _⟩ => hnot hbefore
  refine ⟨h.grows.append_moved hf hmem, h.assembled.place t, fun r hr hstays => ?_, fun r hr hbefore hpiece => ?_,
    fun r hr => h.trees (List.mem_filter.1 hr).1⟩
  · have hne : r.id ≠ t.id := fun heq => hstays ⟨heq ▸ List.mem_cons_self, hthis hr heq ▸ hcontent⟩
    refine List.mem_filter.2 ⟨h.stays r hr fun ⟨hbefore, hpiece⟩ => ?_, by simpa using hne⟩
    exact hstays ⟨List.mem_cons_of_mem _ hbefore, hpiece⟩
  · obtain heq | hbefore := List.mem_cons.1 hbefore
    · exact List.mem_append_right _ (hthis hr heq ▸ List.mem_singleton_self t)
    · exact List.mem_append_left _ (h.taken r hr hbefore hpiece)

/-- A node of the content supplies what it should. -/
theorem appendNode (hf : f.IsSound) (h : Built f name before pieces c) (hi : i ∈ idsOf f.trees)
    (honce : ∀ r ∈ f.trees, r.id = i → r.content.isText → r.content.IsPiece → i ∉ before) :
    ∃ ts, Supplies f before i ts ∧ Built f name (i :: before) (pieces ++ ts) (c.appendNode i) := by
  obtain ⟨t, ht, rfl⟩ := Forest.mem_ids.1 hi
  obtain ⟨ancestors, hchain⟩ := Forest.chain_of_mem hf.nodup ht
  have hleaf {u : Tree} (hu : u ∈ t.preorder) : u.HasLeafTexts := fun v hv =>
    hf.texts v (Forest.mem_nodes_trans ht (mem_preorder_trans t hu hv))
  have hthis {r : Tree} (hr : r ∈ f.trees) (hid : r.id = t.id) : r = t :=
    hf.eq_of_id (Forest.mem_nodes_of_root hr) ht hid
  obtain ⟨ancestors', hchain', hown⟩ := h.chain_met hf hchain fun hnil => by
    subst hnil
    exact honce t (Forest.root_of_chain hchain).1 rfl
  unfold Construction.appendNode
  rw [hchain']
  dsimp only
  split
  · next hcontent =>
    obtain ⟨us, hcopies, hbuilt⟩ := h.appendCopies hf fun u hu =>
      hleaf (mem_preorder_of_part (List.mem_filter.1 hu).1)
    exact ⟨us, .children hchain hcontent hcopies, hbuilt.meets fun r hr hid hpiece =>
      absurd (hthis hr hid ▸ hcontent) hpiece.1⟩
  · next hcontent =>
    exact ⟨[], .nothing hchain hcontent, by
      simpa using h.meets fun r hr hid hpiece => absurd (hthis hr hid ▸ hcontent) hpiece.2⟩
  · next hdocument hempty =>
    have hpiece : t.content.IsPiece := ⟨hdocument, hempty⟩
    split
    · next hnil =>
      obtain ⟨rfl, hfirst⟩ := (hown hpiece).1 (List.isEmpty_iff.1 hnil)
      exact ⟨[t], .moved hchain hpiece hfirst,
        h.appendMoved hf (Forest.root_of_chain hchain).1 hpiece hfirst⟩
    · next hsome =>
      have hplaced : ancestors ≠ [] ∨ t.id ∈ before := by
        by_contra hnot
        rw [not_or, not_not] at hnot
        exact hsome (List.isEmpty_iff.2 ((hown hpiece).2 hnot))
      obtain ⟨u, hcopy, hbuilt⟩ := h.appendCopy hf (hleaf t.mem_preorder_self)
      refine ⟨[u], .copied hchain hpiece hplaced hcopy, hbuilt.meets fun r hr hid _ => ?_⟩
      obtain rfl := hthis hr hid
      refine hplaced.resolve_left fun hne => hne ?_
      have hself := hchain.symm.trans (Forest.chain_of_root hf.nodup hr)
      cases hself
      rfl

/-- The content supplies what it should, after the atomic values that have been met. -/
theorem appendContent (hf : f.IsSound) (h : Built f name before pieces c) (as : List Atomic)
    (hxs : ∀ i, Item.node i ∈ xs → i ∈ idsOf f.trees)
    (honce : MeetsTextsOnce f (before.map .node ++ xs)) :
    ∃ ts, Pieces f before (as.map .atomic ++ xs) ts ∧
      Built f name ((xs.filterMap (·.node?)).reverse ++ before) (pieces ++ ts)
        (c.appendContent (as.map Atomic.text).reverse xs) := by
  induction xs generalizing before pieces c as with
  | nil =>
    obtain ⟨ts, htext, hbuilt⟩ := h.appendString hf (" ".intercalate (as.map Atomic.text))
    refine ⟨ts, ?_, ?_⟩
    · have hrun := Pieces.run (fun _ _ heq => by cases heq) htext (.nil before)
      rwa [List.append_nil ts] at hrun
    · rwa [Construction.appendContent, List.reverse_reverse]
  | cons x xs ih =>
    have hrest : ∀ i, Item.node i ∈ xs → i ∈ idsOf f.trees := fun i hi => hxs i (List.mem_cons_of_mem x hi)
    cases x with
    | atomic a =>
      have honce' : MeetsTextsOnce f (before.map .node ++ xs) := fun r hr htext hpiece => by
        simpa using honce r hr htext hpiece
      obtain ⟨ts, hpieces, hbuilt⟩ := ih h (as ++ [a]) hrest honce'
      exact ⟨ts, by simpa using hpieces, by simpa [Item.node?, Construction.appendContent] using hbuilt⟩
    | node i =>
      obtain ⟨ts, htext, hstring⟩ := h.appendString hf (" ".intercalate (as.map Atomic.text))
      have hfirst : ∀ r ∈ f.trees, r.id = i → r.content.isText → r.content.IsPiece → i ∉ before := by
        rintro r hr rfl htext hpiece hbefore
        have hcount := honce r hr htext hpiece
        have hpos : 0 < (before.map Item.node).count (.node r.id) :=
          List.count_pos_iff.2 (List.mem_map_of_mem hbefore)
        rw [List.count_append, List.count_cons_self] at hcount
        omega
      obtain ⟨us, hnode, hsupplied⟩ := hstring.appendNode hf (hxs i List.mem_cons_self) hfirst
      have honce' : MeetsTextsOnce f ((i :: before).map .node ++ xs) := fun r hr htext hpiece => by
        have hperm : ((i :: before).map Item.node ++ xs).Perm (before.map .node ++ .node i :: xs) :=
          List.perm_middle.symm
        rw [hperm.count_eq]
        exact honce r hr htext hpiece
      obtain ⟨vs, hpieces, hbuilt⟩ := ih hsupplied [] hrest honce'
      refine ⟨ts ++ (us ++ vs), .run (fun _ _ heq => by cases heq) htext (.node hnode hpieces), ?_⟩
      simpa [Item.node?, Construction.appendContent] using hbuilt

end Built

end Construction

namespace Expr
open XPath.Construction

end Expr
end XPath
