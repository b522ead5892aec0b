import XPath.Documents
import XPath.Evaluation.Operators
import XPath.Proofs.Forests
import XPath.Proofs.Layout
import Mathlib.Data.List.Perm.Basic
import Mathlib.Data.List.Perm.Subperm

/-!
How forests grow. Making an element keeps every node what it is, except that a text can be joined to
another one and is then in no tree any more. An identity is never used again.
-/
namespace XPath

namespace Tree

/-- No kind test tells the two nodes apart. -/
def IsAs (t u : Tree) : Prop := ∀ k : KindTest, k.holds t = k.holds u

theorem IsAs.refl (t : Tree) : t.IsAs t := fun _ => rfl

theorem IsAs.trans {t u v : Tree} (h : t.IsAs u) (h' : u.IsAs v) : t.IsAs v := fun k => (h k).trans (h' k)

theorem holds_text {t : Tree} : KindTest.text.holds t = t.content.isText := by
  unfold KindTest.holds
  cases t.content <;> rfl

theorem IsAs.isText {t u : Tree} (h : t.IsAs u) : t.content.isText = u.content.isText := by
  simpa [holds_text] using h .text

/-- What is below a node matters to the tests of documents only. -/
theorem isAs_of_content {t u : Tree} (h : t.content = u.content) (hd : t.content.isDocument = false) :
    t.IsAs u := by
  intro k
  unfold KindTest.holds
  rw [← h]
  cases hc : t.content with
  | document => simp [hc, Content.isDocument] at hd
  | _ => cases k <;> simp

theorem isAs_of_text {t u : Tree} (ht : t.content.isText) (hu : u.content.isText) : t.IsAs u := by
  intro k
  unfold KindTest.holds
  cases hc : t.content with
  | text s =>
    cases hc' : u.content with
    | text s' => cases k <;> simp
    | _ => simp [hc', Content.isText] at hu
  | _ => simp [hc, Content.isText] at ht

theorem isAs_of_attr {t u : Tree} {n : NodeName} {v w : String} (ht : t.content = .attr n v)
    (hu : u.content = .attr n w) : t.IsAs u := by
  intro k
  unfold KindTest.holds
  rw [ht, hu]
  cases k <;> simp [NameAndType.holds, Content.name?]

/-- Texts have nothing below them. -/
def HasLeafTexts (t : Tree) : Prop := ∀ u ∈ t.preorder, u.content.isText → u.parts = []

mutual

/-- New nodes are numbered in document order. -/
theorem renumber_ids (t : Tree) (n : NodeId) :
    (t.renumber n).1.ids = List.range' n t.ids.length ∧ (t.renumber n).2 = n + t.ids.length := by
  match t with
  | .node i c ts =>
    obtain ⟨hids, hnext⟩ := renumberList_ids ts (n + 1)
    simp only [renumber, ids_node, List.length_cons, hids, hnext, List.range'_succ, true_and]
    exact Nat.add_right_comm n 1 _

theorem renumberList_ids (ts : List Tree) (n : NodeId) :
    idsOf (renumberList n ts).1 = List.range' n (idsOf ts).length ∧
      (renumberList n ts).2 = n + (idsOf ts).length := by
  match ts with
  | [] => simp [renumberList]
  | t :: ts =>
    obtain ⟨hids, hnext⟩ := renumber_ids t n
    obtain ⟨hids', hnext'⟩ := renumberList_ids ts (n + t.ids.length)
    simp only [renumberList, idsOf_cons, List.length_append, hids, hnext, hids', hnext']
    exact ⟨List.range'_append_1 .., Nat.add_assoc ..⟩

end

mutual

theorem renumber_leafTexts (t : Tree) (n : NodeId) (h : t.HasLeafTexts) :
    (t.renumber n).1.HasLeafTexts := by
  match t with
  | .node i c ts =>
    intro u hu htext
    rw [renumber] at hu
    obtain rfl | ⟨p, hp, hup⟩ := mem_preorder_iff.1 hu
    · have hts : ts = [] := h _ (mem_preorder_self _) htext
      subst hts
      rfl
    · refine renumberList_leafTexts ts (n + 1) (fun v hv => ?_) p hp u hup htext
      exact fun w hw => h w (mem_preorder_trans _ (mem_preorder_of_part hv) hw)

theorem renumberList_leafTexts (ts : List Tree) (n : NodeId) (h : ∀ t ∈ ts, t.HasLeafTexts) :
    ∀ t ∈ (renumberList n ts).1, t.HasLeafTexts := by
  match ts with
  | [] => nofun
  | t :: ts =>
    obtain ⟨ht, hts⟩ := List.forall_mem_cons.1 h
    exact List.forall_mem_cons.2 ⟨renumber_leafTexts t n ht, renumberList_leafTexts ts _ hts⟩

end

end Tree

namespace Forest
open XPath.Tree

/-- Every node stays what it is, or is a text that has been joined to another one. -/
structure Becomes (f g : Forest) : Prop where
  next : f.next ≤ g.next
  kept : ∀ t ∈ f.nodes, (∃ u ∈ g.nodes, u.id = t.id ∧ t.IsAs u) ∨
    t.content.isText ∧ t.id ∉ idsOf g.trees
  old : ∀ i ∈ idsOf g.trees, i < f.next → i ∈ idsOf f.trees

namespace Becomes
variable {f g h : Forest}

theorem refl (f : Forest) : f.Becomes f :=
  ⟨le_rfl, fun t ht => .inl ⟨t, ht, rfl, .refl t⟩, fun _ hi _ => hi⟩

theorem trans (hf : f.IsSound) (hg : f.Becomes g) (hh : g.Becomes h) : f.Becomes h where
  next := hg.next.trans hh.next
  kept t ht := by
    have hlt : t.id < g.next := (hf.lt_next ht).trans_le hg.next
    obtain ⟨u, hu, hid, htu⟩ | ⟨htext, hgone⟩ := hg.kept t ht
    · obtain ⟨v, hv, hid', huv⟩ | ⟨htext, hgone⟩ := hh.kept u hu
      · exact .inl ⟨v, hv, hid'.trans hid, htu.trans huv⟩
      · exact .inr ⟨htu.isText.trans htext, hid ▸ hgone⟩
    · exact .inr ⟨htext, fun hi => hgone (hh.old _ hi hlt)⟩
  old i hi hlt := hg.old i (hh.old i hi (hlt.trans_le hg.next)) hlt

/-- A new tree beside the others. -/
theorem add (hf : f.IsSound) {t : Tree} (ht : t.HasLeafTexts) (hroot : t.content.isOrdinary) :
    (f.add t).2.IsSound ∧ f.Becomes (f.add t).2 ∧
      (f.add t).2.node? (f.add t).1 = some (t.renumber f.next).1 := by
  obtain ⟨hids, hnext⟩ := t.renumber_ids f.next
  have hnodes : (f.add t).2.nodes = (t.renumber f.next).1.preorder ++ f.nodes := by
    simp [Forest.nodes, Forest.add, preorderList_eq]
  have hsound : (f.add t).2.IsSound := by
    refine ⟨?_, ?_, ?_, ?_⟩
    · simp only [Forest.add, idsOf_cons, hids]
      refine List.nodup_append.2 ⟨List.nodup_range', hf.nodup, fun i hi j hj heq => ?_⟩
      exact absurd (heq ▸ hf.below j hj) (Nat.not_lt.2 (List.mem_range'_1.1 hi).1)
    · intro i hi
      simp only [Forest.add, idsOf_cons, hids, List.mem_append, List.mem_range'_1] at hi
      simp only [Forest.add, hnext]
      obtain hi | hi := hi
      · exact hi.2
      · exact (hf.below i hi).trans_le (Nat.le_add_right _ _)
    · intro u hu
      rw [hnodes, List.mem_append] at hu
      exact hu.elim (t.renumber_leafTexts _ ht u) (hf.texts u)
    · refine List.forall_mem_cons.2 ⟨?_, hf.roots⟩
      cases t
      exact hroot
  refine ⟨hsound, ⟨?_, fun u hu => ?_, fun i hi hlt => ?_⟩, ?_⟩
  · simp [Forest.add, hnext]
  · exact .inl ⟨u, by simp [hnodes, hu], rfl, .refl u⟩
  · simp only [Forest.add, idsOf_cons, hids, List.mem_append, List.mem_range'_1] at hi
    exact hi.resolve_left fun h => absurd hlt (Nat.not_lt.2 h.1)
  · have hid : (t.renumber f.next).1.id = f.next := by
      cases t
      rfl
    have hmem : (t.renumber f.next).1 ∈ (f.add t).2.nodes := by simp [hnodes]
    have hnode := hsound.node?_eq hmem
    rwa [hid] at hnode

end Becomes
end Forest

namespace Construction
open XPath.Tree

/-- What becomes of the parts of an element when a node is placed among them: it takes a place of its
own, or its text or value goes to a node that is there. -/
inductive Placed (t : Tree) : List Tree → List Tree → Prop where
  | added (before after : List Tree) : Placed t (before ++ after) (before ++ t :: after)
  | joined (before after parts : List Tree) {i : NodeId} {c d : Content} :
      (t.content.isText ∧ c.isText ∧ d.isText ∨
        t.content.isAttribute ∧ ∃ n v w, c = .attr n v ∧ d = .attr n w) →
      Placed t (before ++ node i c parts :: after) (before ++ node i d parts :: after)

namespace Placed
variable {t : Tree} {ts us : List Tree}

theorem cons (h : Placed t ts us) (u : Tree) : Placed t (u :: ts) (u :: us) := by
  cases h with
  | added before after => exact .added (u :: before) after
  | joined before after parts hkind => exact .joined (u :: before) after parts hkind

theorem appendText (s : String) (ts : List Tree) (ht : t.content.isText) :
    Placed t ts (appendText t s ts) := by
  fun_induction Construction.appendText t s ts with
  | case1 => exact .added [] []
  | case2 i s' parts => exact .joined [] [] parts (.inl ⟨ht, rfl, rfl⟩)
  | case3 u us _ ih => exact ih.cons u

theorem putAttribute (name : NodeName) (value : String) (ts : List Tree) (ht : t.content.isAttribute) :
    Placed t ts (putAttribute t name value ts) := by
  fun_induction Construction.putAttribute t name value ts with
  | case1 => exact .added [] []
  | case2 i v parts us => exact .joined [] us parts (.inr ⟨ht, _, _, _, rfl, rfl⟩)
  | case3 i n v parts us _ ih => exact ih.cons _
  | case4 i p v parts us ih => exact ih.cons _
  | case5 us => exact .added [] us

theorem place (t : Tree) (ts : List Tree) : Placed t ts (place t ts) := by
  unfold Construction.place
  split
  · next s heq => exact appendText s ts (by rw [heq]; rfl)
  · next name value heq => exact putAttribute name value ts (by rw [heq]; rfl)
  · simpa using added ts []

theorem kept (h : Placed t ts us) :
    ∀ u ∈ preorderList ts, ∃ v ∈ preorderList us, v.id = u.id ∧ u.IsAs v := by
  intro u hu
  cases h with
  | added before after => exact ⟨u, by simp_all [preorderList_eq, or_left_comm], rfl, .refl u⟩
  | joined before after parts hkind =>
    simp only [preorderList_eq, List.flatMap_append, List.flatMap_cons, preorder_eq (node _ _ _),
      Tree.parts, List.mem_append, List.mem_cons] at hu ⊢
    obtain hu | (rfl | hu) | hu := hu
    · exact ⟨u, .inl hu, rfl, .refl u⟩
    · refine ⟨_, .inr (.inl (.inl rfl)), rfl, ?_⟩
      obtain ⟨_, hc, hd⟩ | ⟨_, n, v, w, rfl, rfl⟩ := hkind
      · exact isAs_of_text hc hd
      · exact isAs_of_attr rfl rfl
    · exact ⟨u, .inr (.inl (.inr hu)), rfl, .refl u⟩
    · exact ⟨u, .inr (.inr hu), rfl, .refl u⟩

/-- Either all nodes are there, or those of the placed text or attribute are gone. -/
theorem ids (h : Placed t ts us) :
    (idsOf us).Perm (idsOf ts ++ t.ids) ∧ (∀ u ∈ t.preorder, u ∈ preorderList us) ∨
    idsOf us = idsOf ts ∧ (t.content.isText ∨ t.content.isAttribute) := by
  cases h with
  | added before after =>
    refine .inl ⟨?_, fun u hu => by simp [preorderList_eq, hu]⟩
    simp only [idsOf_append, idsOf_cons, List.append_assoc]
    exact List.perm_append_comm.append_left _
  | joined before after parts hkind =>
    exact .inr ⟨by simp, hkind.imp And.left And.left⟩

theorem leafTexts (h : Placed t ts us) (ht : t.HasLeafTexts) (hts : ∀ u ∈ ts, u.HasLeafTexts) :
    ∀ u ∈ us, u.HasLeafTexts := by
  cases h with
  | added before after => grind
  | joined before after parts hkind =>
    rename_i i c d
    have hold : (node i c parts).HasLeafTexts := hts _ (by simp)
    have hnew : (node i d parts).HasLeafTexts := by
      intro u hu htext
      obtain rfl | ⟨p, hp, hup⟩ := mem_preorder_iff.1 hu
      · obtain ⟨_, hc, _⟩ | ⟨_, n, v, w, rfl, rfl⟩ := hkind
        · exact hold (node i c parts) (mem_preorder_self _) hc
        · cases htext
      · exact hold u (mem_preorder_trans _ (mem_preorder_of_part hp) hup) htext
    grind

end Placed

/-- The trees there would be if the element were finished. -/
abbrev whole (c : Construction) : Forest := c.finish.2

/-- An element that is being made: every node there was before is kept or joined. -/
structure Grows (f : Forest) (name : NodeName) (c : Construction) : Prop where
  sound : c.whole.IsSound
  becomes : f.Becomes c.whole
  id : c.element.id = f.next
  content : c.element.content = .element name

namespace Grows
variable {f : Forest} {name : NodeName} {c : Construction}

theorem start (hf : f.IsSound) (name : NodeName) : Grows f name (start f name) := by
  have hnodes : (Construction.start f name).whole.nodes = node f.next (.element name) [] :: f.nodes := rfl
  have hids : idsOf (Construction.start f name).whole.trees = f.next :: idsOf f.trees := rfl
  refine ⟨⟨?_, ?_, ?_, ?_⟩, ⟨Nat.le_succ _, fun t ht => ?_, fun i hi hlt => ?_⟩, rfl, rfl⟩
  · rw [hids]
    exact List.nodup_cons.2 ⟨fun h => absurd (hf.below _ h) (Nat.lt_irrefl _), hf.nodup⟩
  · intro i hi
    rw [hids] at hi
    obtain rfl | hi := List.mem_cons.1 hi
    · exact Nat.lt_succ_self _
    · exact (hf.below i hi).trans (Nat.lt_succ_self _)
  · rw [hnodes]
    exact List.forall_mem_cons.2 ⟨nofun, hf.texts⟩
  · exact List.forall_mem_cons.2 ⟨rfl, hf.roots⟩
  · exact .inl ⟨t, by simp [hnodes, ht], rfl, .refl t⟩
  · rw [hids] at hi
    obtain rfl | hi := List.mem_cons.1 hi
    · exact absurd hlt (Nat.lt_irrefl _)
    · exact hi

/-- Where a tree is to be placed: beside the element and its parts, and the trees that stay as they are,
no identity is used twice. -/
structure Admits (name : NodeName) (e : NodeId) (parts : List Tree) (t : Tree) (rest : Forest) : Prop where
  nodup : (e :: (idsOf parts ++ t.ids ++ idsOf rest.trees)).Nodup
  below : ∀ i ∈ e :: (idsOf parts ++ t.ids ++ idsOf rest.trees), i < rest.next
  partTexts : ∀ u ∈ parts, u.HasLeafTexts
  treeTexts : t.HasLeafTexts
  restTexts : ∀ u ∈ rest.nodes, u.content.isText → u.parts = []
  roots : ∀ u ∈ rest.trees, u.content.isOrdinary

variable {e : NodeId} {parts parts' : List Tree} {t : Tree} {rest : Forest}

theorem Admits.placed (h : Admits name e parts t rest) (hp : Placed t parts parts') :
    Forest.IsSound ⟨rest.next, node e (.element name) parts' :: rest.trees⟩ := by
  have hids : (e :: (idsOf parts' ++ idsOf rest.trees)).Subperm
      (e :: (idsOf parts ++ t.ids ++ idsOf rest.trees)) := by
    obtain ⟨hperm, _⟩ | ⟨heq, _⟩ := hp.ids
    · exact ((hperm.append_right _).cons _).subperm
    · rw [heq]
      exact (List.Sublist.cons_cons _ (.append_right (List.sublist_append_left _ _) _)).subperm
  rw [← idsOf_node_cons e (.element name)] at hids
  refine ⟨?_, fun i hi => h.below i (hids.subset hi), ?_, List.forall_mem_cons.2 ⟨rfl, h.roots⟩⟩
  · obtain ⟨us, hperm, hsub⟩ := hids
    exact hperm.nodup_iff.1 (h.nodup.sublist hsub)
  · refine List.forall_mem_cons.2 ⟨nofun, fun u hu => ?_⟩
    obtain hu | hu := List.mem_append.1 hu
    · obtain ⟨p, hmem, hup⟩ := mem_preorderList.1 hu
      exact hp.leafTexts h.treeTexts h.partTexts p hmem u hup
    · exact h.restTexts u hu

/-- The placed tree is new, or it was a tree of its own. -/
theorem Admits.becomes {before : Forest} (h : Admits name e parts t rest) (hp : Placed t parts parts')
    (hnext : before.next ≤ rest.next)
    (hnew : ∀ i ∈ t.ids ++ idsOf rest.trees, i < before.next → i ∈ idsOf before.trees)
    (hkept : ∀ u ∈ before.nodes, u ∈ rest.nodes ∨ u ∈ t.preorder ∧ t.content.isOrdinary) :
    Forest.Becomes ⟨before.next, node e (.element name) parts :: before.trees⟩
      ⟨rest.next, node e (.element name) parts' :: rest.trees⟩ where
  next := hnext
  old i hi hlt := by
    have hparts : i ∈ idsOf parts' → i ∈ idsOf parts ∨ i ∈ t.ids := fun hi => by
      obtain ⟨hperm, _⟩ | ⟨heq, _⟩ := hp.ids
      · exact List.mem_append.1 (hperm.subset hi)
      · exact .inl (heq ▸ hi)
    have hi' := hnew i
    simp only [idsOf_cons, ids_node, List.mem_append, List.mem_cons] at hi hi' ⊢
    tauto
  kept u hu := by
    change u ∈ node e (.element name) parts :: (preorderList parts ++ before.nodes) at hu
    rw [idsOf_node_cons]
    change (∃ v ∈ node e (.element name) parts' :: (preorderList parts' ++ rest.nodes),
      v.id = u.id ∧ u.IsAs v) ∨ u.content.isText ∧ u.id ∉ e :: (idsOf parts' ++ idsOf rest.trees)
    rw [List.mem_cons, List.mem_append] at hu
    obtain rfl | hu | hu := hu
    · exact .inl ⟨_, List.mem_cons_self, rfl, isAs_of_content rfl rfl⟩
    · obtain ⟨v, hv, hid, has⟩ := hp.kept u hu
      exact .inl ⟨v, by simp [hv], hid, has⟩
    · obtain hu | ⟨hu, hordinary⟩ := hkept u hu
      · exact .inl ⟨u, by simp [hu], rfl, .refl u⟩
      · obtain ⟨_, hall⟩ | ⟨heq, htext | hattr⟩ := hp.ids
        · exact .inl ⟨u, by simp [hall u hu], rfl, .refl u⟩
        · -- The text is all that there is of the tree.
          have hleaf : t.preorder = [t] := by
            rw [preorder_eq, h.treeTexts t t.mem_preorder_self htext, List.flatMap_nil]
          obtain rfl : u = t := by simpa [hleaf] using hu
          have hnodup := h.nodup
          rw [ids_eq, heq] at *
          refine .inr ⟨htext, fun hmem => ?_⟩
          simp only [List.nodup_cons, List.nodup_append, List.mem_append, List.mem_cons] at hnodup hmem
          grind
        · simp [Content.not_attribute_of_ordinary hordinary] at hattr

theorem append (hf : f.IsSound) (h : Grows f name c) {forest : Forest}
    (hadmits : Admits name c.element.id c.element.parts t forest) (hnext : c.forest.next ≤ forest.next)
    (hnew : ∀ i ∈ t.ids ++ idsOf forest.trees, i < c.forest.next → i ∈ idsOf c.forest.trees)
    (hkept : ∀ u ∈ c.forest.nodes, u ∈ forest.nodes ∨ u ∈ t.preorder ∧ t.content.isOrdinary) :
    Grows f name (Construction.append t { c with forest }) := by
  obtain ⟨hsound, hbecomes, hid, hcontent⟩ := h
  have hplaced := Placed.place t c.element.parts
  obtain ⟨before, e⟩ := c
  cases e with
  | node i d parts =>
  obtain rfl : d = .element name := hcontent
  exact ⟨hadmits.placed hplaced, hbecomes.trans hf (hadmits.becomes hplaced hnext hnew hkept), hid, rfl⟩

/-- What there is beside a new tree. -/
theorem admits_of_fresh (h : Grows f name c) {n : NodeId} (hnodup : t.ids.Nodup)
    (hbelow : ∀ i ∈ t.ids, c.forest.next ≤ i ∧ i < n) (hn : c.forest.next ≤ n) (ht : t.HasLeafTexts) :
    Admits name c.element.id c.element.parts t { c.forest with next := n } := by
  obtain ⟨⟨hids, hlow, htexts, hroots⟩, _, _, hcontent⟩ := h
  obtain ⟨before, e⟩ := c
  cases e with
  | node i d parts =>
  change (idsOf (node i d parts :: before.trees)).Nodup at hids
  change ∀ j ∈ idsOf (node i d parts :: before.trees), j < before.next at hlow
  rw [idsOf_node_cons] at hids hlow
  have hperm : (i :: (idsOf parts ++ t.ids ++ idsOf before.trees)).Perm
      (t.ids ++ (i :: (idsOf parts ++ idsOf before.trees))) := by
    refine List.Perm.trans ?_ List.perm_middle.symm
    rw [List.perm_cons, ← List.append_assoc]
    exact List.perm_append_comm.append_right _
  refine ⟨hperm.nodup_iff.2 (List.nodup_append.2 ⟨hnodup, hids, fun j hj k hk heq => ?_⟩),
    fun j hj => ?_, fun u hu v hv => ?_, ht, fun u hu => ?_, fun u hu => ?_⟩
  · exact absurd (heq ▸ hlow k hk) (Nat.not_lt.2 (hbelow j hj).1)
  · obtain hj | hj := List.mem_append.1 (hperm.subset hj)
    · exact (hbelow j hj).2
    · exact (hlow j hj).trans_le hn
  · exact htexts v (List.mem_cons_of_mem _ (List.mem_append_left _ (mem_preorderList.2 ⟨u, hu, hv⟩)))
  · exact htexts u (List.mem_cons_of_mem _ (List.mem_append_right _ hu))
  · exact hroots u (List.mem_cons_of_mem _ hu)

theorem append_fresh (hf : f.IsSound) (h : Grows f name c) {n : NodeId} (hnodup : t.ids.Nodup)
    (hbelow : ∀ i ∈ t.ids, c.forest.next ≤ i ∧ i < n) (hn : c.forest.next ≤ n) (ht : t.HasLeafTexts) :
    Grows f name (Construction.append t { c with forest := { c.forest with next := n } }) := by
  refine h.append hf (h.admits_of_fresh hnodup hbelow hn ht) hn (fun i hi hlt => ?_) fun u hu => .inl hu
  obtain hi | hi := List.mem_append.1 hi
  · exact absurd hlt (Nat.not_lt.2 (hbelow i hi).1)
  · exact hi

theorem appendCopy (hf : f.IsSound) (h : Grows f name c) (ht : t.HasLeafTexts) :
    Grows f name (c.appendCopy t) := by
  obtain ⟨hids, hnext⟩ := t.renumber_ids c.forest.next
  refine h.append_fresh hf ?_ (fun i hi => ?_) ?_ (t.renumber_leafTexts _ ht)
  · rw [hids]
    exact List.nodup_range'
  · rw [hids, List.mem_range'_1] at hi
    rwa [hnext]
  · rw [hnext]
    exact Nat.le_add_right _ _

theorem appendString (hf : f.IsSound) (h : Grows f name c) (s : String) :
    Grows f name (c.appendString s) := by
  unfold Construction.appendString
  split
  · exact h
  · refine h.append_fresh hf (List.nodup_singleton _) (fun i hi => ?_) (Nat.le_succ _) fun u hu _ => ?_
    · obtain rfl := List.mem_singleton.1 hi
      exact ⟨le_rfl, Nat.lt_succ_self _⟩
    · obtain rfl := List.mem_singleton.1 hu
      rfl

private theorem filter_id_ne {before after : List Tree} (h : (idsOf (before ++ t :: after)).Nodup) :
    (before ++ t :: after).filter (·.id != t.id) = before ++ after := by
  have hne : ∀ u, u ∈ before ∨ u ∈ after → u.id ≠ t.id := by
    intro u hu heq
    have hu' : u.id ∈ u.ids := by simp [ids_eq]
    have ht' : t.id ∈ t.ids := by simp [ids_eq]
    rw [idsOf_append, idsOf_cons] at h
    simp only [idsOf_eq] at h
    rw [List.nodup_append, List.nodup_append] at h
    obtain hu | hu := hu
    · exact h.2.2 _ (List.mem_flatMap.2 ⟨u, hu, hu'⟩) _ (List.mem_append_left _ ht') heq
    · exact h.2.1.2.2 _ ht' _ (List.mem_flatMap.2 ⟨u, hu, hu'⟩) heq.symm
  rw [List.filter_append, List.filter_cons, if_neg (by simp),
    List.filter_eq_self.2 fun u hu => by simp [hne u (.inl hu)],
    List.filter_eq_self.2 fun u hu => by simp [hne u (.inr hu)]]

/-- A tree of its own is moved into the element. -/
theorem append_moved (hf : f.IsSound) (h : Grows f name c) (ht : t ∈ c.forest.trees) :
    Grows f name (Construction.append t { c with
      forest := { c.forest with trees := c.forest.trees.filter (·.id != t.id) } }) := by
  have hsound := h.sound
  obtain ⟨⟨next, trees⟩, e⟩ := c
  cases e with
  | node i d parts =>
  obtain ⟨before, after, rfl⟩ := List.append_of_mem ht
  obtain ⟨hids, hlow, htexts, hroots⟩ := hsound
  change (idsOf (node i d parts :: (before ++ t :: after))).Nodup at hids
  change ∀ j ∈ idsOf (node i d parts :: (before ++ t :: after)), j < next at hlow
  rw [idsOf_node_cons] at hids hlow
  dsimp only
  rw [filter_id_ne (List.nodup_append.1 (List.nodup_cons.1 hids).2).2.1]
  have hperm : (i :: (idsOf parts ++ t.ids ++ idsOf (before ++ after))).Perm
      (i :: (idsOf parts ++ idsOf (before ++ t :: after))) := by
    rw [idsOf_append, idsOf_append, idsOf_cons, List.append_assoc]
    refine .cons _ (.append_left _ ?_)
    simpa only [List.append_assoc] using List.perm_append_comm.append_right (idsOf after)
  have hnodes {u : Tree} : u ∈ preorderList (before ++ t :: after) ↔
      u ∈ preorderList (before ++ after) ∨ u ∈ t.preorder := by
    simp only [preorderList_eq, List.flatMap_append, List.flatMap_cons, List.mem_append]
    tauto
  have hleaf {u v : Tree} (hu : u ∈ parts ∨ u ∈ before ++ t :: after) (hv : v ∈ u.preorder) :
      v.content.isText → v.parts = [] := by
    refine htexts v (List.mem_cons_of_mem _ (List.mem_append.2 ?_))
    exact hu.imp (fun hu => mem_preorderList.2 ⟨u, hu, hv⟩) fun hu => mem_preorderList.2 ⟨u, hu, hv⟩
  have hadmits : Admits name i parts t ⟨next, before ++ after⟩ := by
    refine ⟨hperm.nodup_iff.2 hids, fun j hj => hlow j (hperm.subset hj), fun u hu v => hleaf (.inl hu),
      fun v => hleaf (.inr ht), fun u hu => ?_, fun u hu => ?_⟩
    · obtain ⟨r, hr, hur⟩ := mem_preorderList.1 (hnodes.2 (.inl hu))
      exact hleaf (.inr hr) hur
    · exact hroots u (List.mem_cons_of_mem _ (by simp at hu ⊢; tauto))
  refine h.append hf hadmits le_rfl (fun j hj _ => ?_) fun u hu => ?_
  · simp only [idsOf_append, idsOf_cons, List.mem_append] at hj ⊢
    tauto
  · exact (hnodes.1 hu).imp_right fun hut => ⟨hut, hroots t (List.mem_cons_of_mem _ ht)⟩

theorem appendNode (hf : f.IsSound) (h : Grows f name c) {i : NodeId} (hi : i < f.next) :
    Grows f name (c.appendNode i) := by
  have hchain : ∀ u ∈ c.chain i, u ∈ c.whole.nodes := fun u hu => Forest.mem_nodes_of_chain hu
  have hleaf {u : Tree} (hu : u ∈ c.whole.nodes) : u.HasLeafTexts := fun v hv =>
    h.sound.texts v (Forest.mem_nodes_trans hu hv)
  unfold Construction.appendNode
  split
  · exact h
  · next t ancestors heq =>
    have ht := hchain t (by simp [heq])
    have hid : t.id = i := Forest.chain_head (f := c.whole) heq
    split
    · have hcopies (us : List Tree) (hus : ∀ u ∈ us, u.HasLeafTexts) :
          ∀ c, Grows f name c → Grows f name (us.foldl (fun c u => c.appendCopy u) c) := by
        induction us with
        | nil => exact fun _ hc => hc
        | cons u us ih =>
          obtain ⟨hu, hus⟩ := List.forall_mem_cons.1 hus
          exact fun c hc => ih hus _ (hc.appendCopy hf hu)
      exact hcopies _ (fun u hu => hleaf (Forest.mem_nodes_of_part ht (List.mem_filter.1 hu).1)) c h
    · exact h
    · split
      · next hnone =>
        obtain rfl := List.isEmpty_iff.1 hnone
        -- The only tree that is not kept beside the element is the element.
        have hroot : t ∈ c.whole.trees := by
          have hne : c.whole.chain i ≠ [] := by simp [show c.whole.chain i = [t] from heq]
          obtain ⟨r, hr, hline⟩ := Forest.isLine_chain hne
          rw [show c.whole.chain i = [t] from heq] at hline
          cases hline.last
          exact hr
        obtain rfl | hmem := List.mem_cons.1 hroot
        · exact absurd (hid.symm.trans h.id) hi.ne
        · rw [← hid]
          exact h.append_moved hf hmem
      · exact h.appendCopy hf (hleaf ht)

theorem appendContent (hf : f.IsSound) (words : List String) (xs : List Item)
    (hxs : ∀ i, Item.node i ∈ xs → i < f.next) (h : Grows f name c) :
    Grows f name (c.appendContent words xs) := by
  induction xs generalizing words c with
  | nil => exact h.appendString hf _
  | cons x xs ih =>
    have hrest : ∀ i, Item.node i ∈ xs → i < f.next := fun i hi => hxs i (List.mem_cons_of_mem x hi)
    cases x with
    | atomic a => exact ih (a.text :: words) hrest h
    | node i => exact ih [] hrest ((h.appendString hf _).appendNode hf (hxs i List.mem_cons_self))

end Grows
end Construction
end XPath
