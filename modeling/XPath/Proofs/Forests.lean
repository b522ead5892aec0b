import XPath.Tree.Axis
import Mathlib.Data.List.Chain
import Mathlib.Data.List.Nodup

/-!
Forests in which every node has an identity of its own. A node is found by its identity together with its
ancestors, and every axis gives nodes of the forest.
-/
namespace XPath

namespace Tree

theorem preorderList_eq (ts : List Tree) : preorderList ts = ts.flatMap preorder := by
  induction ts with
  | nil => rfl
  | cons t ts ih => rw [preorderList, ih, List.flatMap_cons]

theorem preorder_eq (t : Tree) : t.preorder = t :: t.parts.flatMap preorder := by
  cases t
  rw [preorder, preorderList_eq]
  rfl

theorem mem_preorderList {u : Tree} {ts : List Tree} :
    u ∈ preorderList ts ↔ ∃ t ∈ ts, u ∈ t.preorder := by
  rw [preorderList_eq, List.mem_flatMap]

@[simp] theorem mem_preorder_self (t : Tree) : t ∈ t.preorder := by
  simp [preorder_eq t]

theorem mem_preorder_iff {t u : Tree} : u ∈ t.preorder ↔ u = t ∨ ∃ p ∈ t.parts, u ∈ p.preorder := by
  rw [preorder_eq, List.mem_cons, List.mem_flatMap]

theorem mem_preorder_of_part {t u : Tree} (h : u ∈ t.parts) : u ∈ t.preorder :=
  mem_preorder_iff.2 (.inr ⟨u, h, u.mem_preorder_self⟩)

/-- What is below a node below a tree is below the tree. -/
theorem mem_preorder_trans (t : Tree) {u v : Tree} (hu : u ∈ t.preorder) (hv : v ∈ u.preorder) :
    v ∈ t.preorder := by
  match t with
  | .node i c ts =>
    obtain rfl | ⟨p, hp, hup⟩ := mem_preorder_iff.1 hu
    · exact hv
    · exact mem_preorder_iff.2 (.inr ⟨p, hp, mem_preorder_trans p hup hv⟩)
termination_by sizeOf t
decreasing_by
  have := List.sizeOf_lt_of_mem (show p ∈ ts from hp)
  simp only [node.sizeOf_spec]
  omega

/-- The identities in some trees, in document order. -/
def idsOf (ts : List Tree) : List NodeId := (preorderList ts).map id

/-- The identities in a tree, in document order. -/
def ids (t : Tree) : List NodeId := t.preorder.map id

theorem idsOf_eq (ts : List Tree) : idsOf ts = ts.flatMap ids := by
  rw [idsOf, preorderList_eq, List.map_flatMap]
  rfl

@[simp] theorem idsOf_nil : idsOf [] = [] := rfl

@[simp] theorem idsOf_cons (t : Tree) (ts : List Tree) : idsOf (t :: ts) = t.ids ++ idsOf ts := by
  simp [idsOf_eq]

@[simp] theorem idsOf_append (ts us : List Tree) : idsOf (ts ++ us) = idsOf ts ++ idsOf us := by
  simp [idsOf_eq]

@[simp] theorem ids_node (i : NodeId) (c : Content) (ts : List Tree) :
    (node i c ts).ids = i :: idsOf ts := rfl

theorem idsOf_node_cons (i : NodeId) (c : Content) (ts us : List Tree) :
    idsOf (node i c ts :: us) = i :: (idsOf ts ++ idsOf us) := by
  simp

theorem ids_eq (t : Tree) : t.ids = t.id :: idsOf t.parts := by
  cases t
  rfl

/-- A node and its ancestors, each a part of the next one. -/
structure IsLine (i : NodeId) (root : Tree) (us : List Tree) : Prop where
  head : us.head?.map id = some i
  last : us.getLast? = some root
  parts : us.IsChain fun u v => u ∈ v.parts

theorem isLine_singleton (t : Tree) : IsLine t.id t [t] := ⟨rfl, rfl, .singleton t⟩

theorem IsLine.concat {i : NodeId} {t : Tree} {us : List Tree} (h : IsLine i t us) {u : Tree}
    (ht : t ∈ u.parts) : IsLine i u (us ++ [u]) where
  head := by
    cases us with
    | nil => cases h.head
    | cons v vs => exact h.head
  last := by simp
  parts := List.isChain_append.2 ⟨h.parts, .singleton u, by simp [h.last, ht]⟩

mutual

theorem isLine_of_chain? {i : NodeId} (t : Tree) {us : List Tree} (h : t.chain? i = some us) :
    IsLine i t us := by
  match t with
  | .node j c ts =>
    rw [chain?] at h
    split at h
    · next hij =>
      cases h
      subst hij
      exact isLine_singleton (node i c ts)
    · obtain ⟨vs, hvs, rfl⟩ := Option.map_eq_some_iff.1 h
      obtain ⟨t, ht, hline⟩ := isLine_of_chainList? ts hvs
      exact hline.concat ht

theorem isLine_of_chainList? {i : NodeId} (ts : List Tree) {us : List Tree}
    (h : chainList? i ts = some us) : ∃ t ∈ ts, IsLine i t us := by
  match ts with
  | [] => cases h
  | t :: ts =>
    rw [chainList?] at h
    cases hc : t.chain? i with
    | some vs =>
      rw [hc] at h
      cases h
      exact ⟨t, List.mem_cons_self, isLine_of_chain? t hc⟩
    | none =>
      rw [hc] at h
      obtain ⟨u, hu, hline⟩ := isLine_of_chainList? ts h
      exact ⟨u, List.mem_cons_of_mem t hu, hline⟩

end

mutual

/-- Every node is found. -/
theorem chain?_isSome {i : NodeId} (t : Tree) (h : i ∈ t.ids) : (t.chain? i).isSome := by
  match t with
  | .node j c ts =>
    rw [chain?]
    split
    · rfl
    · next hne =>
      rw [Option.isSome_map]
      exact chainList?_isSome ts (by simpa [hne] using h)

theorem chainList?_isSome {i : NodeId} (ts : List Tree) (h : i ∈ idsOf ts) :
    (chainList? i ts).isSome := by
  match ts with
  | [] => cases h
  | t :: ts =>
    rw [chainList?]
    cases hc : t.chain? i with
    | some us => rfl
    | none =>
      have ht : i ∉ t.ids := fun hi => by simpa [hc] using chain?_isSome t hi
      rw [idsOf_cons, List.mem_append] at h
      exact chainList?_isSome ts (h.resolve_left ht)

end

theorem IsLine.mem_preorder {i : NodeId} {root : Tree} {us : List Tree} (h : IsLine i root us) :
    ∀ u ∈ us, u ∈ root.preorder := by
  obtain ⟨hhead, hlast, hparts⟩ := h
  clear hhead
  induction us with
  | nil => nofun
  | cons u us ih =>
    cases us with
    | nil =>
      cases hlast
      simp
    | cons v vs =>
      obtain ⟨huv, hvs⟩ := List.isChain_cons_cons.1 hparts
      have hall := ih (by rwa [List.getLast?_cons_cons] at hlast) hvs
      refine List.forall_mem_cons.2 ⟨?_, hall⟩
      exact mem_preorder_trans root (hall v List.mem_cons_self) (mem_preorder_of_part huv)

end Tree

namespace Forest
open XPath.Tree

/-- The nodes of all trees. -/
def nodes (f : Forest) : List Tree := preorderList f.trees

/-- Identities are used once and are below the first free number; texts have nothing below them, and
attributes and namespaces are parts of elements. -/
structure IsSound (f : Forest) : Prop where
  nodup : (idsOf f.trees).Nodup
  below : ∀ i ∈ idsOf f.trees, i < f.next
  texts : ∀ t ∈ f.nodes, t.content.isText → t.parts = []
  roots : ∀ t ∈ f.trees, t.content.isOrdinary

variable {f : Forest} {i : NodeId} {t u : Tree}

theorem mem_ids : i ∈ idsOf f.trees ↔ ∃ t ∈ f.nodes, t.id = i := List.mem_map

theorem mem_nodes_of_root (h : t ∈ f.trees) : t ∈ f.nodes :=
  mem_preorderList.2 ⟨t, h, t.mem_preorder_self⟩

theorem mem_nodes_trans (ht : t ∈ f.nodes) (hu : u ∈ t.preorder) : u ∈ f.nodes := by
  obtain ⟨r, hr, htr⟩ := mem_preorderList.1 ht
  exact mem_preorderList.2 ⟨r, hr, mem_preorder_trans r htr hu⟩

theorem mem_nodes_of_part (ht : t ∈ f.nodes) (hu : u ∈ t.parts) : u ∈ f.nodes :=
  mem_nodes_trans ht (mem_preorder_of_part hu)

/-- A chain that is not empty leads to a root. -/
theorem isLine_chain (h : f.chain i ≠ []) : ∃ r ∈ f.trees, IsLine i r (f.chain i) := by
  unfold chain at h ⊢
  cases hc : chainList? i f.trees with
  | none => simp [hc] at h
  | some us => exact isLine_of_chainList? _ hc

theorem mem_nodes_of_chain (h : t ∈ f.chain i) : t ∈ f.nodes := by
  obtain ⟨r, hr, hline⟩ := isLine_chain (List.ne_nil_of_mem h)
  exact mem_nodes_trans (mem_nodes_of_root hr) (hline.mem_preorder t h)

theorem chain_head {rest : List Tree} (h : f.chain i = t :: rest) : t.id = i := by
  obtain ⟨_, _, hline⟩ := isLine_chain (by simp [h] : f.chain i ≠ [])
  simpa [h] using hline.head

theorem node?_eq_some (h : f.node? i = some t) : t ∈ f.nodes ∧ t.id = i := by
  unfold node? at h
  cases hc : f.chain i with
  | nil => simp [hc] at h
  | cons u us =>
    rw [hc] at h
    cases h
    exact ⟨mem_nodes_of_chain (hc ▸ List.mem_cons_self), chain_head hc⟩

theorem node?_isSome (h : i ∈ idsOf f.trees) : ∃ t, f.node? i = some t := by
  obtain ⟨us, hus⟩ := Option.isSome_iff_exists.1 (chainList?_isSome _ h)
  obtain ⟨_, _, hline⟩ := isLine_of_chainList? _ hus
  cases us with
  | nil => cases hline.head
  | cons u us => exact ⟨u, by simp [node?, chain, hus]⟩

theorem node?_eq_none (h : f.node? i = none) : i ∉ idsOf f.trees := by
  intro hi
  obtain ⟨t, ht⟩ := node?_isSome hi
  simp [h] at ht

theorem root?_mem {r : Tree} (h : f.root? i = some r) : r ∈ f.trees := by
  unfold root? at h
  have hne : f.chain i ≠ [] := fun hnil => by simp [hnil] at h
  obtain ⟨_, hr, hline⟩ := isLine_chain hne
  rw [hline.last] at h
  cases h
  exact hr

/-! Where every node has an identity of its own, it is found by it. -/

theorem eq_of_id (h : (idsOf f.trees).Nodup) (ht : t ∈ f.nodes) (hu : u ∈ f.nodes) (heq : t.id = u.id) : t = u :=
  List.inj_on_of_nodup_map h ht hu heq

theorem node?_eq (h : (idsOf f.trees).Nodup) (ht : t ∈ f.nodes) : f.node? t.id = some t := by
  obtain ⟨u, hu⟩ := node?_isSome (mem_ids.2 ⟨t, ht, rfl⟩)
  obtain ⟨hmem, hid⟩ := node?_eq_some hu
  rw [hu, eq_of_id h hmem ht hid]

namespace IsSound

theorem eq_of_id (h : f.IsSound) (ht : t ∈ f.nodes) (hu : u ∈ f.nodes) (heq : t.id = u.id) : t = u :=
  Forest.eq_of_id h.nodup ht hu heq

theorem node?_eq (h : f.IsSound) (ht : t ∈ f.nodes) : f.node? t.id = some t := Forest.node?_eq h.nodup ht

theorem lt_next (h : f.IsSound) (ht : t ∈ f.nodes) : t.id < f.next :=
  h.below _ (mem_ids.2 ⟨t, ht, rfl⟩)

end IsSound

end Forest

namespace Axis
open XPath.Tree

theorem around_subset (i : NodeId) (ts : List Tree) : ∀ u, u ∈ (around i ts).1 ∨ u ∈ (around i ts).2 → u ∈ ts := by
  intro u hu
  obtain hu | hu := hu
  · exact (List.takeWhile_sublist _).subset (List.mem_reverse.1 hu)
  · exact (List.dropWhile_sublist _).subset (List.mem_of_mem_drop hu)

variable {f : Forest}

theorem following_subset {us : List Tree} (h : ∀ u ∈ us, u ∈ f.nodes) :
    ∀ u ∈ Tree.following us, u ∈ f.nodes := by
  induction us with
  | nil => nofun
  | cons t us ih =>
    cases us with
    | nil => nofun
    | cons p us =>
      intro u hu
      rw [Tree.following] at hu
      obtain hu | hu := List.mem_append.1 hu
      · obtain ⟨v, hv, huv⟩ := List.mem_flatMap.1 (List.mem_filter.1 hu).1
        exact Forest.mem_nodes_trans
          (Forest.mem_nodes_of_part (h p (by simp)) (around_subset _ _ v (.inr hv))) huv
      · exact ih (fun v hv => h v (List.mem_cons_of_mem t hv)) u hu

theorem preceding_subset {us : List Tree} (h : ∀ u ∈ us, u ∈ f.nodes) :
    ∀ u ∈ Tree.preceding us, u ∈ f.nodes := by
  induction us with
  | nil => nofun
  | cons t us ih =>
    cases us with
    | nil => nofun
    | cons p us =>
      intro u hu
      rw [Tree.preceding] at hu
      obtain hu | hu := List.mem_append.1 hu
      · obtain ⟨v, hv, huv⟩ := List.mem_flatMap.1 (List.mem_filter.1 hu).1
        exact Forest.mem_nodes_trans
          (Forest.mem_nodes_of_part (h p (by simp)) (around_subset _ _ v (.inl hv)))
          (List.mem_reverse.1 huv)
      · exact ih (fun v hv => h v (List.mem_cons_of_mem t hv)) u hu

theorem siblings_subset {us : List Tree} (h : ∀ u ∈ us, u ∈ f.nodes) :
    ∀ u, u ∈ (siblings us).1 ∨ u ∈ (siblings us).2 → u ∈ f.nodes := by
  intro u hu
  match us with
  | [] => simp [siblings] at hu
  | [t] => simp [siblings] at hu
  | t :: p :: rest =>
    have hpart := (List.mem_filter.1 (around_subset _ _ u hu)).1
    exact Forest.mem_nodes_of_part (h p (by simp)) hpart

/-- From a node of the forest every axis leads to nodes of the forest. -/
theorem nodes_subset (axis : Axis) {us : List Tree} (h : ∀ u ∈ us, u ∈ f.nodes) :
    ∀ u ∈ axis.nodes us, u ∈ f.nodes := by
  intro u hu
  match us with
  | [] => cases hu
  | t :: ancestors =>
    have ht : t ∈ f.nodes := h t List.mem_cons_self
    cases axis with
    | child => exact Forest.mem_nodes_of_part ht (List.mem_filter.1 hu).1
    | attr => exact Forest.mem_nodes_of_part ht (List.mem_filter.1 hu).1
    | descendant =>
      obtain ⟨p, hp, hup⟩ := mem_preorderList.1 (List.mem_filter.1 hu).1
      exact Forest.mem_nodes_trans (Forest.mem_nodes_of_part ht hp) hup
    | descendantOrSelf => exact Forest.mem_nodes_trans ht (List.mem_filter.1 hu).1
    | self => exact List.mem_singleton.1 hu ▸ ht
    | parent => exact h u (List.mem_cons_of_mem t (List.mem_of_mem_take hu))
    | ancestor => exact h u (List.mem_cons_of_mem t hu)
    | ancestorOrSelf => exact h u hu
    | followingSibling => exact siblings_subset h u (.inr hu)
    | precedingSibling => exact siblings_subset h u (.inl hu)
    | following => exact following_subset h u hu
    | preceding => exact preceding_subset h u hu
    | ns => cases hu

end Axis
end XPath
