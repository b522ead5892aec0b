import XPath.Proofs.Preservation

/-!
Ancestors. Where every node has an identity of its own, a node is a part of one other node at most, and wherever it
is met it is found together with the same ancestors.
-/
namespace XPath

namespace Tree
variable {i : NodeId} {t : Tree} {ts : List Tree}

theorem id_mem_ids (t : Tree) : t.id ∈ t.ids := List.mem_map_of_mem t.mem_preorder_self

theorem chain?_self (t : Tree) : t.chain? t.id = some [t] := by
  cases t
  exact if_pos rfl

/-- A node is found in the tree that has it. -/
theorem chainList?_of_mem (h : (idsOf ts).Nodup) (ht : t ∈ ts) (hi : i ∈ t.ids) : chainList? i ts = t.chain? i := by
  induction ts with
  | nil => cases ht
  | cons u us ih =>
    rw [idsOf_cons, List.nodup_append] at h
    obtain ⟨_, hus, hapart⟩ := h
    rw [chainList?]
    obtain rfl | ht := List.mem_cons.1 ht
    · obtain ⟨vs, hvs⟩ := Option.isSome_iff_exists.1 (chain?_isSome t hi)
      rw [hvs]
      rfl
    · have hu : i ∉ u.ids := fun hu => hapart i hu i (mem_idsOf ht hi) rfl
      rw [chain?_eq_none hu, ih hus ht]
      rfl

/-- A part is found below the node that it is a part of. -/
theorem chain?_of_part (t : Tree) {p u : Tree} {us : List Tree} (h : t.ids.Nodup)
    (hp : t.chain? p.id = some (p :: us)) (hu : u ∈ p.parts) : t.chain? u.id = some (u :: p :: us) := by
  match t with
  | .node j c ts =>
    rw [ids_node, List.nodup_cons] at h
    obtain ⟨hj, hts⟩ := h
    rw [chain?] at hp ⊢
    split at hp
    · cases hp
      have hne : u.id ≠ j := fun heq => hj (heq ▸ mem_idsOf hu u.id_mem_ids)
      rw [if_neg hne, chainList?_of_mem hts hu u.id_mem_ids, chain?_self]
      rfl
    · obtain ⟨vs, hvs, heq⟩ := Option.map_eq_some_iff.1 hp
      obtain ⟨v, hv, hline⟩ := isLine_of_chainList? ts hvs
      obtain ⟨q, vs, rfl⟩ : ∃ q qs, vs = q :: qs := by
        cases vs with
        | nil => cases hline.head
        | cons q qs => exact ⟨q, qs, rfl⟩
      cases heq
      have hpv : p ∈ v.preorder := hline.mem_preorder p List.mem_cons_self
      have huv : u.id ∈ v.ids := List.mem_map_of_mem (mem_preorder_trans v hpv (mem_preorder_of_part hu))
      have hne : u.id ≠ j := fun heq => hj (heq ▸ mem_idsOf hv huv)
      have hvs' : v.chain? p.id = some (p :: vs) := by
        rw [← chainList?_of_mem hts hv (List.mem_map_of_mem hpv), hvs]
      have hnodup : v.ids.Nodup := by
        rw [idsOf_eq, List.nodup_flatMap] at hts
        exact hts.1 v hv
      rw [if_neg hne, chainList?_of_mem hts hv huv, chain?_of_part v hnodup hvs' hu]
      rfl
termination_by sizeOf t
decreasing_by
  have := List.sizeOf_lt_of_mem (show v ∈ ts from hv)
  simp only [node.sizeOf_spec]
  omega

end Tree

namespace Forest
open XPath.Tree
variable {f : Forest} {i : NodeId} {r p t u : Tree} {us : List Tree}

theorem chain_of_mem (h : (idsOf f.trees).Nodup) (ht : t ∈ f.nodes) : ∃ ancestors, f.chain t.id = t :: ancestors :=
  List.head?_eq_some_iff.1 (node?_eq h ht)

theorem chain_of_root (h : (idsOf f.trees).Nodup) (hr : r ∈ f.trees) : f.chain r.id = [r] := by
  rw [chain, chainList?_of_mem h hr r.id_mem_ids, chain?_self]
  rfl

theorem chain_of_part (h : (idsOf f.trees).Nodup) (hp : p ∈ f.nodes) (hu : u ∈ p.parts) :
    f.chain u.id = u :: f.chain p.id := by
  obtain ⟨us, hus⟩ := chain_of_mem h hp
  obtain ⟨r, hr, hpr⟩ := mem_preorderList.1 hp
  have hfound {v : Tree} (hv : v ∈ r.preorder) : f.chain v.id = (r.chain? v.id).getD [] := by
    rw [chain, chainList?_of_mem h hr (List.mem_map_of_mem hv)]
  have hnodup : r.ids.Nodup := by
    rw [idsOf_eq, List.nodup_flatMap] at h
    exact h.1 r hr
  obtain ⟨vs, hvs⟩ := Option.isSome_iff_exists.1 (chain?_isSome r (List.mem_map_of_mem hpr))
  rw [hfound hpr, hvs] at hus
  cases hus
  rw [hfound hpr, hfound (mem_preorder_trans r hpr (mem_preorder_of_part hu)), hvs, chain?_of_part r hnodup hvs hu]
  rfl

/-- Wherever a node is met, its ancestors are those that it is found with. -/
theorem chain_of_line (h : (idsOf f.trees).Nodup) (hr : r ∈ f.trees) (hline : IsLine i r us) : f.chain i = us := by
  induction us generalizing i with
  | nil => cases hline.head
  | cons u us ih =>
    obtain rfl : u.id = i := Option.some.inj hline.head
    cases us with
    | nil =>
      obtain rfl : u = r := Option.some.inj hline.last
      exact chain_of_root h hr
    | cons p us =>
      obtain ⟨hu, hparts⟩ := List.isChain_cons_cons.1 hline.parts
      have hlast : (p :: us).getLast? = some r := by rw [← hline.last, List.getLast?_cons_cons]
      have hmem : p ∈ f.nodes := mem_nodes_trans (mem_nodes_of_root hr) (hline.mem_preorder p (by simp))
      rw [chain_of_part h hmem hu, ih ⟨rfl, hlast, hparts⟩]

end Forest
end XPath
