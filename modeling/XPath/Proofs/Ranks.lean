import XPath.Proofs.Forests
import XPath.Tree.Order
import Mathlib.Data.List.TakeWhile

/-!
The numbers that nodes are given. Every node has a place in its own tree. What has been found out about
document order is right if ranks tell these places and which nodes are in one tree; asking for the rank of
a node keeps it right and changes no rank.
-/
namespace XPath

namespace Forest
open XPath.Tree

/-- The nodes of the tree that a node is in, in document order. A node that is in no tree is alone. -/
def line (f : Forest) (i : NodeId) : List NodeId := ((f.root? i).map ids).getD [i]

/-- The place of a node in its tree. -/
def place (f : Forest) (i : NodeId) : ℕ := (f.line i).idxOf i

/-- The nodes of the tree up to this one. -/
def row (f : Forest) (i : NodeId) : List NodeId := (f.line i).take (f.place i + 1)

variable {f : Forest} {i j : NodeId} {r : Tree}

theorem mem_of_root? (h : f.root? i = some r) : i ∈ r.ids := by
  have hne : f.chain i ≠ [] := by
    intro hnil
    simp [root?, hnil] at h
  obtain ⟨r', _, hline⟩ := isLine_chain hne
  obtain rfl : r' = r := Option.some.inj (hline.last.symm.trans h)
  obtain ⟨u, hu, hid⟩ := Option.map_eq_some_iff.1 hline.head
  exact List.mem_map.2 ⟨u, hline.mem_preorder u (List.mem_of_mem_head? hu), hid⟩

theorem mem_line (f : Forest) (i : NodeId) : i ∈ f.line i := by
  unfold line
  cases h : f.root? i with
  | none => simp
  | some r => exact mem_of_root? h

namespace IsSound

theorem nodup_ids (h : f.IsSound) (hr : r ∈ f.trees) : r.ids.Nodup := by
  have hall := h.nodup
  rw [idsOf_eq, List.nodup_flatMap] at hall
  exact hall.1 r hr

theorem root?_eq (h : f.IsSound) (hr : r ∈ f.trees) (hi : i ∈ r.ids) : f.root? i = some r := by
  obtain ⟨us, hus⟩ := Option.isSome_iff_exists.1
    (chainList?_isSome f.trees (idsOf_eq f.trees ▸ List.mem_flatMap.2 ⟨r, hr, hi⟩))
  obtain ⟨r', hr', hline⟩ := isLine_of_chainList? _ hus
  have hroot : f.root? i = some r' := by simpa [root?, chain, hus] using hline.last
  have hi' := mem_of_root? hroot
  have hall := h.nodup
  rw [idsOf_eq, List.nodup_flatMap] at hall
  have : Std.Symm (Function.onFun List.Disjoint ids) := ⟨fun _ _ h _ hy hx => h hx hy⟩
  by_contra hne
  exact hall.2.forall hr' hr (fun heq => hne (heq ▸ hroot)) hi' hi

theorem nodup_line (h : f.IsSound) (i : NodeId) : (f.line i).Nodup := by
  unfold line
  cases hroot : f.root? i with
  | none => simp
  | some r => exact h.nodup_ids (root?_mem hroot)

/-- All nodes of a tree have the same line. -/
theorem line_eq (h : f.IsSound) (hj : j ∈ f.line i) : f.line j = f.line i := by
  cases hroot : f.root? i with
  | none =>
    have : j = i := by simpa [line, hroot] using hj
    rw [this]
  | some r =>
    have hj' : j ∈ r.ids := by simpa [line, hroot] using hj
    simp [line, hroot, h.root?_eq (root?_mem hroot) hj']

end IsSound

theorem place_lt (f : Forest) (i : NodeId) : f.place i < (f.line i).length :=
  List.idxOf_lt_length_of_mem (f.mem_line i)

theorem getElem_place (f : Forest) (i : NodeId) : (f.line i).get ⟨f.place i, f.place_lt i⟩ = i :=
  List.getElem_idxOf _

theorem getElem?_place (f : Forest) (i : NodeId) : (f.line i)[f.place i]? = some i :=
  List.getElem?_eq_some_iff.2 ⟨f.place_lt i, f.getElem_place i⟩

/-- Nodes of one tree differ in their places. -/
theorem eq_of_place (hline : f.line i = f.line j) (hplace : f.place i = f.place j) : i = j := by
  have hi := f.getElem?_place i
  rw [hline, hplace, f.getElem?_place j] at hi
  exact (Option.some.inj hi).symm

theorem row_eq (f : Forest) (i : NodeId) : f.row i = (f.line i).take (f.place i) ++ [i] := by
  unfold row
  rw [List.take_add_one, f.getElem?_place]
  rfl

theorem mem_row (h : f.IsSound) : j ∈ f.row i ↔ j ∈ f.line i ∧ f.place j ≤ f.place i := by
  unfold row
  constructor
  · intro hj
    have hmem := List.mem_of_mem_take hj
    refine ⟨hmem, ?_⟩
    rw [List.mem_take_iff_idxOf_lt hmem] at hj
    unfold place
    rw [h.line_eq hmem]
    exact Nat.lt_succ_iff.1 hj
  · rintro ⟨hmem, hle⟩
    rw [List.mem_take_iff_idxOf_lt hmem, ← h.line_eq hmem]
    exact Nat.lt_succ_of_le hle

theorem place_of_mem_row (h : f.IsSound) (hj : j ∈ f.row i) : f.place j = (f.row i).idxOf j := by
  unfold place
  rw [h.line_eq (List.mem_of_mem_take hj)]
  exact ((List.take_prefix _ _).idxOf_eq_of_mem hj).symm

end Forest

namespace DocumentOrder

theorem number_ranks (o : DocumentOrder) (t p : ℕ) {is : List NodeId} (h : is.Nodup) (x : NodeId) :
    (o.number t p is).ranks[x]? = if x ∈ is then some ⟨t, p + is.idxOf x⟩ else o.ranks[x]? := by
  induction is generalizing o p with
  | nil => simp [number]
  | cons i is ih =>
    obtain ⟨hi, his⟩ := List.nodup_cons.1 h
    rw [number, ih _ _ his]
    dsimp only
    rw [Std.HashMap.getElem?_insert]
    by_cases hx : x = i
    · subst hx
      simp [hi]
    · simp [hx, Ne.symm hx, List.idxOf_cons_ne is (Ne.symm hx), Nat.add_assoc, Nat.add_comm 1]

theorem number_trees (o : DocumentOrder) (t p : ℕ) (is : List NodeId) :
    (o.number t p is).trees = o.trees := by
  induction is generalizing o p with
  | nil => rfl
  | cons i is ih => rw [number, ih]

/-- The ranks tell the places of nodes and which nodes are in one tree; in a tree, all nodes up to some
place have ranks. -/
structure IsOf (f : Forest) (o : DocumentOrder) : Prop where
  place : ∀ {i : NodeId} {r : Rank}, o.ranks[i]? = some r → r.place = f.place i
  tree : ∀ {i : NodeId} {r : Rank}, o.ranks[i]? = some r → r.tree ≤ o.trees
  same : ∀ {i j : NodeId} {r s : Rank}, o.ranks[i]? = some r → o.ranks[j]? = some s →
    (r.tree = s.tree ↔ f.line i = f.line j)
  before : ∀ {i j : NodeId} {r : Rank}, o.ranks[i]? = some r → j ∈ f.line i → f.place j ≤ f.place i →
    (o.ranks[j]?).isSome

theorem isOf_empty (f : Forest) : IsOf f {} := by
  constructor <;> simp

/-- All ranks are kept. -/
def Within (o o' : DocumentOrder) : Prop :=
  ∀ (i : NodeId) (r : Rank), o.ranks[i]? = some r → o'.ranks[i]? = some r

theorem Within.refl (o : DocumentOrder) : o.Within o := fun _ _ h => h

theorem Within.trans {o p q : DocumentOrder} (h : o.Within p) (h' : p.Within q) : o.Within q :=
  fun i r hr => h' i r (h i r hr)

variable {f : Forest} {o : DocumentOrder} {i : NodeId}

/-- The nodes of a row that have no rank yet stand at its end. -/
theorem exists_fresh (ranked : NodeId → Bool) (row : List NodeId) : ∃ kept fresh,
    row = kept ++ fresh ∧ (row.reverse.takeWhile (!ranked ·)).reverse = fresh ∧
      (∀ x ∈ fresh, ranked x = false) ∧ ∀ z ∈ kept.getLast?, ranked z := by
  refine ⟨(row.reverse.dropWhile (!ranked ·)).reverse, _, ?_, rfl, fun x hx => ?_, fun z hz => ?_⟩
  · rw [← List.reverse_append, List.takeWhile_append_dropWhile, List.reverse_reverse]
  · simpa using List.mem_takeWhile_imp (List.mem_reverse.1 hx)
  · have hhead := List.head?_dropWhile_not (!ranked ·) row.reverse
    rw [List.getLast?_reverse] at hz
    simpa [Option.mem_def.1 hz] using hhead

/-- What asking for the rank of a node without one comes to: new nodes of its tree get ranks. -/
structure Ranks (f : Forest) (i : NodeId) (o o' : DocumentOrder) (t : ℕ) (new : List NodeId) : Prop where
  ranks : ∀ x : NodeId, o'.ranks[x]? = if x ∈ new then some ⟨t, f.place x⟩ else o.ranks[x]?
  trees : o.trees ≤ o'.trees
  tree : t ≤ o'.trees
  asked : i ∈ new
  fresh : ∀ x ∈ new, o.ranks[x]? = none
  line : ∀ x ∈ new, f.line x = f.line i
  before : ∀ x ∈ new, ∀ y ∈ f.line i, f.place y ≤ f.place x → y ∈ new ∨ (o.ranks[y]?).isSome
  same : ∀ (j : NodeId) (s : Rank), o.ranks[j]? = some s → (s.tree = t ↔ f.line j = f.line i)

theorem Ranks.within {o' : DocumentOrder} {t : ℕ} {new : List NodeId} (h : Ranks f i o o' t new) :
    o.Within o' := by
  intro x r hr
  rw [h.ranks, if_neg, hr]
  intro hx
  rw [h.fresh x hx] at hr
  cases hr

theorem Ranks.isOf {o' : DocumentOrder} {t : ℕ} {new : List NodeId} (h : Ranks f i o o' t new)
    (ho : o.IsOf f) : o'.IsOf f where
  place {x r} hr := by
    rw [h.ranks] at hr
    split at hr
    · cases hr
      rfl
    · exact ho.place hr
  tree {x r} hr := by
    rw [h.ranks] at hr
    split at hr
    · cases hr
      exact h.tree
    · exact (ho.tree hr).trans h.trees
  same {x y r s} hr hs := by
    rw [h.ranks] at hr hs
    split at hr <;> split at hs
    · next hx hy =>
      cases hr
      cases hs
      simp [h.line x hx, h.line y hy]
    · next hx _ =>
      cases hr
      rw [h.line x hx, eq_comm, h.same y s hs, eq_comm]
    · next _ hy =>
      cases hs
      rw [h.line y hy, h.same x r hr]
    · exact ho.same hr hs
  before {x y r} hr hy hle := by
    rw [h.ranks] at hr ⊢
    split
    · rfl
    · next hnew =>
      split at hr
      · next hx => exact (h.before x hx y (h.line x hx ▸ hy) hle).resolve_left hnew
      · exact ho.before hr hy hle

/-- A row of which the first nodes have ranks and the others, among them the last one, do not. -/
structure Splits (f : Forest) (i : NodeId) (o : DocumentOrder) (kept fresh : List NodeId) : Prop where
  row : f.row i = kept ++ fresh
  numbered : o.numberRow (f.row i) = match kept.getLast?.bind (o.ranks[·]?) with
    | some r => o.number r.tree (r.place + 1) fresh
    | none => { o with trees := o.trees + 1 }.number (o.trees + 1) 0 fresh
  kept : ∀ x ∈ kept, (o.ranks[x]?).isSome
  fresh : ∀ x ∈ fresh, o.ranks[x]? = none

theorem exists_splits (hf : f.IsSound) (h : o.IsOf f) : ∃ kept fresh, Splits f i o kept fresh := by
  obtain ⟨kept, fresh, hrow, hfresh, hnot, hlast⟩ := exists_fresh (o.ranks.contains ·) (f.row i)
  refine ⟨kept, fresh, hrow, ?_, fun x hx => ?_, fun x hx => by simpa using hnot x hx⟩
  · unfold numberRow
    rw [hfresh, hrow]
    dsimp only
    generalize htake : (kept ++ fresh).take ((kept ++ fresh).length - fresh.length) = before
    obtain rfl : kept = before := by simpa using htake
    rfl
  · -- The last of them has a rank, and it comes last in the tree as well.
    obtain ⟨z, hz⟩ := Option.isSome_iff_exists.1 (List.getLast?_isSome.2 (List.ne_nil_of_mem hx))
    obtain ⟨init, rfl⟩ := List.getLast?_eq_some_iff.1 hz
    obtain ⟨r, hr⟩ : ∃ r, o.ranks[z]? = some r := by
      have hz' := hlast z hz
      rw [Std.HashMap.contains_eq_isSome_getElem?] at hz'
      exact Option.isSome_iff_exists.1 hz'
    have hmem (y) (hy : y ∈ init ++ [z]) : y ∈ f.row i := hrow ▸ List.mem_append_left fresh hy
    have hplace (y) (hy : y ∈ init ++ [z]) : f.place y = (init ++ [z]).idxOf y := by
      rw [Forest.place_of_mem_row hf (hmem y hy), hrow, List.idxOf_append_of_mem hy]
    have hnodup : (init ++ [z]).Nodup :=
      (hrow ▸ (hf.nodup_line i).sublist (List.take_sublist _ _) : (init ++ [z] ++ fresh).Nodup).of_append_left
    have hz' : z ∉ init := fun hz' => (List.nodup_append.1 hnodup).2.2 z hz' z (by simp) rfl
    apply h.before hr
    · rw [hf.line_eq (List.mem_of_mem_take (hmem z (by simp)))]
      exact List.mem_of_mem_take (hmem x hx)
    · rw [hplace x hx, hplace z (by simp), List.idxOf_append_of_notMem hz']
      have := List.idxOf_lt_length_of_mem hx
      simp at this ⊢
      omega

theorem ranks_numberRow (hf : f.IsSound) (h : o.IsOf f) (hi : o.ranks[i]? = none) :
    ∃ t new, Ranks f i o (o.numberRow (f.row i)) t new := by
  obtain ⟨kept, fresh, hsplit⟩ := exists_splits (i := i) hf h
  have hmem (x) : x ∈ f.row i ↔ x ∈ kept ∨ x ∈ fresh := by rw [hsplit.row, List.mem_append]
  have hline (x) (hx : x ∈ fresh) : f.line x = f.line i :=
    hf.line_eq (List.mem_of_mem_take ((hmem x).2 (.inr hx)))
  have hnodup : (kept ++ fresh).Nodup :=
    hsplit.row ▸ (hf.nodup_line i).sublist (List.take_sublist _ _)
  have hnumber (t : ℕ) (o' : DocumentOrder) (ho' : o'.ranks = o.ranks) (x : NodeId) :
      (o'.number t kept.length fresh).ranks[x]? = if x ∈ fresh then some ⟨t, f.place x⟩ else o.ranks[x]? := by
    rw [number_ranks _ _ _ (List.nodup_append.1 hnodup).2.1, ho']
    split
    · next hx =>
      rw [Forest.place_of_mem_row hf ((hmem x).2 (.inr hx)), hsplit.row,
        List.idxOf_append_of_notMem fun hk => (List.nodup_append.1 hnodup).2.2 x hk x hx rfl]
    · rfl
  have hasked : i ∈ fresh := by
    have hrow : i ∈ f.row i := (Forest.mem_row hf).2 ⟨f.mem_line i, le_rfl⟩
    refine ((hmem i).1 hrow).resolve_left fun hk => ?_
    simpa [hi] using hsplit.kept i hk
  have hbefore (x) (hx : x ∈ fresh) (y) (hy : y ∈ f.line i) (hle : f.place y ≤ f.place x) :
      y ∈ fresh ∨ (o.ranks[y]?).isSome := by
    have hx' := ((Forest.mem_row hf).1 ((hmem x).2 (.inr hx))).2
    exact ((hmem y).1 ((Forest.mem_row hf).2 ⟨hy, hle.trans hx'⟩)).symm.imp_right (hsplit.kept y)
  rw [hsplit.numbered]
  cases hk : kept.getLast? with
  | none =>
    obtain rfl := List.getLast?_eq_none_iff.1 hk
    refine ⟨o.trees + 1, fresh, hnumber _ _ rfl, ?_, ?_, hasked, hsplit.fresh, hline, hbefore, ?_⟩
    · exact (number_trees _ _ _ _).symm ▸ Nat.le_succ _
    · exact (number_trees _ _ _ _).symm ▸ le_rfl
    · -- No node of the tree has a rank yet.
      intro j s hs
      refine iff_of_false (fun heq => ?_) fun heq => ?_
      · exact absurd (h.tree hs) (by omega)
      · have hj : j ∈ f.line i := heq ▸ f.mem_line j
        by_cases hle : f.place j ≤ f.place i
        · have hj' := ((hmem j).1 ((Forest.mem_row hf).2 ⟨hj, hle⟩)).resolve_left (by simp)
          rw [hsplit.fresh j hj'] at hs
          cases hs
        · have := h.before hs (heq ▸ f.mem_line i) (Nat.le_of_not_le hle)
          simp [hi] at this
  | some z =>
    obtain ⟨init, rfl⟩ := List.getLast?_eq_some_iff.1 hk
    obtain ⟨r, hr⟩ := Option.isSome_iff_exists.1 (hsplit.kept z (by simp))
    have hzrow : z ∈ f.row i := (hmem z).2 (.inl (by simp))
    have hz : f.line z = f.line i := hf.line_eq (List.mem_of_mem_take hzrow)
    have hz' : z ∉ init := by
      have := hnodup.of_append_left
      exact fun hz' => (List.nodup_append.1 this).2.2 z hz' z (by simp) rfl
    have hplace : r.place + 1 = (init ++ [z]).length := by
      rw [h.place hr, Forest.place_of_mem_row hf hzrow, hsplit.row, List.idxOf_append_of_mem (by simp),
        List.idxOf_append_of_notMem hz']
      simp
    rw [Option.bind_some, hr]
    dsimp only
    rw [hplace]
    refine ⟨r.tree, fresh, hnumber _ _ rfl, ?_, ?_, hasked, hsplit.fresh, hline, hbefore, ?_⟩
    · exact (number_trees _ _ _ _).symm ▸ le_rfl
    · exact (number_trees _ _ _ _).symm ▸ h.tree hr
    · intro j s hs
      rw [h.same hs hr, hz]

/-- A node without a rank gets one with the row that it ends. -/
theorem rank_of_none (hi : o.ranks[i]? = none) :
    o.rank f i = ((o.numberRow (f.row i)).ranks[i]?.getD default, o.numberRow (f.row i)) := by
  have hrow : (((f.root? i).map fun t => t.preorder.map Tree.id).getD []).takeWhile (· != i) ++ [i] =
      f.row i := by
    rw [Forest.row_eq]
    unfold Forest.place Forest.line
    cases f.root? i with
    | none => simp
    | some r => simp [List.takeWhile_eq_take_findIdx_not, List.idxOf, Tree.ids, bne]
  unfold rank
  rw [hi]
  dsimp only
  rw [hrow]

/-- Asking for a rank keeps what has been found out, and it stays right. -/
theorem rank_isOf (hf : f.IsSound) (h : o.IsOf f) (i : NodeId) :
    (o.rank f i).2.IsOf f ∧ o.Within (o.rank f i).2 ∧ (o.rank f i).2.ranks[i]? = some (o.rank f i).1 := by
  cases hi : o.ranks[i]? with
  | some r =>
    have hrank : o.rank f i = (r, o) := by rw [rank, hi]
    rw [hrank]
    exact ⟨h, .refl o, hi⟩
  | none =>
    rw [rank_of_none hi]
    obtain ⟨t, new, hranks⟩ := ranks_numberRow hf h hi
    refine ⟨hranks.isOf h, hranks.within, ?_⟩
    rw [hranks.ranks, if_pos hranks.asked]
    rfl

end DocumentOrder

namespace Rank
variable {a b d : Rank}

theorem compare_eq_lt : a.compare b = .lt ↔ a.tree < b.tree ∨ a.tree = b.tree ∧ a.place < b.place := by
  simp [compare, Ordering.then_eq_lt, Nat.compare_eq_lt]

theorem compare_eq_gt : a.compare b = .gt ↔ b.tree < a.tree ∨ a.tree = b.tree ∧ b.place < a.place := by
  simp [compare, Ordering.then_eq_gt, Nat.compare_eq_gt]

/-- One rank does not come after another. -/
def le (a b : Rank) : Bool := a.compare b != .gt

theorem le_iff : a.le b ↔ a.tree < b.tree ∨ a.tree = b.tree ∧ a.place ≤ b.place := by
  rw [le, bne_iff_ne, ne_eq, compare_eq_gt]
  omega

theorem le_trans (h : a.le b) (h' : b.le d) : a.le d := by
  rw [le_iff] at *
  omega

theorem le_total (a b : Rank) : a.le b || b.le a := by
  simp only [Bool.or_eq_true, le_iff]
  omega

theorem eq_of_le (h : a.le b) (h' : b.le a) : a = b := by
  rw [le_iff] at h h'
  have htree : a.tree = b.tree := by omega
  have hplace : a.place = b.place := by omega
  cases a
  cases b
  simp_all

theorem lt_of_le_of_ne (h : a.le b) (hne : a ≠ b) : a.compare b = .lt := by
  by_contra hnot
  rw [compare_eq_lt] at hnot
  exact hne (eq_of_le h (le_iff.2 (by omega)))

end Rank

namespace Forest
variable {f : Forest} {τ : NodeId → ℕ} {i j : NodeId}

/-- The rank of a node, given numbers for the trees by their first nodes. -/
def rankBy (f : Forest) (τ : NodeId → ℕ) (i : NodeId) : Rank := ⟨τ ((f.line i).headD i), f.place i⟩

/-- A node comes before another one in document order. -/
def Before (f : Forest) (τ : NodeId → ℕ) (i j : NodeId) : Prop :=
  (f.rankBy τ i).compare (f.rankBy τ j) = .lt

theorem head_mem_line (f : Forest) (i : NodeId) : (f.line i).headD i ∈ f.line i := by
  have := f.mem_line i
  cases h : f.line i with
  | nil => simp [h] at this
  | cons j js => simp

theorem IsSound.line_eq_of_head (h : f.IsSound) (heq : (f.line i).headD i = (f.line j).headD j) :
    f.line i = f.line j := by
  rw [← h.line_eq (f.head_mem_line i), heq, h.line_eq (f.head_mem_line j)]

/-- Where the trees have different numbers, nodes have different ranks. -/
theorem IsSound.eq_of_rankBy (h : f.IsSound) (hτ : τ.Injective) (heq : f.rankBy τ i = f.rankBy τ j) :
    i = j := by
  obtain ⟨htree, hplace⟩ := Rank.mk.injEq .. ▸ heq
  exact eq_of_place (h.line_eq_of_head (hτ htree)) hplace

/-- Nodes by their ranks. -/
def arranged (f : Forest) (τ : NodeId → ℕ) (is : List NodeId) : List NodeId :=
  is.mergeSort fun i j => (f.rankBy τ i).le (f.rankBy τ j)

/-- Nodes by their ranks, each once. -/
def sorted (f : Forest) (τ : NodeId → ℕ) (is : List NodeId) : List NodeId :=
  DocumentOrder.dropRepeats (f.arranged τ is)

theorem pairwise_arranged (f : Forest) (τ : NodeId → ℕ) (is : List NodeId) :
    (f.arranged τ is).Pairwise fun i j => (f.rankBy τ i).le (f.rankBy τ j) := by
  apply List.pairwise_mergeSort
  · exact fun _ _ _ => Rank.le_trans
  · exact fun _ _ => Rank.le_total _ _

theorem perm_arranged (f : Forest) (τ : NodeId → ℕ) (is : List NodeId) : (f.arranged τ is).Perm is :=
  List.mergeSort_perm is _

theorem arranged_of_pairwise {is : List NodeId}
    (h : is.Pairwise fun i j => (f.rankBy τ i).le (f.rankBy τ j)) : f.arranged τ is = is :=
  List.mergeSort_of_pairwise h

end Forest

namespace DocumentOrder
variable {f : Forest} {τ : NodeId → ℕ} {o o' : DocumentOrder} {i j : NodeId}

theorem mem_dropRepeats : {is : List NodeId} → (i ∈ dropRepeats is ↔ i ∈ is)
  | [] => Iff.rfl
  | [_] => Iff.rfl
  | j :: j' :: is => by
    rw [dropRepeats]
    split
    · next h =>
      subst h
      rw [mem_dropRepeats]
      simp
    · rw [List.mem_cons, mem_dropRepeats]
      exact List.mem_cons.symm

/-- In a list in order, repeats stand together. -/
theorem pairwise_dropRepeats (h : f.IsSound) (hτ : τ.Injective) : {is : List NodeId} →
    is.Pairwise (fun i j => (f.rankBy τ i).le (f.rankBy τ j)) → (dropRepeats is).Pairwise (f.Before τ)
  | [], _ => .nil
  | [_], _ => List.pairwise_singleton _ _
  | i :: j :: is, hpair => by
    obtain ⟨hi, his⟩ := List.pairwise_cons.1 hpair
    have ih := pairwise_dropRepeats h hτ his
    rw [dropRepeats]
    split
    · exact ih
    · next hne =>
      refine List.pairwise_cons.2 ⟨fun k hk => Rank.lt_of_le_of_ne (hi k (mem_dropRepeats.1 hk)) ?_, ih⟩
      intro heq
      obtain rfl := h.eq_of_rankBy hτ heq
      have hji := (hi j List.mem_cons_self)
      obtain rfl | hk := List.mem_cons.1 (mem_dropRepeats.1 hk)
      · exact hne rfl
      · exact hne (h.eq_of_rankBy hτ (Rank.eq_of_le hji ((List.pairwise_cons.1 his).1 i hk)))

/-- The ranks compare as the ranks by the numbers of the trees do. -/
def Agrees (f : Forest) (τ : NodeId → ℕ) (o : DocumentOrder) : Prop :=
  ∀ (i j : NodeId) (r s : Rank), o.ranks[i]? = some r → o.ranks[j]? = some s →
    r.compare s = (f.rankBy τ i).compare (f.rankBy τ j)

theorem Agrees.earlier (h : Agrees f τ o') (hw : o.Within o') : Agrees f τ o :=
  fun i j r s hr hs => h i j r s (hw i r hr) (hw j s hs)

/-- What has been found out about the order of trees can be completed. -/
theorem IsOf.exists_agrees (hf : f.IsSound) (h : o.IsOf f) : ∃ τ : NodeId → ℕ, τ.Injective ∧ Agrees f τ o := by
  classical
  let Numbers (n : NodeId) (r : Rank) : Prop := ∃ i : NodeId, o.ranks[i]? = some r ∧ (f.line i).headD i = n
  have hunique {m n : NodeId} {r s : Rank} (hr : Numbers m r) (hs : Numbers n s) : r.tree = s.tree ↔ m = n := by
    obtain ⟨i, hi, rfl⟩ := hr
    obtain ⟨j, hj, rfl⟩ := hs
    refine (h.same hi hj).trans ⟨fun heq => ?_, hf.line_eq_of_head⟩
    have := f.mem_line i
    cases hline : f.line i with
    | nil => simp [hline] at this
    | cons k ks => simp [← heq, hline]
  let τ (n : NodeId) : ℕ := if hn : ∃ r, Numbers n r then hn.choose.tree else o.trees + 1 + n
  have hτ {n : NodeId} {r : Rank} (hn : Numbers n r) : τ n = r.tree := by
    have hex : ∃ r, Numbers n r := ⟨r, hn⟩
    simp only [τ, dif_pos hex]
    exact (hunique hex.choose_spec hn).2 rfl
  have hfree {n : NodeId} (hn : ¬ ∃ r, Numbers n r) : τ n = o.trees + 1 + n := dif_neg hn
  have hlt {n : NodeId} (hn : ¬ ∃ r, Numbers n r) : o.trees < τ n := by
    rw [hfree hn]
    exact (Nat.lt_succ_self o.trees).trans_le (Nat.le_add_right _ _)
  have hle {n : NodeId} {r : Rank} (hn : Numbers n r) : τ n ≤ o.trees := hτ hn ▸ h.tree hn.choose_spec.1
  refine ⟨τ, fun m n heq => ?_, fun i j r s hr hs => ?_⟩
  · by_cases hm : ∃ r, Numbers m r <;> by_cases hn : ∃ r, Numbers n r
    · obtain ⟨r, hr⟩ := hm
      obtain ⟨s, hs⟩ := hn
      rw [hτ hr, hτ hs] at heq
      exact (hunique hr hs).1 heq
    · obtain ⟨r, hr⟩ := hm
      exact absurd (heq.symm.trans_le (hle hr)) (hlt hn).not_ge
    · obtain ⟨s, hs⟩ := hn
      exact absurd (heq.trans_le (hle hs)) (hlt hm).not_ge
    · rw [hfree hm, hfree hn] at heq
      exact Nat.add_left_cancel heq
  · have hrank {i : NodeId} {r : Rank} (hr : o.ranks[i]? = some r) : f.rankBy τ i = r := by
      rw [Forest.rankBy, hτ ⟨i, hr, rfl⟩, ← h.place hr]
    rw [hrank hr, hrank hs]

/-- What is found out keeps what has been found out, and is right. -/
structure Extends (f : Forest) (o o' : DocumentOrder) : Prop where
  isOf : o'.IsOf f
  within : o.Within o'

theorem Extends.trans {p : DocumentOrder} (h : Extends f o o') (h' : Extends f o' p) : Extends f o p :=
  ⟨h'.isOf, h.within.trans h'.within⟩

/-- Two nodes compare as they stand in document order. -/
theorem compare_spec (hf : f.IsSound) (h : o.IsOf f) (i j : NodeId) :
    Extends f o (o.compare f i j).2 ∧ (Agrees f τ (o.compare f i j).2 →
      (o.compare f i j).1 = (f.rankBy τ i).compare (f.rankBy τ j)) := by
  obtain ⟨h₁, hw₁, hr⟩ := rank_isOf hf h i
  obtain ⟨h₂, hw₂, hs⟩ := rank_isOf hf h₁ j
  exact ⟨⟨h₂, hw₁.trans hw₂⟩, fun hagrees => hagrees i j _ _ (hw₂ i _ hr) hs⟩

theorem rankAll_nodes (f : Forest) (is : List NodeId) (o : DocumentOrder) :
    (rankAll f is o).1.map (·.2) = is := by
  induction is generalizing o with
  | nil => rfl
  | cons i is ih => simp [rankAll, ih]

theorem rankAll_spec (hf : f.IsSound) (is : List NodeId) (h : o.IsOf f) :
    Extends f o (rankAll f is o).2 ∧ ∀ x ∈ (rankAll f is o).1, (rankAll f is o).2.ranks[x.2]? = some x.1 := by
  induction is generalizing o with
  | nil => exact ⟨⟨h, .refl o⟩, nofun⟩
  | cons i is ih =>
    obtain ⟨h₁, hw₁, hr⟩ := rank_isOf hf h i
    obtain ⟨hext, hall⟩ := ih h₁
    exact ⟨⟨hext.isOf, hw₁.trans hext.within⟩, List.forall_mem_cons.2 ⟨hext.within i _ hr, hall⟩⟩

theorem arrange_spec (hf : f.IsSound) (hτ : τ.Injective) (is : List NodeId) (h : o.IsOf f) :
    Extends f o (o.arrange f is).2 ∧
      (Agrees f τ (o.arrange f is).2 → (o.arrange f is).1 = f.arranged τ is) := by
  unfold arrange
  split
  · next hlen =>
    refine ⟨⟨h, .refl o⟩, fun _ => (Forest.arranged_of_pairwise ?_).symm⟩
    match is with
    | [] => exact .nil
    | [i] => exact List.pairwise_singleton _ i
    | i :: j :: is =>
      simp only [List.length_cons] at hlen
      omega
  · obtain ⟨hext, hall⟩ := rankAll_spec hf is h
    refine ⟨hext, fun hagrees => ?_⟩
    dsimp only at hagrees ⊢
    refine List.Perm.eq_of_pairwise (fun i j _ _ hij hji => hf.eq_of_rankBy hτ (Rank.eq_of_le hij hji))
      ?_ (f.pairwise_arranged τ is) ?_
    · rw [List.pairwise_map]
      have hpair : ((rankAll f is o).1.mergeSort fun a b => a.1.le b.1).Pairwise fun a b => a.1.le b.1 := by
        apply List.pairwise_mergeSort
        · exact fun _ _ _ => Rank.le_trans
        · exact fun _ _ => Rank.le_total _ _
      refine hpair.imp_of_mem fun {a b} ha hb hle => ?_
      have hcompare := hagrees a.2 b.2 a.1 b.1 (hall a (List.mem_mergeSort.1 ha)) (hall b (List.mem_mergeSort.1 hb))
      rw [Rank.le, ← hcompare]
      exact hle
    · refine (((rankAll f is o).1.mergeSort_perm _).map (·.2)).trans ?_
      rw [rankAll_nodes]
      exact (f.perm_arranged τ is).symm

/-- Sorting gives the nodes as they stand in document order, each once. -/
theorem sort_spec (hf : f.IsSound) (hτ : τ.Injective) (is : List NodeId) (h : o.IsOf f) :
    Extends f o (o.sort f is).2 ∧ (Agrees f τ (o.sort f is).2 → (o.sort f is).1 = f.sorted τ is) := by
  obtain ⟨hext, harranged⟩ := arrange_spec (τ := τ) hf hτ is h
  exact ⟨hext, fun hagrees => congrArg dropRepeats (harranged hagrees)⟩

end DocumentOrder

namespace Forest
variable {f : Forest} {τ : NodeId → ℕ} {i j : NodeId} {is : List NodeId}

@[simp] theorem mem_arranged : i ∈ f.arranged τ is ↔ i ∈ is := (f.perm_arranged τ is).mem_iff

@[simp] theorem mem_sorted : i ∈ f.sorted τ is ↔ i ∈ is :=
  DocumentOrder.mem_dropRepeats.trans mem_arranged

theorem pairwise_sorted (h : f.IsSound) (hτ : τ.Injective) (is : List NodeId) :
    (f.sorted τ is).Pairwise (f.Before τ) :=
  DocumentOrder.pairwise_dropRepeats h hτ (f.pairwise_arranged τ is)

end Forest
end XPath
