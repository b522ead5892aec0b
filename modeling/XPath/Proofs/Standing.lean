import XPath.Evaluation.Meaning
import XPath.Proofs.Ranks
import XPath.Proofs.Regime

/-!
What a document order answers in the course of time. Trees are numbered as they are first asked about, so
that the answers to any questions, asked one after the other, are those of one fixed order of the nodes.
-/
namespace XPath

namespace Forest
variable {f : Forest} {asked : List NodeId} {i j : NodeId}

/-- The tree of a node has been asked about. -/
def IsAsked (f : Forest) (asked : List NodeId) (i : NodeId) : Prop := ∃ x ∈ asked, x ∈ f.line i

/-- How many nodes were asked about before the first one of this node's tree. -/
def firstAsked (f : Forest) (asked : List NodeId) (i : NodeId) : ℕ := asked.findIdx (· ∈ f.line i)

/-- Where a node stands, given the nodes that were asked about: by its tree, and by its place there. -/
def standing (f : Forest) (asked : List NodeId) (i : NodeId) : Rank := ⟨f.firstAsked asked i, f.place i⟩

/-- A node stands before another one. -/
def Precedes (f : Forest) (asked : List NodeId) (i j : NodeId) : Prop :=
  (f.standing asked i).compare (f.standing asked j) = .lt

instance : Decidable (f.Precedes asked i j) :=
  inferInstanceAs (Decidable ((f.standing asked i).compare (f.standing asked j) = .lt))

theorem isAsked_of_mem (h : i ∈ asked) : f.IsAsked asked i := ⟨i, h, f.mem_line i⟩

theorem IsAsked.append (h : f.IsAsked asked i) (more : List NodeId) : f.IsAsked (asked ++ more) i := by
  obtain ⟨x, hx, hline⟩ := h
  exact ⟨x, List.mem_append_left more hx, hline⟩

theorem firstAsked_lt (h : f.IsAsked asked i) : f.firstAsked asked i < asked.length :=
  List.findIdx_lt_length.2 (by simpa [IsAsked] using h)

/-- What is asked later does not count for a tree that has been asked about. -/
theorem firstAsked_append (h : f.IsAsked asked i) (more : List NodeId) :
    f.firstAsked (asked ++ more) i = f.firstAsked asked i := by
  have hlt : asked.findIdx (decide <| · ∈ f.line i) < asked.length := firstAsked_lt h
  unfold firstAsked
  rw [List.findIdx_append, if_pos hlt]

theorem firstAsked_concat (h : ¬ f.IsAsked asked i) : f.firstAsked (asked ++ [i]) i = asked.length := by
  have hall : ∀ x ∈ asked, decide (x ∈ f.line i) = false := fun x hx =>
    decide_eq_false fun hi => h ⟨x, hx, hi⟩
  unfold firstAsked
  rw [List.findIdx_append, List.findIdx_eq_length.2 hall, if_neg (lt_irrefl _), List.findIdx_cons,
    decide_eq_true (f.mem_line i), cond_true, Nat.zero_add]

theorem firstAsked_eq (h : f.line i = f.line j) : f.firstAsked asked i = f.firstAsked asked j := by
  rw [firstAsked, firstAsked, h]

theorem exists_firstAsked (h : f.firstAsked asked i < asked.length) :
    ∃ x, asked[f.firstAsked asked i]? = some x ∧ x ∈ f.line i :=
  ⟨_, List.getElem?_eq_getElem h, of_decide_eq_true (List.findIdx_getElem (w := h))⟩

/-- Trees that were asked about differ in when that was. -/
theorem IsSound.line_eq_of_firstAsked (hf : f.IsSound) (hi : f.IsAsked asked i)
    (h : f.firstAsked asked i = f.firstAsked asked j) : f.line i = f.line j := by
  obtain ⟨x, hx, hxi⟩ := exists_firstAsked (firstAsked_lt hi)
  obtain ⟨y, hy, hyj⟩ := exists_firstAsked (h ▸ firstAsked_lt hi)
  obtain rfl : x = y := Option.some.inj (hx.symm.trans (h ▸ hy))
  rw [← hf.line_eq hxi, hf.line_eq hyj]

theorem IsSound.eq_of_standing (hf : f.IsSound) (hi : f.IsAsked asked i)
    (h : f.standing asked i = f.standing asked j) : i = j := by
  obtain ⟨htree, hplace⟩ := Rank.mk.injEq .. ▸ h
  exact eq_of_place (hf.line_eq_of_firstAsked hi htree) hplace

end Forest

namespace Rank
variable {a b a' b' : Rank}

/-- Only the order of the trees counts, not their numbers. -/
theorem compare_congr (hlt : a.tree < b.tree ↔ a'.tree < b'.tree) (hgt : b.tree < a.tree ↔ b'.tree < a'.tree)
    (ha : a.place = a'.place) (hb : b.place = b'.place) : a.compare b = a'.compare b' := by
  unfold compare
  rw [ha, hb]
  congr 1
  obtain h | h | h := lt_trichotomy a.tree b.tree
  · rw [compare_lt_iff_lt.2 h, compare_lt_iff_lt.2 (hlt.1 h)]
  · have h' : a'.tree = b'.tree := by omega
    rw [compare_eq_iff_eq.2 h, compare_eq_iff_eq.2 h']
  · rw [compare_gt_iff_gt.2 h, compare_gt_iff_gt.2 (hgt.1 h)]

theorem compare_eq_eq : a.compare b = .eq ↔ a = b := by
  rw [compare, Ordering.then_eq_eq, compare_eq_iff_eq, compare_eq_iff_eq]
  cases a
  cases b
  simp

theorem compare_asymm (h : a.compare b = .lt) (h' : b.compare a = .lt) : False := by
  rw [compare_eq_lt] at h h'
  omega

end Rank

namespace DocumentOrder
open Forest
variable {f : Forest} {o : DocumentOrder} {asked : List NodeId} {i j : NodeId} {r s : Rank}

/-- Asking for a rank gives ranks to nodes of one tree only. -/
theorem line_of_rank (hf : f.IsSound) (h : o.IsOf f) (hr : (o.rank f i).2.ranks[j]? = some r) :
    o.ranks[j]? = some r ∨ f.line j = f.line i := by
  cases hi : o.ranks[i]? with
  | some _ =>
    rw [rank, hi] at hr
    exact .inl hr
  | none =>
    rw [rank_of_none hi] at hr
    obtain ⟨t, new, hranks⟩ := ranks_numberRow hf h hi
    rw [hranks.ranks] at hr
    split at hr
    · next hj => exact .inr (hranks.line j hj)
    · exact .inl hr

/-- The first node of a tree that is asked about makes the tree the last one. -/
theorem tree_of_first (hf : f.IsSound) (h : o.IsOf f) (hi : ∀ x ∈ f.line i, o.ranks[x]? = none) :
    (o.rank f i).1.tree = o.trees + 1 := by
  obtain ⟨kept, fresh, hsplit⟩ := exists_splits (i := i) hf h
  obtain rfl : kept = [] := by
    refine List.eq_nil_iff_forall_not_mem.2 fun x hx => ?_
    have hx' : x ∈ f.row i := hsplit.row ▸ List.mem_append_left fresh hx
    simpa [hi x ((mem_row hf).1 hx').1] using hsplit.kept x hx
  have hrow : f.row i = fresh := hsplit.row
  have hmem : i ∈ fresh := hrow ▸ (mem_row hf).2 ⟨f.mem_line i, le_rfl⟩
  have hnodup : fresh.Nodup := hrow ▸ (hf.nodup_line i).sublist (List.take_sublist _ _)
  have hnumbered : o.numberRow (f.row i) = { o with trees := o.trees + 1 }.number (o.trees + 1) 0 fresh :=
    hsplit.numbered
  rw [rank_of_none (hi i (f.mem_line i)), hnumbered, number_ranks _ _ _ hnodup, if_pos hmem]
  rfl

/-- What has been found out by asking about these nodes: the trees are numbered as they were asked about. -/
structure Follows (f : Forest) (asked : List NodeId) (o : DocumentOrder) : Prop where
  isOf : o.IsOf f
  ranked : ∀ i ∈ asked, (o.ranks[i]?).isSome
  seen : ∀ {i : NodeId} {r : Rank}, o.ranks[i]? = some r → f.IsAsked asked i
  tree : ∀ {i j : NodeId} {r s : Rank}, o.ranks[i]? = some r → o.ranks[j]? = some s →
    (r.tree < s.tree ↔ f.firstAsked asked i < f.firstAsked asked j)

theorem follows_empty (f : Forest) : Follows f [] {} where
  isOf := isOf_empty f
  ranked := nofun
  seen hr := by simp at hr
  tree hr := by simp at hr

/-- The number of a node's tree after one more question: it is the number that the tree had before, or the
next one. -/
inductive Numbered (f : Forest) (asked : List NodeId) (o : DocumentOrder) (i j : NodeId) (r : Rank) : Prop where
  | old {k s} : o.ranks[k]? = some s → r.tree = s.tree →
    f.firstAsked (asked ++ [i]) j = f.firstAsked asked k → Numbered f asked o i j r
  | new : ¬ f.IsAsked asked i → r.tree = o.trees + 1 → f.firstAsked (asked ++ [i]) j = asked.length →
    Numbered f asked o i j r

namespace Follows

theorem numbered (hf : f.IsSound) (h : Follows f asked o) (hr : (o.rank f i).2.ranks[j]? = some r) :
    Numbered f asked o i j r := by
  obtain ⟨hisOf, hwithin, hrank⟩ := rank_isOf hf h.isOf i
  obtain hold | hline := line_of_rank hf h.isOf hr
  · exact .old hold rfl (firstAsked_append (h.seen hold) [i])
  · have hsame := (hisOf.same hr hrank).2 hline
    by_cases hi : f.IsAsked asked i
    · obtain ⟨k, hk, hki⟩ := hi
      obtain ⟨s, hs⟩ := Option.isSome_iff_exists.1 (h.ranked k hk)
      have hkj : f.line k = f.line j := (hf.line_eq hki).trans hline.symm
      have hj : f.IsAsked asked j := ⟨k, hk, hline ▸ hki⟩
      refine .old hs ((hisOf.same hr (hwithin k s hs)).2 hkj.symm) ?_
      rw [firstAsked_append hj, firstAsked_eq hkj]
    · refine .new hi (hsame.trans (tree_of_first hf h.isOf fun x hx => ?_)) ?_
      · -- A node that has a rank shows that its tree has been asked about.
        refine Option.eq_none_iff_forall_not_mem.2 fun s hs => hi ?_
        obtain ⟨k, hk, hkx⟩ := h.seen hs
        exact ⟨k, hk, hf.line_eq hx ▸ hkx⟩
      · rw [firstAsked_eq hline, firstAsked_concat hi]

/-- One more question goes on with the numbering. -/
theorem rank (hf : f.IsSound) (h : Follows f asked o) (i : NodeId) :
    Follows f (asked ++ [i]) (o.rank f i).2 := by
  obtain ⟨hisOf, hwithin, hrank⟩ := rank_isOf hf h.isOf i
  refine ⟨hisOf, fun j hj => ?_, fun {j r} hr => ?_, fun {j k r s} hr hs => ?_⟩
  · obtain hj | hj := List.mem_append.1 hj
    · obtain ⟨s, hs⟩ := Option.isSome_iff_exists.1 (h.ranked j hj)
      rw [hwithin j s hs]
      rfl
    · rw [List.mem_singleton.1 hj, hrank]
      rfl
  · obtain hold | hline := line_of_rank hf h.isOf hr
    · exact (h.seen hold).append [i]
    · exact ⟨i, by simp, hline ▸ f.mem_line i⟩
  · -- A number from before is at most `o.trees`, and its tree was asked about before.
    have hbefore {x : NodeId} {t : Rank} (ht : o.ranks[x]? = some t) :
        t.tree ≤ o.trees ∧ f.firstAsked asked x < asked.length :=
      ⟨h.isOf.tree ht, firstAsked_lt (h.seen ht)⟩
    cases h.numbered hf hr with
    | old hx hxt hxf =>
      cases h.numbered hf hs with
      | old hy hyt hyf => rw [hxt, hyt, hxf, hyf, h.tree hx hy]
      | new _ hyt hyf =>
        have := hbefore hx
        omega
    | new hi hxt hxf =>
      cases h.numbered hf hs with
      | old hy hyt hyf =>
        have := hbefore hy
        omega
      | new _ hyt hyf => omega

/-- The ranks of nodes that were asked about compare as the nodes stand. -/
theorem compare_eq (h : Follows f asked o) (hr : o.ranks[i]? = some r) (hs : o.ranks[j]? = some s) :
    r.compare s = (f.standing asked i).compare (f.standing asked j) :=
  Rank.compare_congr (h.tree hr hs) (h.tree hs hr) (h.isOf.place hr) (h.isOf.place hs)

end Follows

/-- What a document order can be asked. -/
inductive Question where
  | compare (i j : NodeId)
  | sort (is : List NodeId)
  deriving DecidableEq, Repr

inductive Answer where
  | ordering (c : Ordering)
  | nodes (is : List NodeId)
  deriving DecidableEq, Repr

namespace Question

def ask (f : Forest) : Question → DocumentOrder → Answer × DocumentOrder
  | compare i j, o => ((o.compare f i j).map Answer.ordering id)
  | sort is, o => ((o.sort f is).map Answer.nodes id)

/-- The nodes that are asked about, the first one first. Less than two nodes are in order as they are. -/
def about : Question → List NodeId
  | compare i j => [i, j]
  | sort is => if is.length < 2 then [] else is

theorem about_sort (is : List NodeId) : (sort is).about = if is.length < 2 then [] else is := rfl

/-- The answer by given numbers for the trees. -/
def answer (f : Forest) (τ : NodeId → ℕ) : Question → Answer
  | compare i j => .ordering ((f.rankBy τ i).compare (f.rankBy τ j))
  | sort is => .nodes (f.sorted τ is)

/-- What an answer should be, given all the nodes that are asked about. -/
inductive IsAnswered (f : Forest) (asked : List NodeId) : Question → Answer → Prop where
  | compare (i j : NodeId) :
    IsAnswered f asked (compare i j) (.ordering ((f.standing asked i).compare (f.standing asked j)))
  | sort {is js : List NodeId} : js.Pairwise (f.Precedes asked) → (∀ i, i ∈ js ↔ i ∈ is) →
    IsAnswered f asked (sort is) (.nodes js)

theorem IsAnswered.pairwise {f : Forest} {asked is js : List NodeId}
    (h : IsAnswered f asked (.sort is) (.nodes js)) : js.Pairwise (f.Precedes asked) := by
  cases h with
  | sort hjs _ => exact hjs

end Question

/-- Asks one question after the other. -/
def askAll (f : Forest) : List Question → DocumentOrder → List Answer × DocumentOrder
  | [], o => ([], o)
  | q :: qs, o =>
    let (a, o) := q.ask f o
    let (as, o) := askAll f qs o
    (a :: as, o)

/-- All nodes that are asked about. -/
def askedBy (qs : List Question) : List NodeId := qs.flatMap Question.about

variable {τ : NodeId → ℕ} {qs : List Question}

theorem askAll_append (f : Forest) (qs qs' : List Question) (o : DocumentOrder) :
    (askAll f (qs ++ qs') o).2 = (askAll f qs' (askAll f qs o).2).2 := by
  induction qs generalizing o with
  | nil => rfl
  | cons q qs ih => exact ih (q.ask f o).2

theorem ask_spec (hf : f.IsSound) (hτ : τ.Injective) (h : o.IsOf f) (q : Question) :
    Extends f o (q.ask f o).2 ∧ (Agrees f τ (q.ask f o).2 → (q.ask f o).1 = q.answer f τ) := by
  cases q with
  | compare i j =>
    obtain ⟨hext, hcompare⟩ := compare_spec (τ := τ) hf h i j
    exact ⟨hext, fun hagrees => congrArg Answer.ordering (hcompare hagrees)⟩
  | sort is =>
    obtain ⟨hext, hsort⟩ := sort_spec (τ := τ) hf hτ is h
    exact ⟨hext, fun hagrees => congrArg Answer.nodes (hsort hagrees)⟩

theorem askAll_spec (hf : f.IsSound) (hτ : τ.Injective) (qs : List Question) (h : o.IsOf f) :
    Extends f o (askAll f qs o).2 ∧
      (Agrees f τ (askAll f qs o).2 → (askAll f qs o).1 = qs.map (·.answer f τ)) := by
  induction qs generalizing o with
  | nil => exact ⟨⟨h, .refl o⟩, fun _ => rfl⟩
  | cons q qs ih =>
    obtain ⟨hext, hfirst⟩ := ask_spec (τ := τ) hf hτ h q
    obtain ⟨hext', hrest⟩ := ih hext.isOf
    refine ⟨hext.trans hext', fun hagrees => ?_⟩
    rw [List.map_cons, ← hfirst (hagrees.earlier hext'.within), ← hrest hagrees]
    rfl

namespace Follows

theorem rankAll (hf : f.IsSound) (is : List NodeId) (h : Follows f asked o) :
    Follows f (asked ++ is) (rankAll f is o).2 := by
  induction is generalizing asked o with
  | nil => rwa [List.append_nil]
  | cons i is ih =>
    have hrest := ih (h.rank hf i)
    rwa [List.append_assoc] at hrest

theorem ask (hf : f.IsSound) (h : Follows f asked o) (q : Question) :
    Follows f (asked ++ q.about) (q.ask f o).2 := by
  cases q with
  | compare i j => exact h.rankAll hf [i, j]
  | sort is =>
    change Follows f _ (arrange f is o).2
    rw [Question.about_sort, arrange]
    split
    · rwa [List.append_nil]
    · exact h.rankAll hf is

theorem askAll (hf : f.IsSound) (qs : List Question) (h : Follows f asked o) :
    Follows f (asked ++ askedBy qs) (askAll f qs o).2 := by
  induction qs generalizing asked o with
  | nil => exact (List.append_nil asked).symm ▸ h
  | cons q qs ih =>
    have hrest := ih (h.ask hf q)
    rwa [List.append_assoc] at hrest

theorem before_iff (h : Follows f asked o) (hagrees : Agrees f τ o) (hi : i ∈ asked) (hj : j ∈ asked) :
    f.Before τ i j ↔ f.Precedes asked i j := by
  obtain ⟨r, hr⟩ := Option.isSome_iff_exists.1 (h.ranked i hi)
  obtain ⟨s, hs⟩ := Option.isSome_iff_exists.1 (h.ranked j hj)
  rw [Before, Precedes, ← hagrees i j r s hr hs, h.compare_eq hr hs]

/-- Sorted nodes stand one before the other, also if they were asked about for other reasons only. -/
theorem pairwise_sorted (hf : f.IsSound) (hτ : τ.Injective) (h : Follows f asked o) (hagrees : Agrees f τ o)
    {is : List NodeId} (his : ∀ i ∈ (Question.sort is).about, i ∈ asked) :
    (f.sorted τ is).Pairwise (f.Precedes asked) := by
  refine (Forest.pairwise_sorted hf hτ is).imp_of_mem fun {i j} hi hj hij => ?_
  have hi' := mem_sorted.1 hi
  have hj' := mem_sorted.1 hj
  rw [Question.about_sort] at his
  split at his
  · next hlen =>
    -- A single node does not come before itself.
    obtain rfl : i = j := by
      match is, hlen with
      | [k], _ => rw [List.mem_singleton.1 hi', List.mem_singleton.1 hj']
    exact absurd hij (fun hlt => Rank.compare_asymm hlt hlt)
  · exact (h.before_iff hagrees (his i hi') (his j hj')).1 hij

theorem isAnswered (hf : f.IsSound) (hτ : τ.Injective) (h : Follows f asked o) (hagrees : Agrees f τ o)
    (q : Question) (hq : ∀ i ∈ q.about, i ∈ asked) : q.IsAnswered f asked (q.answer f τ) := by
  cases q with
  | compare i j =>
    obtain ⟨r, hr⟩ := Option.isSome_iff_exists.1 (h.ranked i (hq i (by simp [Question.about])))
    obtain ⟨s, hs⟩ := Option.isSome_iff_exists.1 (h.ranked j (hq j (by simp [Question.about])))
    rw [Question.answer, ← hagrees i j r s hr hs, h.compare_eq hr hs]
    exact .compare i j
  | sort is => exact .sort (h.pairwise_sorted hf hτ hagrees hq) fun i => mem_sorted

end Follows

theorem mem_askedBy {q : Question} (hq : q ∈ qs) : ∀ i ∈ q.about, i ∈ askedBy qs :=
  fun _ hi => List.mem_flatMap.2 ⟨q, hq, hi⟩

/-- All answers are those of one order of the nodes, and they are as they should be. -/
theorem exists_answers (hf : f.IsSound) (qs : List Question) : ∃ τ : NodeId → ℕ, τ.Injective ∧
    Agrees f τ (askAll f qs {}).2 ∧ (askAll f qs {}).1 = qs.map (·.answer f τ) ∧
    ∀ q ∈ qs, q.IsAnswered f (askedBy qs) (q.answer f τ) := by
  have hfollows : Follows f (askedBy qs) (askAll f qs {}).2 := (follows_empty f).askAll hf qs
  obtain ⟨τ, hτ, hagrees⟩ := hfollows.isOf.exists_agrees hf
  exact ⟨τ, hτ, hagrees, (askAll_spec hf hτ qs (isOf_empty f)).2 hagrees,
    fun q hq => hfollows.isAnswered hf hτ hagrees q (mem_askedBy hq)⟩

end DocumentOrder

/-! Places in a tree. -/

/-- The place of a role among the parts of a node. -/
def Content.Role.rank : Content.Role → ℕ
  | .namespaceNode => 0
  | .attributeNode => 1
  | .ordinary => 2

namespace Tree

/-- In a list without repeats places go up. -/
theorem pairwise_idxOf {is : List NodeId} (h : is.Nodup) : is.Pairwise fun i j => is.idxOf i < is.idxOf j := by
  refine List.pairwise_iff_getElem.2 fun m n hm hn hlt => ?_
  rwa [h.idxOf_getElem, h.idxOf_getElem]

theorem preorder_sublist (t : Tree) {u : Tree} (hu : u ∈ t.preorder) : u.preorder.Sublist t.preorder := by
  match t with
  | .node i c ts =>
    obtain rfl | ⟨p, hp, hup⟩ := mem_preorder_iff.1 hu
    · exact .refl _
    · have hts : p.preorder.Sublist (ts.flatMap preorder) := by
        have hsub := (List.singleton_sublist.2 hp).flatMap preorder
        rwa [List.flatMap_singleton] at hsub
      rw [preorder_eq (.node i c ts)]
      exact ((preorder_sublist p hup).trans hts).cons _
termination_by sizeOf t
decreasing_by
  have := List.sizeOf_lt_of_mem (show p ∈ ts from hp)
  simp only [node.sizeOf_spec]
  omega

/-- Namespaces stand before attributes, and these before children. -/
def IsByRole (t : Tree) : Prop :=
  t.parts.Pairwise fun u v => u.content.role.rank ≤ v.content.role.rank

/-- Two parts stand in the order of their roles. -/
theorem IsByRole.sublist {t u v : Tree} (h : t.IsByRole) (hu : u ∈ t.parts) (hv : v ∈ t.parts)
    (hlt : u.content.role.rank < v.content.role.rank) : [u, v].Sublist t.parts := by
  obtain ⟨ps, qs, hparts⟩ := List.append_of_mem hu
  unfold IsByRole at h
  rw [hparts] at h hv ⊢
  obtain hps | hqs := List.mem_append.1 hv
  · have := (List.pairwise_append.1 h).2.2 v hps u List.mem_cons_self
    omega
  · obtain rfl | hqs := List.mem_cons.1 hqs
    · omega
    · exact ((List.singleton_sublist.2 hqs).cons_cons u).trans (List.sublist_append_right ps _)

theorem ids_sublist_of_parts {t u v : Tree} (h : [u, v].Sublist t.parts) : [t.id, u.id, v.id].Sublist t.ids := by
  rw [ids_eq, idsOf_eq]
  refine List.Sublist.cons_cons t.id (.trans ?_ (h.flatMap ids))
  rw [List.flatMap_cons, List.flatMap_singleton, ids_eq u, ids_eq v]
  exact .cons_cons u.id (.trans (.cons_cons v.id (List.nil_sublist _)) (List.sublist_append_right _ _))

end Tree

namespace Forest.IsSound
open XPath.Tree
variable {f : Forest} {i j : NodeId} {r s t u v : Tree} {asked : List NodeId}

theorem line_of_mem (hf : f.IsSound) (hr : r ∈ f.trees) (hi : i ∈ r.ids) : f.line i = r.ids := by
  simp [line, hf.root?_eq hr hi]

/-- A node comes before the nodes below it, its namespaces before its attributes, and these before its
children. -/
theorem place_of_parts (hf : f.IsSound) (ht : t ∈ f.nodes) (h : t.IsByRole) (hu : u ∈ t.parts)
    (hv : v ∈ t.parts) (hlt : u.content.role.rank < v.content.role.rank) :
    f.place t.id < f.place u.id ∧ f.place u.id < f.place v.id := by
  obtain ⟨r, hr, htr⟩ := mem_preorderList.1 ht
  have hsub : [t.id, u.id, v.id].Sublist r.ids :=
    (ids_sublist_of_parts (h.sublist hu hv hlt)).trans ((r.preorder_sublist htr).map Tree.id)
  have hmem : ∀ x ∈ [t.id, u.id, v.id], f.place x = r.ids.idxOf x := fun x hx => by
    rw [place, hf.line_of_mem hr (hsub.subset hx)]
  have hplaces := (pairwise_idxOf (hf.nodup_ids hr)).sublist hsub
  rw [hmem t.id (by simp), hmem u.id (by simp), hmem v.id (by simp)]
  simp only [List.pairwise_cons, List.mem_cons, forall_eq_or_imp] at hplaces
  exact ⟨hplaces.1.1, hplaces.2.1.1⟩

/-- Nodes of one tree compare as they come in it. -/
theorem compare_of_same (hf : f.IsSound) (hr : r ∈ f.trees) (hi : i ∈ r.ids) (hj : j ∈ r.ids) :
    (f.standing asked i).compare (f.standing asked j) = compare (r.ids.idxOf i) (r.ids.idxOf j) := by
  have hline : f.line i = f.line j := (hf.line_of_mem hr hi).trans (hf.line_of_mem hr hj).symm
  unfold standing
  rw [firstAsked_eq hline, place, place, hf.line_of_mem hr hi, hf.line_of_mem hr hj]
  simp [Rank.compare]

/-- Nodes of different trees compare as their trees were first asked about. -/
theorem compare_of_ne (hf : f.IsSound) (hr : r ∈ f.trees) (hs : s ∈ f.trees) (hne : r ≠ s) (hi : i ∈ r.ids)
    (hj : j ∈ s.ids) (hasked : i ∈ asked) : (f.standing asked i).compare (f.standing asked j) =
      compare (asked.findIdx (· ∈ r.ids)) (asked.findIdx (· ∈ s.ids)) := by
  have hother : f.firstAsked asked i ≠ f.firstAsked asked j := by
    intro heq
    have hline := hf.line_eq_of_firstAsked (isAsked_of_mem hasked) heq
    have hj' : j ∈ r.ids := by
      rw [← hf.line_of_mem hr hi, hline]
      exact f.mem_line j
    exact hne (Option.some.inj ((hf.root?_eq hr hj').symm.trans (hf.root?_eq hs hj)))
  have hfirst {k : NodeId} {t : Tree} (ht : t ∈ f.trees) (hk : k ∈ t.ids) :
      f.firstAsked asked k = asked.findIdx (· ∈ t.ids) := by
    rw [firstAsked, hf.line_of_mem ht hk]
  rw [← hfirst hr hi, ← hfirst hs hj, Rank.compare]
  cases hc : compare (f.firstAsked asked i) (f.firstAsked asked j) with
  | lt => simp [standing, hc]
  | eq => exact absurd (compare_eq_iff_eq.1 hc) hother
  | gt => simp [standing, hc]

end Forest.IsSound

namespace Forest
variable {f : Forest} {asked : List NodeId}

/-- The nodes that were asked about are in a strict total order, in which a node stands by its place in its
tree, and a tree by when it was first asked about. -/
structure IsOrdered (f : Forest) (asked : List NodeId) : Prop where
  irrefl : ∀ i : NodeId, ¬ f.Precedes asked i i
  trans : ∀ i j k : NodeId, f.Precedes asked i j → f.Precedes asked j k → f.Precedes asked i k
  total : ∀ i ∈ asked, ∀ j ∈ asked, i ≠ j → f.Precedes asked i j ∨ f.Precedes asked j i
  within : ∀ r ∈ f.trees, ∀ i ∈ r.ids, ∀ j ∈ r.ids,
    (f.standing asked i).compare (f.standing asked j) = compare (r.ids.idxOf i) (r.ids.idxOf j)
  between : ∀ r ∈ f.trees, ∀ s ∈ f.trees, r ≠ s → ∀ i ∈ asked, i ∈ r.ids → ∀ j ∈ s.ids,
    (f.standing asked i).compare (f.standing asked j) =
      compare (asked.findIdx (· ∈ r.ids)) (asked.findIdx (· ∈ s.ids))

theorem IsSound.isOrdered (hf : f.IsSound) (asked : List NodeId) : f.IsOrdered asked where
  irrefl _ h := Rank.compare_asymm h h
  trans i j k hij hjk := by
    unfold Precedes at *
    rw [Rank.compare_eq_lt] at *
    omega
  total i hi j _ hne := by
    cases hc : (f.standing asked i).compare (f.standing asked j) with
    | lt => exact .inl hc
    | eq => exact absurd (hf.eq_of_standing (isAsked_of_mem hi) (Rank.compare_eq_eq.1 hc)) hne
    | gt => exact .inr (Rank.compare_eq_lt.2 ((Rank.compare_eq_gt.1 hc).imp_right (·.imp_left Eq.symm)))
  within _ hr _ hi _ hj := hf.compare_of_same hr hi hj
  between _ hr _ hs hne _ hasked hi _ hj := hf.compare_of_ne hr hs hne hi hj hasked

end Forest

/-! Sets of nodes. -/

/-- Which nodes an operation takes, given whether they are on the left and on the right. -/
def SetOp.Takes : SetOp → Prop → Prop → Prop
  | union, p, q => p ∨ q
  | intersect, p, q => p ∧ q
  | except, p, q => p ∧ ¬ q

/-- The nodes of an operand, before they are sorted. -/
def Ways.gather (a : Ways) (f : Frame) : Eval (List NodeId) :=
  ((a.items f).mapM fun x => Eval.require .typeMismatch x.node?).toList

/-- The world after some nodes have been sorted. -/
def World.sorting (w : World) (is : List NodeId) : World := { w with order := (w.order.sort w.forest is).2 }

theorem Ways.perform_nodes {a : Ways} {f : Frame} {is : List NodeId} {w w' : World}
    (h : (a.gather f).perform w = (.ok is, w')) :
    (a.nodes f).perform w = (.ok (w'.order.sort w'.forest is).1, w'.sorting is) := by
  change (a.gather f >>= fun is => Eval.ordering fun t o => o.sort t is).perform w = _
  rw [Regime.perform_bind, h]
  rfl

open DocumentOrder

/-- From one world to the other the trees stay, and these questions are asked about them. -/
structure World.Asks (f : Forest) (qs : List Question) (w w' : World) : Prop where
  before : w.forest = f
  after : w'.forest = f
  order : w'.order = (askAll f qs w.order).2

namespace World.Asks
variable {f : Forest} {qs qs' : List Question} {w w' w'' : World}

theorem trans (h : w.Asks f qs w') (h' : w'.Asks f qs' w'') : w.Asks f (qs ++ qs') w'' :=
  ⟨h.before, h'.after, by rw [h'.order, h.order, askAll_append]⟩

theorem sorting (h : w.forest = f) (is : List NodeId) : w.Asks f [.sort is] (w.sorting is) := by
  subst h
  exact ⟨rfl, rfl, rfl⟩

end World.Asks

namespace DocumentOrder
variable {f : Forest} {τ : NodeId → ℕ} {is : List NodeId} {o : DocumentOrder}

/-- What sorting gives in the course of time, seen from the end. -/
theorem sort_of_agrees (hf : f.IsSound) (hτ : τ.Injective) (ho : o.IsOf f) (qs : List Question)
    (h : Agrees f τ (askAll f (.sort is :: qs) o).2) : (o.sort f is).1 = f.sorted τ is := by
  obtain ⟨hext, hsort⟩ := sort_spec (τ := τ) hf hτ is ho
  have hrest := (askAll_spec (τ := τ) hf hτ qs hext.isOf).1
  exact hsort (h.earlier hrest.within)

end DocumentOrder

namespace BinaryOp
variable {f : Forest} {a b : Ways} {fr : Frame} {as bs : List NodeId} {qs qs₁ qs₂ : List Question}
  {w w₁ w₂ : World}

/-- The operands of a set operation are evaluated and sorted one after the other. -/
structure Operands (f : Forest) (a b : Ways) (fr : Frame) (as bs : List NodeId) (qs₁ qs₂ : List Question)
    (w w₁ w₂ : World) : Prop where
  left : (a.gather fr).perform w = (.ok as, w₁)
  asks : w.Asks f qs₁ w₁
  right : (b.gather fr).perform (w₁.sorting as) = (.ok bs, w₂)
  asks' : (w₁.sorting as).Asks f qs₂ w₂

/-- What is asked about document order until both operands have been sorted. -/
def questions (as bs : List NodeId) (qs₁ qs₂ : List Question) : List Question :=
  qs₁ ++ ([.sort as] ++ (qs₂ ++ [.sort bs]))

theorem Operands.asks_all (h : Operands f a b fr as bs qs₁ qs₂ w w₁ w₂) :
    w.Asks f (questions as bs qs₁ qs₂) (w₂.sorting bs) :=
  h.asks.trans ((World.Asks.sorting h.asks.after as).trans (h.asks'.trans (.sorting h.asks'.after bs)))

/-- What the operands are sorted into, seen from the end of some questions that follow. -/
theorem Operands.sorted {τ : NodeId → ℕ} (hf : f.IsSound) (hτ : τ.Injective)
    (h : Operands f a b fr as bs qs₁ qs₂ w w₁ w₂) (ho : w.order.IsOf f) {more : List Question}
    (hagrees : Agrees f τ (askAll f (questions as bs qs₁ qs₂ ++ more) w.order).2) :
    (w₁.order.sort f as).1 = f.sorted τ as ∧ (w₂.order.sort f bs).1 = f.sorted τ bs := by
  have ho₁ : w₁.order.IsOf f := h.asks.order ▸ (askAll_spec hf hτ qs₁ ho).1.isOf
  have hsorted : (w₁.sorting as).order.IsOf f := by
    have hext := (sort_spec hf hτ as ho₁).1
    rw [← h.asks.after] at hext
    exact h.asks.after ▸ hext.isOf
  have ho₂ : w₂.order.IsOf f := h.asks'.order ▸ (askAll_spec hf hτ qs₂ hsorted).1.isOf
  have hfrom₂ : (askAll f (questions as bs qs₁ qs₂ ++ more) w.order).2 =
      (askAll f (.sort bs :: more) w₂.order).2 := by
    rw [h.asks'.order, (World.Asks.sorting h.asks.after as).order, h.asks.order]
    simp only [← askAll_append, questions, List.append_assoc, List.cons_append, List.nil_append]
  have hfrom₁ : (askAll f (questions as bs qs₁ qs₂ ++ more) w.order).2 =
      (askAll f (.sort as :: (qs₂ ++ .sort bs :: more)) w₁.order).2 := by
    rw [h.asks.order]
    simp only [← askAll_append, questions, List.append_assoc, List.cons_append, List.nil_append]
  exact ⟨sort_of_agrees hf hτ ho₁ _ (hfrom₁ ▸ hagrees), sort_of_agrees hf hτ ho₂ _ (hfrom₂ ▸ hagrees)⟩

theorem Operands.perform_combine (h : Operands f a b fr as bs qs₁ qs₂ w w₁ w₂) (op : SetOp) :
    (combine op a b fr).perform w = match op with
      | .union => (.ok ((w₂.sorting bs).order.sort f ((w₁.order.sort f as).1 ++ (w₂.order.sort f bs).1)).1,
          (w₂.sorting bs).sorting ((w₁.order.sort f as).1 ++ (w₂.order.sort f bs).1))
      | .intersect => (.ok ((w₁.order.sort f as).1.filter (w₂.order.sort f bs).1.contains), w₂.sorting bs)
      | .except => (.ok ((w₁.order.sort f as).1.filter (!(w₂.order.sort f bs).1.contains ·)), w₂.sorting bs) := by
  have hw₁ := h.asks.after
  have hw₂ := h.asks'.after
  unfold combine
  rw [Regime.perform_bind, Ways.perform_nodes h.left]
  dsimp only
  rw [Regime.perform_bind, Ways.perform_nodes h.right, hw₁, hw₂]
  cases op with
  | union =>
    have hforest : (w₂.sorting bs).forest = f := hw₂
    unfold World.sorting at hforest ⊢
    simp only [hw₂]
    rfl
  | intersect => rfl
  | except => rfl

/-- A set operation gives the nodes that it takes as they stand in the order of all that was asked. -/
theorem Operands.combine_spec (hf : f.IsSound) (h : Operands f a b fr as bs qs₁ qs₂ w w₁ w₂)
    (hw : w.order = (askAll f qs {}).2) (op : SetOp) : ∃ is w' more,
      (combine op a b fr).perform w = (.ok is, w') ∧ w.Asks f (questions as bs qs₁ qs₂ ++ more) w' ∧
      is.Pairwise (f.Precedes (askedBy (qs ++ (questions as bs qs₁ qs₂ ++ more)))) ∧
      ∀ i, i ∈ is ↔ op.Takes (i ∈ as) (i ∈ bs) := by
  have ho : w.order.IsOf f := hw ▸ ((follows_empty f).askAll hf qs).isOf
  -- The order that is found out in the end is the one that everything was sorted by.
  have hend (more : List Question) : ∃ τ : NodeId → ℕ, τ.Injective ∧
      Agrees f τ (askAll f (questions as bs qs₁ qs₂ ++ more) w.order).2 ∧
      ((w₁.order.sort f as).1 = f.sorted τ as ∧ (w₂.order.sort f bs).1 = f.sorted τ bs) ∧
      ∀ q ∈ questions as bs qs₁ qs₂ ++ more,
        q.IsAnswered f (askedBy (qs ++ (questions as bs qs₁ qs₂ ++ more))) (q.answer f τ) := by
    obtain ⟨τ, hτ, hagrees, -, hanswered⟩ := exists_answers hf (qs ++ (questions as bs qs₁ qs₂ ++ more))
    rw [askAll_append, ← hw] at hagrees
    exact ⟨τ, hτ, hagrees, h.sorted hf hτ ho hagrees, fun q hq => hanswered q (List.mem_append_right qs hq)⟩
  have hleft : Question.sort as ∈ questions as bs qs₁ qs₂ ++ [] := by simp [questions]
  rw [h.perform_combine]
  cases op with
  | union =>
    let both := (w₁.order.sort f as).1 ++ (w₂.order.sort f bs).1
    obtain ⟨τ, hτ, hagrees, ⟨has, hbs⟩, hanswered⟩ := hend [.sort both]
    have hasks := h.asks_all.trans (World.Asks.sorting (w := w₂.sorting bs) h.asks'.after both)
    have hresult : ((w₂.sorting bs).order.sort f both).1 = f.sorted τ both := by
      refine sort_of_agrees hf hτ (h.asks_all.order ▸ (askAll_spec hf hτ _ ho).1.isOf) [] ?_
      rwa [h.asks_all.order, ← askAll_append]
    refine ⟨_, _, [.sort both], rfl, hasks, ?_, fun i => ?_⟩
    · exact hresult ▸ (hanswered (.sort both) (by simp)).pairwise
    · rw [hresult, Forest.mem_sorted, List.mem_append, has, hbs, Forest.mem_sorted, Forest.mem_sorted]
      rfl
  | intersect =>
    obtain ⟨τ, -, -, ⟨has, hbs⟩, hanswered⟩ := hend []
    refine ⟨_, _, [], rfl, (List.append_nil _).symm ▸ h.asks_all, ?_, fun i => ?_⟩
    · rw [has]
      exact (hanswered _ hleft).pairwise.filter _
    · simp [has, hbs, SetOp.Takes]
  | except =>
    obtain ⟨τ, -, -, ⟨has, hbs⟩, hanswered⟩ := hend []
    refine ⟨_, _, [], rfl, (List.append_nil _).symm ▸ h.asks_all, ?_, fun i => ?_⟩
    · rw [has]
      exact (hanswered _ hleft).pairwise.filter _
    · simp [has, hbs, SetOp.Takes]

end BinaryOp
namespace DocumentOrder
variable {f : Forest}

/-- Document order is one total order, whatever is asked about it and whenever: every answer is the one that
all questions together settle, and the same question has the same answer each time; nodes below an element
come in the order of their roles; and set operations give what they take in that order. -/
theorem answers_in_one_order (hf : f.IsSound) :
    (∀ qs : List Question, f.IsOrdered (askedBy qs) ∧
      List.Forall₂ (Question.IsAnswered f (askedBy qs)) qs (askAll f qs {}).1 ∧
      ∀ m n : ℕ, qs[m]? = qs[n]? → (askAll f qs {}).1[m]? = (askAll f qs {}).1[n]?) ∧
    (∀ t ∈ f.nodes, t.IsByRole → ∀ u ∈ t.parts, ∀ v ∈ t.parts,
      u.content.role.rank < v.content.role.rank →
      f.place t.id < f.place u.id ∧ f.place u.id < f.place v.id) ∧
    ∀ (a b : Ways) (fr : Frame) (as bs : List NodeId) (qs qs₁ qs₂ : List Question) (w w₁ w₂ : World),
      w.order = (askAll f qs {}).2 → BinaryOp.Operands f a b fr as bs qs₁ qs₂ w w₁ w₂ →
      ∀ op : SetOp, ∃ is w' more, (BinaryOp.combine op a b fr).perform w = (.ok is, w') ∧
        w.Asks f (BinaryOp.questions as bs qs₁ qs₂ ++ more) w' ∧
        is.Pairwise (f.Precedes (askedBy (qs ++ (BinaryOp.questions as bs qs₁ qs₂ ++ more)))) ∧
        ∀ i, i ∈ is ↔ op.Takes (i ∈ as) (i ∈ bs) := by
  refine ⟨fun qs => ⟨hf.isOrdered _, ?_⟩, fun t ht h u hu v hv => hf.place_of_parts ht h hu hv,
    fun a b fr as bs qs qs₁ qs₂ w w₁ w₂ hw h op => h.combine_spec hf hw op⟩
  obtain ⟨τ, -, -, hanswers, hanswered⟩ := exists_answers hf qs
  rw [hanswers]
  refine ⟨List.forall₂_map_right_iff.2 (List.forall₂_same.2 hanswered), fun m n heq => ?_⟩
  rw [List.getElem?_map, List.getElem?_map, heq]

/-- An element with an attribute and a text, and an element without anything. -/
def twoElements : Forest := ⟨4, [
  .node 0 (.element ⟨"a", ""⟩) [.node 1 (.attr ⟨"k", ""⟩ "v") [], .node 2 (.text "t") []],
  .node 3 (.element ⟨"b", ""⟩) []]⟩

theorem isSound_twoElements : twoElements.IsSound where
  nodup := by decide
  below := by decide
  texts := by simp [twoElements, Forest.nodes, Tree.preorder, Tree.preorderList, Tree.content, Tree.parts,
    Content.isText]
  roots := by simp [twoElements, Tree.content, Content.isOrdinary, Content.role]

/-- The variable of a slot. -/
def ofSlot (slot : Slot) : Ways := ((Expr.mkLeaf (.variable (.range slot)) 0).meaning {}).toWays

/-- The second element was asked about first, so that it comes first in a union as well. -/
theorem answers_in_one_order_twoElements : let f := twoElements
    let fr : Frame := { slots := fun s => some (.items (if s = 0 then [.node 2, .node 3] else [.node 0, .node 2])) }
    let w : World := { forest := f, order := (askAll f [.compare 3 1] {}).2 }
    f.IsSound ∧
      List.Forall₂ (Question.IsAnswered f [3, 1, 2, 3, 0]) [.compare 3 1, .sort [2, 3, 0]]
        (askAll f [.compare 3 1, .sort [2, 3, 0]] {}).1 ∧
      f.Precedes [3, 1, 2, 3, 0] 3 0 ∧ f.Precedes [3, 1, 2, 3, 0] 1 2 ∧
      BinaryOp.Operands f (ofSlot 0) (ofSlot 1) fr [2, 3] [0, 2] [] [] w w (w.sorting [2, 3]) ∧
      ∃ is w' more, (BinaryOp.combine .union (ofSlot 0) (ofSlot 1) fr).perform w = (.ok is, w') ∧
        is.Pairwise (f.Precedes (askedBy ([.compare 3 1] ++ (BinaryOp.questions [2, 3] [0, 2] [] [] ++ more)))) ∧
        ∀ i, i ∈ is ↔ i ∈ [2, 3] ∨ i ∈ [0, 2] := by
  intro f fr w
  obtain ⟨hanswers, -, hsets⟩ := answers_in_one_order isSound_twoElements
  have hoperands : BinaryOp.Operands f (ofSlot 0) (ofSlot 1) fr [2, 3] [0, 2] [] [] w w (w.sorting [2, 3]) :=
    ⟨rfl, ⟨rfl, rfl, rfl⟩, rfl, ⟨rfl, rfl, rfl⟩⟩
  obtain ⟨is, w', more, hunion, -, hordered, htakes⟩ :=
    hsets _ _ fr _ _ [.compare 3 1] [] [] w _ _ rfl hoperands .union
  exact ⟨isSound_twoElements, (hanswers [.compare 3 1, .sort [2, 3, 0]]).2.1, by decide, by decide, hoperands, is, w',
    more, hunion, hordered, htakes⟩

end DocumentOrder
end XPath
