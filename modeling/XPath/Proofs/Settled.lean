import XPath.Optimize.Rewrite
import XPath.Proofs.Ignoring
import XPath.Proofs.Outcomes
import XPath.Proofs.Standing

/-!
Worlds in which the order of the trees is settled. Trees are numbered when they are first asked about, so that in
general it matters which question comes first. Where at most one of the trees that an evaluation can reach has no
number yet, nothing that is asked changes an answer; and what is kept in such worlds, of indexes and of values that
were put off, is what evaluating it again would give. An expression that makes no nodes then has one result,
whenever it is evaluated.
-/
namespace XPath

namespace Forest
variable {f : Forest} {asked : List NodeId} {i j : NodeId}

/-- Nodes of one tree are ranked with the number of the tree. -/
theorem tree_rankBy (τ : NodeId → ℕ) (h : f.line i = f.line j) : (f.rankBy τ i).tree = (f.rankBy τ j).tree := by
  have hj := f.mem_line j
  unfold rankBy
  dsimp only
  rw [h]
  cases hl : f.line j with
  | nil => simp [hl] at hj
  | cons k ks => rfl

instance : Decidable (f.IsAsked asked i) := inferInstanceAs (Decidable (∃ x ∈ asked, x ∈ f.line i))

theorem IsAsked.of_line (h : f.IsAsked asked i) (hline : f.line i = f.line j) : f.IsAsked asked j := by
  obtain ⟨x, hx, hxi⟩ := h
  exact ⟨x, hx, hline ▸ hxi⟩

/-- A tree that has not been asked about comes after those that have been. -/
theorem length_le_firstAsked (h : ¬ f.IsAsked asked i) (more : List NodeId) :
    asked.length ≤ f.firstAsked (asked ++ more) i := by
  have hall : ∀ x ∈ asked, decide (x ∈ f.line i) = false := fun x hx =>
    decide_eq_false fun hi => h ⟨x, hx, hi⟩
  unfold firstAsked
  rw [List.findIdx_append, List.findIdx_eq_length.2 hall, if_neg (lt_irrefl _)]
  exact Nat.le_add_left ..

/-- Where no two trees have not been asked about, it does not matter what is asked next. -/
theorem firstAsked_lt_iff (hone : ¬ f.IsAsked asked i → ¬ f.IsAsked asked j → f.line i = f.line j)
    (more more' : List NodeId) :
    f.firstAsked (asked ++ more) i < f.firstAsked (asked ++ more) j ↔
      f.firstAsked (asked ++ more') i < f.firstAsked (asked ++ more') j := by
  by_cases hi : f.IsAsked asked i <;> by_cases hj : f.IsAsked asked j
  · rw [firstAsked_append hi, firstAsked_append hj, firstAsked_append hi, firstAsked_append hj]
  · rw [firstAsked_append hi, firstAsked_append hi]
    have := firstAsked_lt hi
    exact iff_of_true (this.trans_le (length_le_firstAsked hj more)) (this.trans_le (length_le_firstAsked hj more'))
  · rw [firstAsked_append hj, firstAsked_append hj]
    have := firstAsked_lt hj
    exact iff_of_false (this.trans_le (length_le_firstAsked hi more)).not_gt
      (this.trans_le (length_le_firstAsked hi more')).not_gt
  · rw [firstAsked_eq (hone hi hj), show f.firstAsked (asked ++ more') i = f.firstAsked (asked ++ more') j from
      firstAsked_eq (hone hi hj)]
    exact iff_of_false (lt_irrefl _) (lt_irrefl _)

end Forest

namespace DocumentOrder
open Forest
variable {f : Forest} {inside : NodeId → Prop} {τ : NodeId → ℕ} {o : DocumentOrder} {asked : List NodeId}
  {i j : NodeId} {r s : Rank}

/-- Whatever is asked about some nodes, the ranks agree with given numbers for the trees. -/
structure Settles (f : Forest) (inside : NodeId → Prop) (τ : NodeId → ℕ) (o : DocumentOrder) : Prop where
  isOf : o.IsOf f
  agrees : ∀ qs : List Question, (∀ q ∈ qs, ∀ i ∈ q.about, inside i) → Agrees f τ (askAll f qs o).2

namespace Settles

/-- An answer changes nothing. -/
theorem ask (hf : f.IsSound) (hτ : τ.Injective) (h : Settles f inside τ o) {q : Question}
    (hq : ∀ i ∈ q.about, inside i) : Settles f inside τ (q.ask f o).2 where
  isOf := (ask_spec (τ := τ) hf hτ h.isOf q).1.isOf
  agrees qs hqs := h.agrees (q :: qs) (List.forall_mem_cons.2 ⟨hq, hqs⟩)

theorem agrees_ask (h : Settles f inside τ o) {q : Question} (hq : ∀ i ∈ q.about, inside i) :
    Agrees f τ (q.ask f o).2 :=
  h.agrees [q] (List.forall_mem_singleton.2 hq)

theorem compare_eq (hf : f.IsSound) (h : Settles f inside τ o) (hi : inside i) (hj : inside j) :
    (o.compare f i j).1 = (f.rankBy τ i).compare (f.rankBy τ j) := by
  refine (compare_spec (τ := τ) hf h.isOf i j).2 (h.agrees_ask (q := .compare i j) fun k hk => ?_)
  obtain rfl | rfl := List.mem_pair.1 hk
  · exact hi
  · exact hj

theorem about_sort {is : List NodeId} (his : ∀ i ∈ is, inside i) : ∀ i ∈ (Question.sort is).about, inside i := by
  rw [Question.about_sort]
  split
  · exact nofun
  · exact his

/-- Asking for nodes to be arranged asks what sorting them asks. -/
theorem arrange_eq (hf : f.IsSound) (hτ : τ.Injective) (h : Settles f inside τ o) {is : List NodeId}
    (his : ∀ i ∈ is, inside i) : (o.arrange f is).1 = f.arranged τ is :=
  (arrange_spec hf hτ is h.isOf).2 (h.agrees_ask (about_sort his))

end Settles

/-- Numbers that the ranks agree with order the trees as the ranks do. -/
theorem Agrees.tree (hτ : τ.Injective) (h : Agrees f τ o) (ho : o.IsOf f) (hf : f.IsSound)
    (hr : o.ranks[i]? = some r) (hs : o.ranks[j]? = some s) :
    r.tree < s.tree ↔ (f.rankBy τ i).tree < (f.rankBy τ j).tree := by
  have hcompare := h i j r s hr hs
  have hsame : r.tree = s.tree ↔ (f.rankBy τ i).tree = (f.rankBy τ j).tree := by
    exact (ho.same hr hs).trans ⟨tree_rankBy τ, fun heq => hf.line_eq_of_head (hτ heq)⟩
  by_cases heq : r.tree = s.tree
  · have := hsame.1 heq
    omega
  · have hne := mt hsame.2 heq
    have hlt : r.compare s = .lt ↔ r.tree < s.tree := by
      rw [Rank.compare_eq_lt]
      omega
    have hlt' : (f.rankBy τ i).compare (f.rankBy τ j) = .lt ↔ (f.rankBy τ i).tree < (f.rankBy τ j).tree := by
      rw [Rank.compare_eq_lt]
      omega
    rw [← hlt, ← hlt', hcompare]

/-- Where at most one tree has not been asked about, the order is settled. -/
theorem Follows.exists_settles (hf : f.IsSound) (h : Follows f asked o)
    (hone : ∀ i j, inside i → inside j → ¬ f.IsAsked asked i → ¬ f.IsAsked asked j → f.line i = f.line j) :
    ∃ τ : NodeId → ℕ, τ.Injective ∧ Settles f inside τ o := by
  -- Were that tree asked about as well, all trees would have numbers; these are the ones.
  obtain ⟨more, o', h', hall, hmore⟩ : ∃ more o', Follows f (asked ++ more) o' ∧
      (∀ i, inside i → f.IsAsked (asked ++ more) i) ∧ ∀ x ∈ more, ∀ y ∈ more, x = y := by
    by_cases hex : ∃ k, inside k ∧ ¬ f.IsAsked asked k
    · obtain ⟨k, hk, hnot⟩ := hex
      refine ⟨[k], _, h.rank hf k, fun i hi => ?_, by simp⟩
      by_cases hi' : f.IsAsked asked i
      · exact hi'.append [k]
      · exact (isAsked_of_mem (by simp)).of_line (hone k i hk hi hnot hi')
    · exact ⟨[], o, (List.append_nil asked).symm ▸ h, fun i hi =>
        (by_contra fun hnot => hex ⟨i, hi, fun hi' => hnot (hi'.append [])⟩), nofun⟩
  obtain ⟨τ, hτ, hagrees⟩ := h'.isOf.exists_agrees hf
  refine ⟨τ, hτ, h.isOf, fun qs hqs i j r s hr hs => ?_⟩
  have h₂ := h.askAll hf qs
  have hasked {i : NodeId} {r : Rank} (hr : (DocumentOrder.askAll f qs o).2.ranks[i]? = some r) :
      f.IsAsked (asked ++ more) i := by
    obtain ⟨x, hx, hxi⟩ := h₂.seen hr
    obtain hx | hx := List.mem_append.1 hx
    · exact ⟨x, List.mem_append_left more hx, hxi⟩
    · obtain ⟨q, hq, hx⟩ := List.mem_flatMap.1 hx
      exact (hall x (hqs q hq x hx)).of_line (hf.line_eq hxi)
  have hlt {i j : NodeId} {r s : Rank} (hr : (DocumentOrder.askAll f qs o).2.ranks[i]? = some r)
      (hs : (DocumentOrder.askAll f qs o).2.ranks[j]? = some s) :
      r.tree < s.tree ↔ (f.rankBy τ i).tree < (f.rankBy τ j).tree := by
    obtain ⟨x, hx, hxi⟩ := hasked hr
    obtain ⟨y, hy, hyj⟩ := hasked hs
    obtain ⟨r', hr'⟩ := Option.isSome_iff_exists.1 (h'.ranked x hx)
    obtain ⟨s', hs'⟩ := Option.isSome_iff_exists.1 (h'.ranked y hy)
    have hline := hf.line_eq hxi
    have hline' := hf.line_eq hyj
    rw [h₂.tree hr hs, ← tree_rankBy τ hline, ← tree_rankBy τ hline', ← hagrees.tree hτ h'.isOf hf hr' hs',
      h'.tree hr' hs', firstAsked_eq hline, firstAsked_eq hline']
    refine firstAsked_lt_iff (fun hi hj => ?_) _ _
    have hnew {z k : NodeId} (hz : z ∈ asked ++ more) (hzk : z ∈ f.line k) (hk : ¬ f.IsAsked asked k) : z ∈ more :=
      (List.mem_append.1 hz).resolve_left fun hz => hk ⟨z, hz, hzk⟩
    rw [← hline, ← hline', hmore x (hnew hx hxi hi) y (hnew hy hyj hj)]
  exact Rank.compare_congr (hlt hr hs) (hlt hs hr) (h₂.isOf.place hr) (h₂.isOf.place hs)

end DocumentOrder

/-- The frame that an index is made in. -/
def IndexKey.frame (key : IndexKey) : Frame := { focus := key.focus.map fun i => ⟨.node i, 1, none⟩ }

/-- Trees with all that is found out about them: the order in which they come, and what evaluations that were put
off give, as far as it is kept. Indexes are what they are in a world in which nothing else has been found
out. -/
structure Settlement where
  forest : Forest
  inside : NodeId → Prop
  trees : NodeId → ℕ
  order : DocumentOrder
  context : DynamicContext
  kept : ℕ → Option (List Item)
  sound : forest.IsSound
  closed : ∀ {i t u}, inside i → t ∈ forest.chain i → u ∈ t.preorder → inside u.id
  injective : trees.Injective
  settles : order.Settles forest inside trees
  within : ∀ {n xs}, kept n = some xs → ∀ x ∈ xs, ∀ i, x.node? = some i → inside i

namespace Settlement
open Likeness
variable {S : Settlement} {w w' : World} {d : Deferred}

/-- The trees stay as they are. -/
def exchange (S : Settlement) : Exchange where
  before := S.forest
  after := S.forest
  inside := S.inside
  chain _ := rfl
  closed := S.closed

def start (S : Settlement) : World := { forest := S.forest, order := S.order }

/-- The index for a key. -/
def found (S : Settlement) (key : IndexKey) : Option Index :=
  ((((key.base.meaning S.context).makeIndex (key.keyPath.meaning S.context).toWays key.frame).perform
    S.start).1).toOption

/-- A world with the trees, in which everything that is kept is right. -/
structure Good (S : Settlement) (w : World) : Prop where
  forest : w.forest = S.forest
  settles : w.order.Settles S.forest S.inside S.trees
  found : ∀ key x, w.indexes.lookup key = some x → S.found key = some x
  kept : ∀ (n : ℕ) xs, w.cells[n]?.bind (·.kept) = some xs → S.kept n = some xs

/-- In a good world, it does not matter in which. -/
def likeness (S : Settlement) : Likeness := ⟨fun w w' => S.Good w ∧ S.Good w'⟩

theorem good_start (S : Settlement) : S.Good S.start := ⟨rfl, S.settles, by simp [start], by simp [start]⟩

/-- What is kept of an evaluation that is put off is what it gives; and if it is to be kept, then it is. -/
structure Knows (S : Settlement) (d : Deferred) : Prop where
  right : ∀ xs, S.kept d.cell = some xs → ∀ w, S.Good w → (d.start.toList.perform w).1 = .ok xs
  keeps : d.keeps → ∀ w, S.Good w → ∀ xs, (d.start.toList.perform w).1 = .ok xs → S.kept d.cell = some xs

/-- A forest of which at most one tree has not been asked about. -/
theorem exists_settlement {f : Forest} (hf : f.IsSound) {asked : List NodeId} {o : DocumentOrder}
    (h : DocumentOrder.Follows f asked o)
    (hone : ∀ i < f.next, ∀ j < f.next, ¬ f.IsAsked asked i → ¬ f.IsAsked asked j → f.line i = f.line j)
    (c : DynamicContext) :
    ∃ S : Settlement, S.inside = (· < f.next) ∧ S.context = c ∧ S.Good { forest := f, order := o } := by
  obtain ⟨τ, hτ, hsettles⟩ : ∃ τ : NodeId → ℕ, τ.Injective ∧ o.Settles f (· < f.next) τ :=
    h.exists_settles hf fun i j hi hj => hone i hi j hj
  exact ⟨{
    forest := f
    inside := (· < f.next)
    trees := τ
    order := o
    context := c
    kept := fun _ => none
    sound := hf
    closed := fun _ ht hu => hf.lt_next (Forest.mem_nodes_trans (Forest.mem_nodes_of_chain ht) hu)
    injective := hτ
    settles := hsettles
    within := by simp }, rfl, rfl, good_start _⟩

/-! Document order. -/

theorem Good.asked (hw : S.Good w) {q : DocumentOrder.Question} (hq : ∀ i ∈ q.about, S.inside i) :
    S.Good { w with order := (q.ask w.forest w.order).2 } :=
  ⟨hw.forest, hw.forest ▸ hw.settles.ask S.sound S.injective hq, hw.found, hw.kept⟩

theorem runs_compare {i j : NodeId} (hi : S.inside i) (hj : S.inside j) :
    S.likeness.Runs (Eval.ordering fun t o => o.compare t i j) fun _ => True := by
  rintro w w' ⟨hw, hw'⟩
  have hq : ∀ k ∈ (DocumentOrder.Question.compare i j).about, S.inside k := by
    intro k hk
    obtain rfl | rfl := List.mem_pair.1 hk
    · exact hi
    · exact hj
  have hanswer {w : World} (hw : S.Good w) : (w.order.compare w.forest i j).1 =
      (S.forest.rankBy S.trees i).compare (S.forest.rankBy S.trees j) := by
    rw [hw.forest]
    exact hw.settles.compare_eq S.sound hi hj
  change S.likeness.Answers _ (.ok (w.order.compare w.forest i j).1, _) (.ok (w'.order.compare w'.forest i j).1, _)
  rw [hanswer hw, hanswer hw']
  exact .ok trivial ⟨hw.asked hq, hw'.asked hq⟩

theorem runs_arrange {is : List NodeId} (his : ∀ i ∈ is, S.inside i) :
    S.likeness.Runs (Eval.ordering fun t o => o.arrange t is) (∀ j ∈ ·, S.inside j) := by
  rintro w w' ⟨hw, hw'⟩
  have hq := DocumentOrder.Settles.about_sort his
  have hanswer {w : World} (hw : S.Good w) : (w.order.arrange w.forest is).1 = S.forest.arranged S.trees is := by
    rw [hw.forest]
    exact hw.settles.arrange_eq S.sound S.injective his
  change S.likeness.Answers _ (.ok (w.order.arrange w.forest is).1, _) (.ok (w'.order.arrange w'.forest is).1, _)
  rw [hanswer hw, hanswer hw']
  exact .ok (fun j hj => his j ((S.forest.perm_arranged S.trees is).mem_iff.1 hj)) ⟨hw.asked hq, hw'.asked hq⟩

/-! What is kept. -/

theorem Good.modify (hw : S.Good w) (i : ℕ) {g : Cell → Cell}
    (hg : ∀ c xs, (g c).kept = some xs → c.kept = some xs ∨ S.kept i = some xs) :
    S.Good { w with cells := w.cells.modify i g } := by
  refine ⟨hw.forest, hw.settles, hw.found, fun n xs hxs => ?_⟩
  dsimp only at hxs
  rw [Array.getElem?_modify] at hxs
  split at hxs
  · next heq =>
    subst heq
    obtain ⟨c', hc', hkept⟩ := Option.bind_eq_some_iff.1 hxs
    obtain ⟨c, hc, rfl⟩ := Option.map_eq_some_iff.1 hc'
    obtain hold | hnew := hg c xs hkept
    · exact hw.kept i xs (Option.bind_eq_some_iff.2 ⟨c, hc, hold⟩)
    · exact hnew
  · exact hw.kept n xs hxs

theorem yields_start (h : S.likeness.Yields d.items S.exchange.Has) : S.likeness.Yields d.start S.exchange.Has := by
  rintro w w' ⟨hw, hw'⟩
  exact h _ _ ⟨hw.modify d.cell fun _ _ => .inl, hw'.modify d.cell fun _ _ => .inl⟩

/-! What an evaluation gives in every good world. -/

section Gets
variable {α : Type} {p : Eval α} {r : Except Failure α} {Q : α → Prop}

/-- This is the result in every good world, and a good world is left. -/
def Gets (S : Settlement) (p : Eval α) (r : Except Failure α) : Prop :=
  ∀ w, S.Good w → ∃ w', S.Good w' ∧ p.perform w = (r, w')

theorem Gets.runs (h : S.Gets p r) (hQ : ∀ x, r = .ok x → Q x) : S.likeness.Runs p Q := by
  rintro w w' ⟨hw, hw'⟩
  obtain ⟨v, hv, heq⟩ := h w hw
  obtain ⟨v', hv', heq'⟩ := h w' hw'
  rw [heq, heq']
  cases r with
  | ok x => exact .ok (hQ x rfl) ⟨hv, hv'⟩
  | error e => exact .error ⟨hv, hv'⟩

theorem exists_gets (h : S.likeness.Runs p Q) : ∃ r, S.Gets p r ∧ ∀ x, r = .ok x → Q x := by
  refine ⟨(p.perform S.start).1, fun w hw => ?_, fun x hx => ?_⟩
  · have ha := h w S.start ⟨hw, S.good_start⟩
    generalize p.perform w = v, p.perform S.start = v' at ha ⊢
    cases ha with
    | ok _ hw => exact ⟨_, hw.1, rfl⟩
    | error hw => exact ⟨_, hw.1, rfl⟩
  · have ha := h S.start S.start ⟨S.good_start, S.good_start⟩
    generalize p.perform S.start = v at ha hx
    cases ha with
    | ok hx' _ =>
      cases hx
      exact hx'
    | error _ => cases hx

/-- What an evaluation that is put off gives, whether it has been kept or not. -/
theorem gets_deferred {r : Except Failure (List Item)} (hd : S.Knows d) (hr : S.Gets d.start.toList r) :
    S.Gets d.toList r := by
  intro w hw
  rw [Regime.perform_deferred]
  cases hcell : w.cells[d.cell]?.bind (·.kept) with
  | some xs =>
    obtain ⟨w', _, heq⟩ := hr w hw
    have hxs := hd.right xs (hw.kept _ _ hcell) w hw
    rw [heq] at hxs
    cases hxs
    exact ⟨w, hw, rfl⟩
  | none =>
    obtain ⟨w', hw', heq⟩ := hr w hw
    dsimp only
    rw [Regime.perform_bind, heq]
    cases r with
    | error e => exact ⟨w', hw', rfl⟩
    | ok xs =>
      dsimp only
      split
      · next hkeeps =>
        refine ⟨_, hw'.modify d.cell fun c ys hys => ?_, rfl⟩
        dsimp only at hys
        cases hkept : c.kept with
        | some zs =>
          rw [hkept] at hys
          exact .inl hys
        | none =>
          rw [hkept] at hys
          cases hys
          exact .inr (hd.keeps hkeeps w hw xs (by rw [heq]))
      · exact ⟨w', hw', rfl⟩

end Gets

/-- The evaluations to be compared are those of expressions in good worlds. -/
def setting (S : Settlement) : Setting where
  toExchange := S.exchange
  toLikeness := S.likeness
  Knows := S.Knows
  forests h := ⟨h.1.forest, h.2.forest⟩
  compares := runs_compare
  arranges := runs_arrange
  starts _ := yields_start
  lists hd h := by
    obtain ⟨r, hr, hxs⟩ := exists_gets (yields_start h).toList
    exact (gets_deferred hd hr).runs hxs

/-! Indexes. -/

end Settlement

namespace Expr

/-- A base with an index and its key path have no free variables. -/
def HasClosedKeys : Expr → Prop
  | ternary _ .indexedFilter a b _ => ∀ s, a.needs s = false ∧ b.needs s = false
  | _ => True

end Expr

namespace Settlement
open Likeness
variable {S : Settlement} {w w' : World}

/-- An index is the same in whatever frame it is made. -/
theorem makeIndex_frame {c : DynamicContext} {a b : Expr} (ha : a.Determined c) (hb : b.Determined c)
    (hrecorded : a.info.effects = a.effects) (hclosed : ∀ s, a.needs s = false ∧ b.needs s = false)
    (hreads : a.effects.reads.position = false ∧ a.effects.reads.last = false) {f : Frame}
    (hf : (a.meaning c).IsIndexed f) :
    (a.meaning c).makeIndex (b.meaning c).toWays f =
      (a.meaning c).makeIndex (b.meaning c).toWays (IndexKey.frame ⟨a, b, (a.meaning c).indexNode f⟩) := by
  have hnone {e : Expr} (he : ∀ s, e.needs s = false) {g g' : Frame} (s : Slot) (hs : e.needs s) :
      g.slots s = g'.slots s := by
    rw [he s] at hs
    cases hs
  refine Ways.makeIndex_eq (ha _ _ ⟨hnone fun s => (hclosed s).1, fun hitem => ?_, ?_, ?_⟩).1.matches
    fun x n size => (hb _ _ ⟨hnone fun s => (hclosed s).2, fun _ => ?_, fun _ => ?_, fun _ => ?_⟩).1.matches
  · have hfocus : (a.meaning c).note.info.dependencies.focus := by
      have hitem' : a.info.effects.reads.item = true := hrecorded ▸ hitem
      rw [Expr.meaning_note]
      change (a.info.dependencies.item || _ || _) = true
      rw [show a.info.dependencies.item = true from hitem']
      rfl
    obtain ⟨i, hi⟩ := Option.isSome_iff_exists.1 (hf hfocus)
    rw [hi]
    unfold Ways.indexNode at hi
    rw [if_pos hfocus] at hi
    obtain ⟨x, hx, hxi⟩ := Option.bind_eq_some_iff.1 hi
    rw [hx]
    cases x with
    | atomic v => cases hxi
    | node j =>
      cases hxi
      rfl
  · rw [hreads.1]
    exact fun h => absurd h Bool.false_ne_true
  · rw [hreads.2]
    exact fun h => absurd h Bool.false_ne_true
  · rfl
  · rfl
  · rfl

/-- An index that has been kept is the one that would be made. -/
theorem gets_findIndex {a b : Expr} (ha : a.Determined S.context) (hb : b.Determined S.context)
    (hrecorded : a.info.effects = a.effects) (hclosed : ∀ s, a.needs s = false ∧ b.needs s = false)
    (hreads : a.effects.reads.position = false ∧ a.effects.reads.last = false) {f : Frame}
    (hindexed : (a.meaning S.context).IsIndexed f) {r : Except Failure Index}
    (hr : S.Gets ((a.meaning S.context).makeIndex (b.meaning S.context).toWays f) r) :
    S.Gets ((a.meaning S.context).findIndex ⟨a, b, (a.meaning S.context).indexNode f⟩
      (b.meaning S.context).toWays f) r := by
  have hsame := makeIndex_frame ha hb hrecorded hclosed hreads hindexed
  generalize hkey : (⟨a, b, (a.meaning S.context).indexNode f⟩ : IndexKey) = key at hsame ⊢
  have hfound : S.found key = r.toOption := by
    obtain ⟨w', -, heq⟩ := hr S.start S.good_start
    rw [hsame] at heq
    subst hkey
    exact congrArg (·.1.toOption) heq
  intro w hw
  rw [Regime.perform_findIndex]
  cases hlook : w.indexes.lookup key with
  | some x =>
    have hr' := hfound.symm.trans (hw.found key x hlook)
    cases r with
    | error e => cases hr'
    | ok y =>
      cases hr'
      exact ⟨w, hw, rfl⟩
  | none =>
    obtain ⟨w', hw', heq⟩ := hr w hw
    dsimp only
    rw [Regime.perform_bind, heq]
    cases r with
    | error e => exact ⟨w', hw', rfl⟩
    | ok x =>
      refine ⟨{ w' with indexes := (key, x) :: w'.indexes },
        ⟨hw'.forest, hw'.settles, fun key' y hy => ?_, hw'.kept⟩, rfl⟩
      rw [List.lookup_cons] at hy
      split at hy
      · next heq =>
        cases hy
        rw [eq_of_beq heq, hfound]
        rfl
      · exact hw'.found key' y hy

theorem finds {a b : Expr} (ha : a.Determined S.context) (hb : b.Determined S.context)
    (hrecorded : a.info.effects = a.effects) (hclosed : ∀ s, a.needs s = false ∧ b.needs s = false)
    (hreads : a.effects.reads.position = false ∧ a.effects.reads.last = false) :
    S.setting.Finds S.context a b := by
  intro hca hcb f hf hindexed
  obtain ⟨r, hr, hx⟩ := exists_gets (Setting.runs_makeIndex (hca f hf) fun _ n size hx =>
    hcb _ (hf.withFocus hx n size))
  exact (gets_findIndex ha hb hrecorded hclosed hreads hindexed hr).runs hx

end Settlement

namespace Expr
variable {S : Settlement} {e : Expr}

/-- An expression that has one result, whenever it is evaluated where the order of the trees is settled: it makes no
nodes and puts nothing off. -/
structure IsSteady (e : Expr) : Prop where
  recorded : e.Recorded
  formed : e.All IsFormed
  keys : e.All HasClosedKeys
  creates : e.effects.creates = false
  mode : e.All fun x => x.mode.defers = false

theorem IsSteady.ignores (h : e.IsSteady) (hc : S.setting.HasContext S.context) : e.Ignores S.setting S.context := by
  refine e.ignores hc fun x hx => ⟨all_not_creates e h.creates x hx, fun hm => ?_, fun n a b d heq => ?_⟩
  · rw [h.mode x hx] at hm
    cases hm
  · subst heq
    have hr := all_ternary.1 (h.recorded.all e _ hx)
    have hf := all_ternary.1 (h.formed.all e _ hx)
    exact Settlement.finds (determined _ a hr.2.1 hf.2.1) (determined _ b hr.2.2.1 hf.2.2.1) hr.2.1.self
      (h.keys _ hx) hf.1

/-- So are the expressions in it. -/
theorem IsSteady.part (h : e.IsSteady) {x : Expr} (hx : x ∈ e.preorder) : x.IsSteady where
  recorded := h.recorded.all e x hx
  formed := h.formed.all e x hx
  keys := h.keys.all e x hx
  creates := all_not_creates e h.creates x hx
  mode := h.mode.all e x hx

theorem IsSteady.unary {n : Note} {op : UnaryOp} {a : Expr} (h : (Expr.unary n op a).IsSteady) : a.IsSteady :=
  h.part (by simp [preorder, mem_preorder_self])

theorem IsSteady.binary {n : Note} {op : BinaryOp} {a b : Expr} (h : (Expr.binary n op a b).IsSteady) :
    a.IsSteady ∧ b.IsSteady :=
  ⟨h.part (by simp [preorder, mem_preorder_self]), h.part (by simp [preorder, mem_preorder_self])⟩

theorem IsSteady.ternary {n : Note} {op : TernaryOp} {a b d : Expr} (h : (Expr.ternary n op a b d).IsSteady) :
    a.IsSteady ∧ b.IsSteady ∧ d.IsSteady :=
  ⟨h.part (by simp [preorder, mem_preorder_self]), h.part (by simp [preorder, mem_preorder_self]),
    h.part (by simp [preorder, mem_preorder_self])⟩

end Expr

/-! Two elements, of which the second has been asked about. -/

/-- A variable that may be bound, and two that may have any value. -/
def threeVariables : CompileUnit where
  bindings := #[⟨⟨⟨"i", none⟩, none⟩, .range, none, .one .item⟩, ⟨⟨⟨"a", none⟩, none⟩, .parameter, none, .any⟩,
    ⟨⟨⟨"b", none⟩, none⟩, .parameter, none, .any⟩]

/-- The second element in `$a` and the first one in `$b`. -/
def secondAndFirst : Frame := (({} : Frame).bind 1 (.items [.node 3])).bind 2 (.items [.node 0])

/-- The world in which one of the two trees has been asked about. -/
def oneAsked (i : NodeId) : World :=
  { forest := DocumentOrder.twoElements, order := (DocumentOrder.rank DocumentOrder.twoElements i {}).2 }

/-- What a checked expression gives, and what it gives when it is rewritten. -/
def resultsAround (e : Expr) (w : World) : Option (Except Failure (List Item) × Except Failure (List Item)) := do
  let x ← ((Typing.check e).run {} threeVariables).1.toOption
  let y ← x.rewrite? false
  return (x.result {} secondAndFirst w, y.result {} secondAndFirst w)

theorem Settlement.exists_twoElements : ∃ S : Settlement, S.context = {} ∧ S.setting.HasContext S.context ∧
    S.setting.HasFrame secondAndFirst ∧ S.Good (oneAsked 3) := by
  have hsound := DocumentOrder.isSound_twoElements
  obtain ⟨S, hinside, hcontext, hgood⟩ :=
    exists_settlement hsound ((DocumentOrder.follows_empty _).rank hsound 3) (by decide) {}
  have hnode {i : NodeId} (hi : i < 4) : S.setting.HasValue (.items [.node i]) := by
    refine List.forall_mem_singleton.2 (Exchange.has_node.2 ?_)
    change S.inside i
    rw [hinside]
    exact hi
  have hempty : S.setting.HasFrame {} := S.setting.hasFrame_empty
  exact ⟨S, hcontext, hcontext ▸ S.setting.hasContext_empty, (hempty.bind (hnode (by decide))).bind (hnode (by decide)), hgood⟩

end XPath
