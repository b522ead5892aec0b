import XPath.Proofs.MeteredOperators

/-!
How often calls of the built-in functions start what is put off. A call evaluates each of its arguments once at most, so
that it adds no more than all of them together.
-/
namespace XPath

namespace Meter
variable {M : Meter} {bs : List ℕ∞}

/-- The arguments of a call add so many starts at most, one after the other. -/
def HasSite (M : Meter) (bs : List ℕ∞) (s : Call.Site) : Prop :=
  List.Forall₂ (fun b a => M.Bounds b a s.frame) bs s.args

/-- What the argument at a place may add. -/
def share (bs : List ℕ∞) (n : ℕ) : ℕ∞ := bs.getD n 0

theorem shares_three_le (bs : List ℕ∞) : share bs 0 + (share bs 1 + share bs 2) ≤ bs.sum := by
  match bs with
  | [] => simp [share]
  | [b] => simp [share]
  | [b, c] => simp [share]
  | b :: c :: d :: bs =>
    simp only [share, List.getD_cons_zero, List.getD_cons_succ, List.sum_cons]
    gcongr
    exact le_self_add

theorem shares_two_le (bs : List ℕ∞) : share bs 0 + share bs 1 ≤ bs.sum :=
  (add_le_add le_rfl le_self_add).trans (shares_three_le bs)

theorem shares_one_le (bs : List ℕ∞) : share bs 0 ≤ bs.sum := le_self_add.trans (shares_two_le bs)

namespace HasSite
open Call Call.Site
variable {s : Call.Site} {c : DynamicContext}

theorem arg (h : M.HasSite bs s) (n : ℕ) : M.Bounds (share bs n) (s.arg n) s.frame := by
  obtain ⟨args, f, implicit⟩ := s
  unfold Site.arg share
  replace h : List.Forall₂ (fun b a => M.Bounds b a f) bs args := h
  dsimp only
  induction h generalizing n with
  | nil => exact .nothing
  | cons ha _ ih =>
    cases n with
    | zero => exact ha
    | succ n => exact ih n

theorem of_mem (h : M.HasSite bs s) {a : Ways} (ha : a ∈ s.args) : M.Bounds bs.sum a s.frame := by
  obtain ⟨n, hn, rfl⟩ := List.getElem_of_mem ha
  have hshare : share bs n ≤ bs.sum := by
    unfold share
    rw [List.getD_eq_getElem?_getD, List.getElem?_eq_getElem (h.length_eq ▸ hn)]
    exact List.single_le_sum (fun _ _ => zero_le) _ (List.getElem_mem _)
  have harg := (h.arg n).of_le hshare
  unfold Site.arg at harg
  rwa [List.getD_eq_getElem?_getD, List.getElem?_eq_getElem hn] at harg

theorem list (h : M.HasSite bs s) (n : ℕ) : M.Runs (share bs n) (s.list n) fun _ => True := (h.arg n).toList

theorem text (h : M.HasSite bs s) (n : ℕ) : M.Runs (share bs n) (s.text n) fun _ => True := (h.arg n).text

theorem texts (h : M.HasSite bs s) (n : ℕ) : M.Runs (share bs n) (s.texts n) fun _ => True :=
  (h.arg n).values.toList.gives fun _ _ => trivial

theorem subject (h : M.HasSite bs s) : M.Runs bs.sum s.subject fun _ => True := by
  unfold Site.subject
  split
  · exact runs_contextItem.map fun _ _ => trivial
  · split
    · next a ha => exact (h.of_mem (List.mem_of_getLast? ha)).item
    · exact runs_pure trivial

theorem subjectText (h : M.HasSite bs s) : M.Runs bs.sum s.subjectText fun _ => True :=
  h.subject.then fun _ _ => runs_forest.gives fun _ _ => trivial

theorem subjectNode (h : M.HasSite bs s) : M.Runs bs.sum s.subjectNode fun _ => True := by
  unfold Site.subjectNode
  split
  · exact runs_contextNode.map fun _ _ => trivial
  · exact h.subject.then fun _ _ => Runs.optionMapM fun _ => runs_require_any _ _

theorem target (h : M.HasSite bs s) (n : ℕ) : M.Runs (share bs n) (s.target n) fun _ => True := by
  have harg := h.arg n
  unfold Site.arg at harg
  rw [List.getD_eq_getElem?_getD] at harg
  unfold Site.target
  split
  · next a ha =>
    rw [ha, Option.getD_some] at harg
    split
    · exact runs_contextNode
    · exact harg.item.then fun _ _ => runs_require_any _ _
  · exact runs_contextNode

theorem double (h : M.HasSite bs s) (n : ℕ) : M.Runs (share bs n) (s.double n) fun _ => True :=
  (h.arg n).value?.then fun _ _ => (runs_require_any _ _).first fun _ _ => (runs_ofExcept _).first fun _ _ =>
    runs_require_any _ _

theorem window (h : M.HasSite bs s) : M.Runs (share bs 1 + share bs 2) s.window fun _ => True := by
  refine (h.double 1).bind fun start _ => ?_
  split
  · exact runs_pure trivial
  · exact (h.double 2).gives fun _ _ => trivial

theorem numbers (h : M.HasSite bs s) : M.Runs (share bs 0) s.numbers fun _ => True := by
  refine ((h.arg 0).values.reads (Q := fun _ => True) fun v => (runs_ofExcept _).first fun w _ => ?_).toList
  split
  · exact runs_pure trivial
  · exact runs_fail _

theorem sum (h : M.HasSite bs s) : M.Runs (share bs 0 + share bs 1) s.sum fun _ => True := by
  refine h.numbers.bind fun vs _ => ?_
  split
  · exact (runs_ofExcept _).gives fun _ _ => trivial
  · split
    · exact runs_pure trivial
    · exact h.list 1

theorem average (h : M.HasSite bs s) : M.Runs (share bs 0) s.average fun _ => True := by
  refine h.numbers.then fun vs _ => ?_
  split
  · exact (runs_ofExcept _).first fun _ _ => (runs_ofExcept _).gives fun _ _ => trivial
  · exact runs_pure trivial

theorem extreme (h : M.HasSite bs s) (op : ComparisonOp) : M.Runs (share bs 0) (s.extreme op) fun _ => True := by
  refine ((h.arg 0).values.folds (fun best v => (runs_ofExcept _).first fun w _ => ?_) none).gives fun _ _ => trivial
  split
  · exact runs_pure trivial
  · split
    · exact runs_pure trivial
    · exact (runs_ofExcept _).gives fun _ _ => trivial

theorem distinct (h : M.HasSite bs s) : M.Runs (share bs 0) s.distinct fun _ => True :=
  ((h.arg 0).values.folds (fun _ _ => runs_pure trivial) []).gives fun _ _ => trivial

theorem subsequence (h : M.HasSite bs s) :
    M.Runs (share bs 0 + (share bs 1 + share bs 2)) s.subsequence fun _ => True := by
  rw [add_comm]
  refine h.window.bind fun w _ => ?_
  have hfound := (h.arg 0).items.folds (f := fun (found : List Item × ℕ) x =>
    if w.contains found.2 then return .yield (x :: found.1, found.2 + 1)
    else if w.reached found.2 then return .done (found.1, found.2)
    else return .yield (found.1, found.2 + 1)) (fun found x => ?_) ([], 1)
  · exact hfound.gives fun _ _ => trivial
  · split
    · exact runs_pure trivial
    · split <;> exact runs_pure trivial

theorem byId (h : M.HasSite bs s) : M.Runs (share bs 0 + share bs 1) s.byId fun _ => True :=
  (h.texts 0).bind fun _ _ => (h.target 1).then fun _ _ => runs_forest.first fun _ _ =>
    (runs_require_any _ _).gives fun _ _ => trivial

theorem byKey (h : M.HasSite bs s) :
    M.Runs (share bs 0 + (share bs 1 + share bs 2)) (s.byKey c) fun _ => True := by
  rw [add_comm (share bs 1)]
  refine (h.text 0).bind fun _ _ => (runs_require_any _ _).first fun name _ => (runs_require_any _ _).first
    fun resolve _ => (h.target 2).bind fun i _ => (h.texts 1).then fun values _ => runs_forest.first fun t _ => ?_
  refine (Runs.of_le (Runs.listMapM (b := 0) fun v _ => runs_ofExcept _) (mul_zero ⊤).le).first fun found _ => ?_
  exact (runs_ordering _).gives fun _ _ => trivial

theorem runs_lexicalName (us : List Tree) {m : ℕ∞} : M.Runs m (lexicalName us) fun _ => True := by
  unfold lexicalName
  split
  · exact runs_require_any _ _
  · exact runs_pure trivial

private theorem compares (h : M.HasSite bs s) (g : String → String → Bool) :
    M.Runs bs.sum (do return boolean (g (← s.text 0) (← s.text 1))) fun _ => True :=
  ((h.text 0).bind fun _ _ => (h.text 1).gives fun _ _ => trivial).of_le (shares_two_le bs)

theorem call (h : M.HasSite bs s) (g : Builtin) : M.Runs bs.sum (s.call c g) fun _ => True := by
  cases g with
  | «true» => exact runs_pure trivial
  | «false» => exact runs_pure trivial
  | boolean => exact ((h.arg 0).truth.gives fun _ _ => trivial).of_le (shares_one_le bs)
  | not => exact ((h.arg 0).truth.gives fun _ _ => trivial).of_le (shares_one_le bs)
  | position => exact (runs_require_any _ _).gives fun _ _ => trivial
  | last => exact (runs_require_any _ _).gives fun _ _ => trivial
  | count => exact (((h.arg 0).items.folds (fun _ _ => runs_pure trivial) 0).gives fun _ _ => trivial).of_le (shares_one_le bs)
  | empty => exact ((h.arg 0).items.head?.gives fun _ _ => trivial).of_le (shares_one_le bs)
  | «exists» => exact ((h.arg 0).items.head?.gives fun _ _ => trivial).of_le (shares_one_le bs)
  | string => exact h.subjectText.gives fun _ _ => trivial
  | data =>
    simp only [Site.call]
    split
    · exact runs_contextItem.first fun x _ => (runs_value x).gives fun _ _ => trivial
    · exact ((h.arg 0).values.toList.gives fun _ _ => trivial).of_le (shares_one_le bs)
  | number => exact h.subject.then fun _ _ => (Runs.optionMapM runs_value).gives fun _ _ => trivial
  | sum => exact h.sum.of_le (shares_two_le bs)
  | avg => exact h.average.of_le (shares_one_le bs)
  | min => exact (h.extreme _).of_le (shares_one_le bs)
  | max => exact (h.extreme _).of_le (shares_one_le bs)
  | concat => exact (Runs.listMapM_sum (h.imp fun _ _ ha => ha.text)).gives fun _ _ => trivial
  | stringLength => exact h.subjectText.gives fun _ _ => trivial
  | contains => exact h.compares fun a b => occurs b.toList a.toList
  | startsWith => exact h.compares fun a b => b.toList.isPrefixOf a.toList
  | endsWith => exact h.compares fun a b => b.toList.isSuffixOf a.toList
  | stringJoin =>
    refine Runs.of_le ?_ ((add_comm _ _).trans_le (shares_two_le bs))
    exact (h.text 1).bind fun _ _ => (h.texts 0).gives fun _ _ => trivial
  | substring =>
    exact ((h.text 0).bind fun _ _ => h.window.gives fun _ _ => trivial).of_le (shares_three_le bs)
  | upperCase => exact ((h.text 0).gives fun _ _ => trivial).of_le (shares_one_le bs)
  | lowerCase => exact ((h.text 0).gives fun _ _ => trivial).of_le (shares_one_le bs)
  | normalizeSpace => exact h.subjectText.gives fun _ _ => trivial
  | name =>
    exact h.subjectNode.then fun _ _ => runs_forest.first fun _ _ => (runs_lexicalName _).gives fun _ _ => trivial
  | localName => exact h.subjectNode.then fun _ _ => runs_forest.gives fun _ _ => trivial
  | root => exact h.subjectNode.then fun _ _ => runs_forest.gives fun _ _ => trivial
  | subsequence => exact h.subsequence.of_le (shares_three_le bs)
  | reverse => exact ((h.list 0).gives fun _ _ => trivial).of_le (shares_one_le bs)
  | distinctValues => exact h.distinct.of_le (shares_one_le bs)
  | head => exact ((h.arg 0).items.head?.gives fun _ _ => trivial).of_le (shares_one_le bs)
  | tail => exact ((h.list 0).gives fun _ _ => trivial).of_le (shares_one_le bs)
  | exactlyOne =>
    refine ((h.list 0).then fun xs _ => ?_).of_le (shares_one_le bs)
    split
    · exact runs_pure trivial
    · exact runs_fail _
  | zeroOrOne =>
    refine ((h.list 0).then fun xs _ => ?_).of_le (shares_one_le bs)
    split
    · exact runs_pure trivial
    · exact runs_fail _
  | id => exact h.byId.of_le (shares_two_le bs)
  | key => exact h.byKey.of_le (shares_three_le bs)
  | currentGroup => exact runs_fail _
  | regexGroup => exact runs_pure trivial
  | error => exact runs_fail _

end HasSite

/-- An operator with any number of operands adds what they add together. -/
theorem bounds_nary (n : Note) (op : NaryOp) (c : DynamicContext) {args : List Ways} {f : Frame}
    (h : List.Forall₂ (fun b a => M.Bounds b a f) bs args) : M.Bounds bs.sum (op.ways c n args) f := by
  cases op with
  | block =>
    refine .ofItemsAndPush n (yields_concat ?_) ((Runs.listMapM_sum (h.imp fun _ _ ha => ha.push)).gives
      fun _ _ => trivial)
    exact List.forall₂_map_right_iff.2 (h.imp fun _ _ ha => ha.items)
  | call r =>
    cases r with
    | builtin g =>
      have hcall := HasSite.call (s := ⟨args, f, g.usesContext args.length⟩) (c := c) h g
      exact .ofItems n (yields_list (g := id) hcall)
    | unresolved name => exact .ofItems n (yields_fail _)

end Meter
end XPath
