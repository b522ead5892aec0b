import XPath.Proofs.ExchangedOperators

/-!
No call of a built-in function notices an exchange. What `id` and `key` find is in the tree that they are
asked to search.
-/
namespace XPath

namespace Setting
open Exchange Likeness
variable {S : Setting}

/-- The arguments and the frame of a call stay inside. -/
structure HasSite (S : Setting) (s : Call.Site) : Prop where
  args : ∀ a ∈ s.args, S.Carries a s.frame
  frame : S.HasFrame s.frame

namespace HasSite
open Call Call.Site
variable {s : Call.Site} {c : DynamicContext}

theorem arg (h : S.HasSite s) (n : ℕ) : S.Carries (s.arg n) s.frame := by
  rw [Site.arg, List.getD_eq_getElem?_getD]
  cases ha : s.args[n]? with
  | some a => exact h.args a (List.mem_of_getElem? ha)
  | none => exact .ofItems _ yields_empty

theorem list (h : S.HasSite s) (n : ℕ) : S.Runs (s.list n) (∀ x ∈ ·, S.Has x) := (h.arg n).toList

theorem text (h : S.HasSite s) (n : ℕ) : S.Runs (s.text n) fun _ => True := (h.arg n).text

theorem texts (h : S.HasSite s) (n : ℕ) : S.Runs (s.texts n) fun _ => True :=
  (h.arg n).values.toList.gives fun _ _ => trivial

theorem subject (h : S.HasSite s) : S.Runs s.subject (∀ x, · = some x → S.Has x) := by
  unfold Site.subject
  split
  · exact h.frame.contextItem.map fun x hx y hy => Option.some.inj hy ▸ hx
  · split
    · next a ha => exact (h.args a (List.mem_of_getLast? ha)).item
    · exact runs_pure (by rintro _ ⟨⟩)

theorem subjectText (h : S.HasSite s) : S.Runs s.subjectText fun _ => True := by
  refine h.subject.bind fun o ho => runs_read ?_ trivial
  cases o with
  | none => rfl
  | some x => simp only [Option.map_some, text_eq (ho x rfl)]

theorem subjectNode (h : S.HasSite s) : S.Runs s.subjectNode (∀ i, · = some i → S.inside i) := by
  unfold Site.subjectNode
  split
  · exact h.frame.contextNode.map fun i hi j hj => Option.some.inj hj ▸ hi
  · exact h.subject.bind fun o ho => Runs.optionMapM fun x hx => runs_require (ho x hx)

theorem target (h : S.HasSite s) (n : ℕ) : S.Runs (s.target n) S.inside := by
  unfold Site.target
  split
  · next a ha =>
    split
    · exact h.frame.contextNode
    · refine (h.args a (List.mem_of_getElem? ha)).item.bind fun o ho => runs_require fun i hi => ?_
      obtain ⟨x, hx, hi⟩ := Option.bind_eq_some_iff.1 hi
      exact ho x hx i hi
  · exact h.frame.contextNode

theorem double (h : S.HasSite s) (n : ℕ) : S.Runs (s.double n) fun _ => True :=
  (h.arg n).value?.bind fun _ _ => (runs_require_any _ _).bind fun _ _ => (runs_ofExcept_any _).bind fun _ _ =>
    runs_require_any _ _

theorem window (h : S.HasSite s) : S.Runs s.window fun _ => True := by
  refine (h.double 1).bind fun start _ => ?_
  split
  · exact runs_pure trivial
  · exact (h.double 2).gives fun _ _ => trivial

theorem numbers (h : S.HasSite s) : S.Runs s.numbers fun _ => True := by
  refine ((h.arg 0).values.mapM (S := fun _ => True) fun v _ => ?_).toList.imp fun _ _ => trivial
  refine (runs_ofExcept_any _).bind fun w _ => ?_
  split
  · exact runs_pure trivial
  · exact runs_fail _

/-! Results that are atomic values. -/

theorem has_optional (o : Option Atomic) : ∀ x ∈ Site.optional o, S.Has x := by
  intro x hx
  obtain ⟨v, _, rfl⟩ := Option.map_eq_some_iff.1 (Option.mem_toList.1 hx)
  exact has_atomic v

theorem has_singleton (v : Atomic) : ∀ x ∈ [Item.atomic v], S.Has x := List.forall_mem_singleton.2 (has_atomic v)

theorem has_values (vs : List Atomic) : ∀ x ∈ vs.map Item.atomic, S.Has x := by
  intro x hx
  obtain ⟨v, _, rfl⟩ := List.mem_map.1 hx
  exact has_atomic v

theorem sum (h : S.HasSite s) : S.Runs s.sum (∀ x ∈ ·, S.Has x) := by
  refine h.numbers.bind fun vs _ => ?_
  split
  · exact (runs_ofExcept_any _).gives fun _ _ => has_optional _
  · split
    · exact runs_pure (has_singleton _)
    · exact h.list 1

theorem average (h : S.HasSite s) : S.Runs s.average (∀ x ∈ ·, S.Has x) := by
  refine h.numbers.bind fun vs _ => ?_
  split
  · exact (runs_ofExcept_any _).bind fun _ _ => (runs_ofExcept_any _).gives fun _ _ => has_optional _
  · exact runs_pure (List.forall_mem_nil _)

theorem extreme (h : S.HasSite s) (op : ComparisonOp) : S.Runs (s.extreme op) (∀ x ∈ ·, S.Has x) := by
  refine ((h.arg 0).values.forIn_any none fun best v _ => ?_).gives fun _ _ => has_optional _
  refine (runs_ofExcept_any _).bind fun w _ => ?_
  split
  · exact runs_pure trivial
  · split
    · exact runs_pure trivial
    · exact (runs_ofExcept_any _).gives fun _ _ => trivial

theorem distinct (h : S.HasSite s) : S.Runs s.distinct (∀ x ∈ ·, S.Has x) :=
  ((h.arg 0).values.forIn_any [] fun _ _ _ => runs_pure trivial).gives fun _ _ => has_values _

/-! Results that have nodes. -/

theorem subsequence (h : S.HasSite s) : S.Runs s.subsequence (∀ x ∈ ·, S.Has x) := by
  refine h.window.bind fun w _ => ?_
  have hfound := (h.arg 0).items.forIn (fun found : List Item × ℕ => ∀ x ∈ found.1, S.Has x)
    (b := ([], 1)) (f := fun found x =>
      if w.contains found.2 then return .yield (x :: found.1, found.2 + 1)
      else if w.reached found.2 then return .done (found.1, found.2)
      else return .yield (found.1, found.2 + 1)) (List.forall_mem_nil _) fun found x hfound hx => ?_
  · exact hfound.gives fun found hall x hx => hall x (List.mem_reverse.1 hx)
  · split
    · exact runs_pure (List.forall_mem_cons.2 ⟨hx, hfound⟩)
    · split <;> exact runs_pure hfound

theorem byId (h : S.HasSite s) : S.Runs s.byId (∀ x ∈ ·, S.Has x) := by
  refine (h.texts 0).bind fun _ _ => (h.target 1).bind fun i hi => ?_
  refine runs_forest (by simp only [root?_eq hi]) ?_
  refine (runs_require (Q := fun root => S.before.root? i = some root) fun root hroot => ?_).gives
    fun root hroot x hx => ?_
  · exact (Option.mem_filter_iff.1 hroot).1
  · obtain ⟨u, hu, rfl⟩ := List.mem_map.1 hx
    exact has_node.2 (inside_of_root? hi hroot (List.mem_filter.1 hu).1)

theorem byKey (h : S.HasSite s) (hc : S.HasContext c) : S.Runs (s.byKey c) (∀ x ∈ ·, S.Has x) := by
  refine (h.text 0).bind fun _ _ => (runs_require_any _ _).bind fun name _ => ?_
  refine (runs_require (Q := KeyResolver.SearchesBelow) hc.keys).bind fun resolve hresolve => ?_
  refine (h.target 2).bind fun i hi => (h.texts 1).bind fun values _ => ?_
  -- The root that is searched is inside with the node whose tree it is the root of.
  have hroot : S.inside (((S.before.root? i).map (·.id)).getD i) := by
    cases hr : S.before.root? i with
    | none => exact hi
    | some r => exact inside_of_root? hi hr (Tree.mem_preorder_self r)
  refine runs_forest (by simp only [root?_eq hi, hresolve.same _ _ _ _ _ (node?_eq hroot)]) ?_
  have hfound (v : String) :
      S.Runs (Eval.ofExcept (resolve S.before name v (((S.before.root? i).map (·.id)).getD i)))
        (∀ j ∈ ·, S.inside j) := by
    refine runs_ofExcept fun js hjs j hj => ?_
    obtain ⟨t, ht, hjt⟩ := hresolve.below _ _ _ _ _ hjs j hj
    obtain ⟨u, hu, rfl⟩ := List.mem_map.1 hjt
    exact S.closed hroot (List.mem_of_mem_head? ht) hu
  refine (Runs.listMapM fun v _ => hfound v).bind fun jss hjss => ?_
  have hall : ∀ j ∈ jss.flatten, S.inside j := by
    intro j hj
    obtain ⟨js, hjs, hj⟩ := List.mem_flatten.1 hj
    exact hjss js hjs j hj
  exact (runs_sort hall).gives fun _ => has_nodes

theorem runs_lexicalName (us : List Tree) : S.Runs (lexicalName us) fun _ => True := by
  unfold lexicalName
  split
  · exact runs_require_any _ _
  · exact runs_pure trivial

private theorem texts₂ (h : S.HasSite s) (g : String → String → Bool) :
    S.Runs (do return boolean (g (← s.text 0) (← s.text 1))) (∀ x ∈ ·, S.Has x) :=
  (h.text 0).bind fun _ _ => (h.text 1).gives fun _ _ => has_singleton _

theorem call (h : S.HasSite s) (hc : S.HasContext c) (g : Builtin) : S.Runs (s.call c g) (∀ x ∈ ·, S.Has x) := by
  cases g with
  | «true» => exact runs_pure (has_singleton _)
  | «false» => exact runs_pure (has_singleton _)
  | boolean => exact (h.arg 0).truth.gives fun _ _ => has_singleton _
  | not => exact (h.arg 0).truth.gives fun _ _ => has_singleton _
  | position => exact (runs_require_any _ _).gives fun _ _ => has_singleton _
  | last => exact (runs_require_any _ _).gives fun _ _ => has_singleton _
  | count =>
    exact ((h.arg 0).items.forIn_any 0 fun _ _ _ => runs_pure trivial).gives fun _ _ => has_singleton _
  | empty => exact (h.arg 0).items.head?.gives fun _ _ => has_singleton _
  | «exists» => exact (h.arg 0).items.head?.gives fun _ _ => has_singleton _
  | string => exact h.subjectText.gives fun _ _ => has_singleton _
  | data =>
    simp only [Site.call]
    split
    · exact h.frame.contextItem.bind fun x hx => (runs_value hx).gives fun _ _ => has_singleton _
    · exact (h.arg 0).values.toList.gives fun _ _ => has_values _
  | number =>
    exact h.subject.bind fun o ho => (Runs.optionMapM fun x hx => runs_value (ho x hx)).gives
      fun _ _ => has_singleton _
  | sum => exact h.sum
  | avg => exact h.average
  | min => exact h.extreme _
  | max => exact h.extreme _
  | concat =>
    exact (Runs.listMapM (S := fun _ => True) fun a ha => (h.args a ha).text).gives fun _ _ => has_singleton _
  | stringLength => exact h.subjectText.gives fun _ _ => has_singleton _
  | contains => exact h.texts₂ fun a b => occurs b.toList a.toList
  | startsWith => exact h.texts₂ fun a b => b.toList.isPrefixOf a.toList
  | endsWith => exact h.texts₂ fun a b => b.toList.isSuffixOf a.toList
  | stringJoin => exact (h.text 1).bind fun _ _ => (h.texts 0).gives fun _ _ => has_singleton _
  | substring => exact (h.text 0).bind fun _ _ => h.window.gives fun _ _ => has_singleton _
  | upperCase => exact (h.text 0).gives fun _ _ => has_singleton _
  | lowerCase => exact (h.text 0).gives fun _ _ => has_singleton _
  | normalizeSpace => exact h.subjectText.gives fun _ _ => has_singleton _
  | name =>
    refine h.subjectNode.bind fun o ho => runs_forest ?_ ((runs_lexicalName _).gives fun _ _ => has_singleton _)
    cases o with
    | none => rfl
    | some i => simp only [Option.map_some, S.chain (ho i rfl)]
  | localName =>
    refine h.subjectNode.bind fun o ho => runs_forest ?_ (runs_pure (has_singleton _))
    cases o with
    | none => rfl
    | some i => simp only [Option.bind_some, content?_eq (ho i rfl)]
  | root =>
    refine h.subjectNode.bind fun o ho => runs_forest ?_ (runs_pure fun x hx => ?_)
    · cases o with
      | none => rfl
      | some i => simp only [Option.bind_some, root?_eq (ho i rfl)]
    · obtain ⟨i, rfl, hi⟩ := Option.bind_eq_some_iff.1 (Option.mem_toList.1 hx)
      obtain ⟨r, hr, rfl⟩ := Option.map_eq_some_iff.1 hi
      exact has_node.2 (inside_of_root? (ho i rfl) hr (Tree.mem_preorder_self r))
  | subsequence => exact h.subsequence
  | reverse => exact (h.list 0).gives fun xs hxs x hx => hxs x (List.mem_reverse.1 hx)
  | distinctValues => exact h.distinct
  | head => exact (h.arg 0).items.head?.gives fun o ho x hx => ho x (Option.mem_toList.1 hx)
  | tail => exact (h.list 0).gives fun xs hxs x hx => hxs x (List.mem_of_mem_drop hx)
  | exactlyOne =>
    refine (h.list 0).bind fun xs hxs => ?_
    split
    · exact runs_pure hxs
    · exact runs_fail _
  | zeroOrOne =>
    refine (h.list 0).bind fun xs hxs => ?_
    split
    · exact runs_pure hxs
    · exact runs_fail _
  | id => exact h.byId
  | key => exact h.byKey hc
  | currentGroup => exact runs_fail _
  | regexGroup => exact runs_pure (has_singleton _)
  | error => exact runs_fail _

end HasSite

/-! Operators with any number of operands. -/

variable {f : Frame}

theorem carries_nary (n : Note) (op : NaryOp) {args : List Ways} {c : DynamicContext} (hf : S.HasFrame f)
    (hc : S.HasContext c) (hargs : ∀ a ∈ args, S.Carries a f) : S.Carries (op.ways c n args) f := by
  cases op with
  | block =>
    refine .ofItemsAndPush n (yields_concat fun src hsrc => ?_)
      ((Runs.listMapM fun a ha => (hargs a ha).push).gives fun xss hxss x hx => ?_)
    · obtain ⟨a, ha, rfl⟩ := List.mem_map.1 hsrc
      exact (hargs a ha).items
    · obtain ⟨xs, hxs, hx⟩ := List.mem_flatten.1 hx
      exact hxss xs hxs x hx
  | call r =>
    cases r with
    | builtin g => exact .ofList n (HasSite.call ⟨hargs, hf⟩ hc g)
    | unresolved name => exact .ofItems n (yields_fail _)

end Setting
end XPath
