import XPath.Documents
import XPath.Evaluation.Operators
import Mathlib.Data.List.Pairwise

/-!
How trees are laid out: below an element no attribute stands after a child, and no two attributes have the
same name. Documents are read like that, and elements are made like that.
-/
namespace XPath

/-- Whether one node may stand before another one in a list of parts. -/
def Content.MayPrecede (c d : Content) : Prop :=
  d.isAttribute → c.isOrdinary = false ∧ (c.isAttribute → c.name? ≠ d.name?)

theorem Content.mayPrecede_of_not {c d : Content} (h : d.isAttribute = false) : c.MayPrecede d :=
  fun hd => absurd hd (by simp [h])

theorem Content.not_attribute_of_ordinary {c : Content} (h : c.isOrdinary) : c.isAttribute = false := by
  cases c <;> first | rfl | cases h

namespace Tree

/-- The parts of an element are in order. -/
def InOrder (ts : List Tree) : Prop := ts.Pairwise fun t u => t.content.MayPrecede u.content

/-- The parts of every node are in order. -/
inductive IsLaid : Tree → Prop where
  | node {i c ts} : InOrder ts → (∀ t ∈ ts, t.IsLaid) → IsLaid (node i c ts)

namespace IsLaid

theorem parts {i : NodeId} {c : Content} {ts : List Tree} (h : (Tree.node i c ts).IsLaid) :
    InOrder ts ∧ ∀ t ∈ ts, t.IsLaid := by
  cases h with
  | node horder hts => exact ⟨horder, hts⟩

theorem leaf (i : NodeId) (c : Content) : (Tree.node i c []).IsLaid := .node .nil nofun

theorem withContent {i : NodeId} {c d : Content} {ts : List Tree} (h : (Tree.node i c ts).IsLaid) :
    (Tree.node i d ts).IsLaid :=
  .node h.parts.1 h.parts.2

theorem children {t : Tree} (h : t.IsLaid) : ∀ u ∈ t.children, u.IsLaid := by
  cases h with
  | node _ hts => exact fun u hu => hts u (List.mem_filter.1 hu).1

end IsLaid

theorem renumber_content (t : Tree) (n : NodeId) : (t.renumber n).1.content = t.content := by
  cases t
  rfl

theorem renumberList_contents (ts : List Tree) (n : NodeId) :
    (renumberList n ts).1.map content = ts.map content := by
  induction ts generalizing n with
  | nil => rfl
  | cons t ts ih =>
    rw [renumberList, List.map_cons, List.map_cons, ih, renumber_content]

theorem inOrder_iff {ts : List Tree} : InOrder ts ↔ (ts.map content).Pairwise Content.MayPrecede :=
  List.pairwise_map.symm

mutual

theorem renumber_isLaid (t : Tree) (n : NodeId) (h : t.IsLaid) : (t.renumber n).1.IsLaid := by
  match t with
  | .node i c ts =>
    obtain ⟨horder, hts⟩ := h.parts
    refine .node ?_ (renumberList_isLaid ts (n + 1) hts)
    rw [inOrder_iff, renumberList_contents]
    exact inOrder_iff.1 horder

theorem renumberList_isLaid (ts : List Tree) (n : NodeId) (h : ∀ t ∈ ts, t.IsLaid) :
    ∀ t ∈ (renumberList n ts).1, t.IsLaid := by
  match ts with
  | [] => nofun
  | t :: ts =>
    obtain ⟨ht, hts⟩ := List.forall_mem_cons.1 h
    exact List.forall_mem_cons.2 ⟨renumber_isLaid t n ht, renumberList_isLaid ts _ hts⟩

end

mutual

theorem isLaid_of_chain? {i : NodeId} (t : Tree) (h : t.IsLaid) {us : List Tree}
    (hus : t.chain? i = some us) : ∀ u ∈ us, u.IsLaid := by
  match t with
  | .node j c ts =>
    rw [chain?] at hus
    split at hus
    · cases hus
      exact List.forall_mem_singleton.2 h
    · obtain ⟨vs, hvs, rfl⟩ := Option.map_eq_some_iff.1 hus
      intro u hu
      obtain hu | hu := List.mem_append.1 hu
      · exact isLaid_of_chainList? ts h.parts.2 hvs u hu
      · exact List.mem_singleton.1 hu ▸ h

theorem isLaid_of_chainList? {i : NodeId} (ts : List Tree) (h : ∀ t ∈ ts, t.IsLaid) {us : List Tree}
    (hus : chainList? i ts = some us) : ∀ u ∈ us, u.IsLaid := by
  match ts with
  | [] => cases hus
  | t :: ts =>
    obtain ⟨ht, hts⟩ := List.forall_mem_cons.1 h
    rw [chainList?] at hus
    cases hfound : t.chain? i with
    | some vs =>
      rw [hfound] at hus
      cases hus
      exact isLaid_of_chain? t ht hfound
    | none =>
      rw [hfound] at hus
      exact isLaid_of_chainList? ts hts hus

end

/-- Whatever is found among trees that are laid out. -/
theorem isLaid_of_mem_chain {i : NodeId} {ts : List Tree} (h : ∀ t ∈ ts, t.IsLaid) :
    ∀ u ∈ (chainList? i ts).getD [], u.IsLaid := by
  cases hus : chainList? i ts with
  | none => nofun
  | some us => exact isLaid_of_chainList? ts h hus

end Tree

/-- No two attributes have the same name. -/
def Tree.HasDistinctAttributes (t : Tree) : Prop := (t.attributes.map (·.content.name?)).Nodup

theorem Tree.IsLaid.attributes {t : Tree} (h : t.IsLaid) : t.HasDistinctAttributes := by
  cases h with
  | node horder _ =>
    refine List.pairwise_map.2 ((horder.filter _).imp_of_mem fun hu hv hprecede => ?_)
    exact (hprecede (List.mem_filter.1 hv).2).2 (List.mem_filter.1 hu).2

/-- Every tree of a forest is laid out. -/
def Forest.IsLaid (f : Forest) : Prop := ∀ t ∈ f.trees, t.IsLaid

theorem Forest.IsLaid.add {f : Forest} {t : Tree} (h : f.IsLaid) (ht : t.IsLaid) : (f.add t).2.IsLaid :=
  List.forall_mem_cons.2 ⟨t.renumber_isLaid f.next ht, h⟩

namespace Construction
open XPath.Tree

theorem mem_appendText {t u : Tree} {s : String} {ts : List Tree} (ht : t.content.isAttribute = false)
    (hu : u ∈ appendText t s ts) (hattr : u.content.isAttribute) : u ∈ ts := by
  fun_induction appendText t s ts with
  | case1 =>
    obtain rfl := List.mem_singleton.1 hu
    exact absurd hattr (by simp [ht])
  | case2 i s' us =>
    obtain rfl := List.mem_singleton.1 hu
    cases hattr
  | case3 v vs _ ih =>
    obtain rfl | hu := List.mem_cons.1 hu
    · exact List.mem_cons_self
    · exact List.mem_cons_of_mem _ (ih hu)

theorem inOrder_appendText {t : Tree} (s : String) {ts : List Tree}
    (ht : t.content.isAttribute = false) (h : InOrder ts) : InOrder (appendText t s ts) := by
  fun_induction appendText t s ts with
  | case1 => exact List.pairwise_singleton _ _
  | case2 i s' us => exact List.pairwise_singleton _ _
  | case3 v vs _ ih =>
    obtain ⟨hv, hvs⟩ := List.pairwise_cons.1 h
    exact List.pairwise_cons.2 ⟨fun u hu hattr => hv u (mem_appendText ht hu hattr) hattr, ih hvs⟩

theorem isLaid_appendText {t : Tree} (s : String) {ts : List Tree} (ht : t.IsLaid)
    (h : ∀ u ∈ ts, u.IsLaid) : ∀ u ∈ appendText t s ts, u.IsLaid := by
  fun_induction appendText t s ts with
  | case1 => exact List.forall_mem_singleton.2 ht
  | case2 i s' us => exact List.forall_mem_singleton.2 (h _ List.mem_cons_self).withContent
  | case3 v vs _ ih =>
    obtain ⟨hv, hvs⟩ := List.forall_mem_cons.1 h
    exact List.forall_mem_cons.2 ⟨hv, ih hvs⟩

/-- An attribute takes the place of the one of its name, or comes after the other attributes. -/
theorem mem_putAttribute {t u : Tree} {name : NodeName} {value : String} {ts : List Tree}
    (ht : t.content = .attr name value) (hu : u ∈ putAttribute t name value ts) :
    u.content.name? = some name ∨ u ∈ ts := by
  fun_induction putAttribute t name value ts with
  | case1 =>
    obtain rfl := List.mem_singleton.1 hu
    exact .inl (by rw [ht]; rfl)
  | case2 i v vs us =>
    obtain rfl | hu := List.mem_cons.1 hu
    · exact .inl rfl
    · exact .inr (List.mem_cons_of_mem _ hu)
  | case3 i n v vs us _ ih =>
    obtain rfl | hu := List.mem_cons.1 hu
    · exact .inr List.mem_cons_self
    · exact (ih hu).imp_right (List.mem_cons_of_mem _)
  | case4 i p v vs us ih =>
    obtain rfl | hu := List.mem_cons.1 hu
    · exact .inr List.mem_cons_self
    · exact (ih hu).imp_right (List.mem_cons_of_mem _)
  | case5 us =>
    obtain rfl | hu := List.mem_cons.1 hu
    · exact .inl (by rw [ht]; rfl)
    · exact .inr hu

theorem inOrder_putAttribute {t : Tree} {name : NodeName} {value : String} {ts : List Tree}
    (ht : t.content = .attr name value) (h : InOrder ts) :
    InOrder (putAttribute t name value ts) := by
  fun_induction putAttribute t name value ts with
  | case1 => exact List.pairwise_singleton _ _
  | case2 i v vs us =>
    obtain ⟨hfirst, hus⟩ := List.pairwise_cons.1 h
    exact List.pairwise_cons.2 ⟨fun u hu hattr => hfirst u hu hattr, hus⟩
  | case3 i n v vs us hne ih =>
    obtain ⟨hfirst, hus⟩ := List.pairwise_cons.1 h
    refine List.pairwise_cons.2 ⟨fun u hu hattr => ?_, ih hus⟩
    obtain hname | hmem := mem_putAttribute ht hu
    · refine ⟨rfl, fun _ heq => hne ?_⟩
      rw [hname] at heq
      exact Option.some.inj heq
    · exact hfirst u hmem hattr
  | case4 i p v vs us ih =>
    obtain ⟨_, hus⟩ := List.pairwise_cons.1 h
    exact List.pairwise_cons.2 ⟨fun u _ _ => ⟨rfl, nofun⟩, ih hus⟩
  | case5 us hempty hattr hns =>
    refine List.pairwise_cons.2 ⟨fun u hu hu' => ?_, h⟩
    exfalso
    match us with
    | .node i c parts :: vs =>
    have hordinary : c.isOrdinary := by
      cases c with
      | attr n v => exact absurd rfl (hattr i n v parts vs)
      | ns p v => exact absurd rfl (hns i p v parts vs)
      | _ => rfl
    obtain rfl | hu := List.mem_cons.1 hu
    · exact absurd hu' (by simp [Tree.content, Content.not_attribute_of_ordinary hordinary])
    · have hnot : c.isOrdinary = false := ((List.pairwise_cons.1 h).1 u hu hu').1
      exact absurd hordinary (by simp [hnot])

theorem isLaid_putAttribute {t : Tree} {name : NodeName} {value : String} {ts : List Tree}
    (ht : t.IsLaid) (h : ∀ u ∈ ts, u.IsLaid) : ∀ u ∈ putAttribute t name value ts, u.IsLaid := by
  fun_induction putAttribute t name value ts with
  | case1 => exact List.forall_mem_singleton.2 ht
  | case2 i v vs us =>
    obtain ⟨hv, hvs⟩ := List.forall_mem_cons.1 h
    exact List.forall_mem_cons.2 ⟨hv.withContent, hvs⟩
  | case3 i n v vs us _ ih =>
    obtain ⟨hv, hvs⟩ := List.forall_mem_cons.1 h
    exact List.forall_mem_cons.2 ⟨hv, ih hvs⟩
  | case4 i p v vs us ih =>
    obtain ⟨hv, hvs⟩ := List.forall_mem_cons.1 h
    exact List.forall_mem_cons.2 ⟨hv, ih hvs⟩
  | case5 us => exact List.forall_mem_cons.2 ⟨ht, h⟩

theorem inOrder_place (t : Tree) {ts : List Tree} (h : InOrder ts) : InOrder (place t ts) := by
  unfold place
  split
  · next s heq => exact inOrder_appendText s (by rw [heq]; rfl) h
  · next name value heq => exact inOrder_putAttribute heq h
  · next hattr =>
    have hnot : t.content.isAttribute = false := by
      cases hc : t.content with
      | attr n v => exact absurd hc (hattr n v)
      | _ => rfl
    refine List.pairwise_append.2 ⟨h, List.pairwise_singleton _ _, fun u _ v hv => ?_⟩
    exact List.mem_singleton.1 hv ▸ Content.mayPrecede_of_not hnot

theorem isLaid_place {t : Tree} {i : NodeId} {c : Content} {ts : List Tree} (ht : t.IsLaid)
    (h : (Tree.node i c ts).IsLaid) : (Tree.node i c (place t ts)).IsLaid := by
  obtain ⟨horder, hts⟩ := h.parts
  refine .node (inOrder_place t horder) ?_
  unfold place
  split
  · next s _ => exact isLaid_appendText s ht hts
  · exact isLaid_putAttribute ht hts
  · exact List.forall_mem_append.2 ⟨hts, List.forall_mem_singleton.2 ht⟩

/-- The element and the other trees are laid out. -/
structure IsLaid (c : Construction) : Prop where
  element : c.element.IsLaid
  trees : ∀ t ∈ c.forest.trees, t.IsLaid

namespace IsLaid
variable {c : Construction}

theorem start {f : Forest} (h : f.IsLaid) (name : NodeName) : (Construction.start f name).IsLaid :=
  ⟨.leaf _ _, h⟩

theorem finish (h : c.IsLaid) : c.finish.2.IsLaid := List.forall_mem_cons.2 ⟨h.element, h.trees⟩

theorem append {t : Tree} (h : c.IsLaid) (ht : t.IsLaid) : (c.append t).IsLaid := by
  obtain ⟨helement, htrees⟩ := h
  refine ⟨?_, htrees⟩
  unfold Construction.append
  dsimp only
  generalize c.element = e at helement
  cases e with
  | node i d ts => exact isLaid_place ht helement

theorem appendCopy {t : Tree} (h : c.IsLaid) (ht : t.IsLaid) : (c.appendCopy t).IsLaid :=
  append (c := { c with forest := _ }) ⟨h.element, h.trees⟩ (t.renumber_isLaid _ ht)

theorem appendCopies {us : List Tree} (h : c.IsLaid) (hus : ∀ u ∈ us, u.IsLaid) :
    (us.foldl (fun c u => c.appendCopy u) c).IsLaid := by
  induction us generalizing c with
  | nil => exact h
  | cons u us ih =>
    obtain ⟨hu, hus⟩ := List.forall_mem_cons.1 hus
    exact ih (h.appendCopy hu) hus

theorem appendNode (h : c.IsLaid) (i : NodeId) : (c.appendNode i).IsLaid := by
  have hchain : ∀ u ∈ c.chain i, u.IsLaid :=
    isLaid_of_mem_chain (List.forall_mem_cons.2 ⟨h.element, h.trees⟩)
  unfold Construction.appendNode
  split
  · exact h
  · next t ancestors heq =>
    have ht : t.IsLaid := hchain t (by rw [heq]; exact List.mem_cons_self)
    split
    · exact h.appendCopies ht.children
    · exact h
    · split
      · exact append ⟨h.element, fun u hu => h.trees u (List.mem_filter.1 hu).1⟩ ht
      · exact h.appendCopy ht

theorem appendString (h : c.IsLaid) (s : String) : (c.appendString s).IsLaid := by
  unfold Construction.appendString
  split
  · exact h
  · exact append ⟨h.element, h.trees⟩ (.leaf _ _)

theorem appendContent (words : List String) (xs : List Item) (h : c.IsLaid) :
    (c.appendContent words xs).IsLaid := by
  induction xs generalizing words c with
  | nil => exact h.appendString _
  | cons x xs ih =>
    cases x with
    | atomic a => exact ih (a.text :: words) h
    | node i => exact ih [] ((h.appendString _).appendNode i)

end IsLaid

end Construction

namespace Xml
open XPath.Tree

/-- A property of states that no piece of markup breaks. -/
structure State.Lasts (P : State → Prop) : Prop where
  opened : ∀ {s s' n tags}, P s → State.open? s n tags = some s' → P s'
  closed : ∀ {s}, P s → P s.close
  text : ∀ {s} text, P s → P (s.addText text)
  comment : ∀ {s} text, P s → P (s.add (.node 0 (.comment text) []))
  instruction : ∀ {s} target data, P s → P (s.add (.node 0 (.instruction target data) []))

namespace State.Lasts
variable {P : State → Prop} {s s' : State}

theorem take? {m : Markup} (h : Lasts P) (hP : P s) (hs : s.take? m = some s') : P s' := by
  cases m with
  | opening n tags empty =>
    unfold State.take? at hs
    dsimp only at hs
    split at hs
    · cases hs
    · obtain ⟨s₁, hopen, hs⟩ := Option.bind_eq_some_iff.1 hs
      cases hs
      split
      · exact h.closed (h.opened hP hopen)
      · exact h.opened hP hopen
  | closing n =>
    obtain ⟨e, _, hs⟩ := Option.bind_eq_some_iff.1 hs
    obtain ⟨name, _, hs⟩ := Option.bind_eq_some_iff.1 hs
    split at hs
    · cases hs
      exact h.closed hP
    · cases hs
  | text cs raw =>
    unfold State.take? at hs
    dsimp only at hs
    split at hs
    · split at hs
      · cases hs
        exact hP
      · cases hs
    · split at hs
      · cases hs
        exact h.text _ hP
      · obtain ⟨text, _, rfl⟩ := Option.map_eq_some_iff.1 hs
        exact h.text text hP
  | comment cs =>
    cases hs
    exact h.comment _ hP
  | instruction target data =>
    cases hs
    exact h.instruction _ _ hP

theorem foldlM {ms : List Markup} (h : Lasts P) (hP : P s) (hs : ms.foldlM State.take? s = some s') : P s' := by
  induction ms generalizing s with
  | nil =>
    cases hs
    exact hP
  | cons m ms ih =>
    rw [List.foldlM_cons] at hs
    obtain ⟨s₁, htake, hs⟩ := Option.bind_eq_some_iff.1 hs
    exact ih (h.take? hP htake) hs

/-- The property holds when a document has been read. -/
theorem of_read? {text : String} {t : Tree} (h : Lasts P) (hP : P {}) (hread : read? text = some t) :
    ∃ s, P s ∧ t = .node 0 .document s.top.reverse := by
  obtain ⟨ms, _, hread⟩ := Option.bind_eq_some_iff.1 hread
  obtain ⟨s, hs, hread⟩ := Option.bind_eq_some_iff.1 hread
  split at hread
  · cases hread
    exact ⟨s, h.foldlM hP hs, rfl⟩
  · cases hread

end State.Lasts

/-- Parts that are met the latest first. -/
structure LaidBackwards (ts : List Tree) : Prop where
  order : InOrder ts.reverse
  each : ∀ t ∈ ts, t.IsLaid

theorem LaidBackwards.cons {t : Tree} {ts : List Tree} (h : LaidBackwards ts) (ht : t.IsLaid)
    (hattr : t.content.isAttribute = false) : LaidBackwards (t :: ts) where
  order := by
    unfold InOrder
    rw [List.reverse_cons]
    refine List.pairwise_append.2 ⟨h.order, List.pairwise_singleton _ _, fun u _ v hv => ?_⟩
    exact List.mem_singleton.1 hv ▸ Content.mayPrecede_of_not hattr
  each := List.forall_mem_cons.2 ⟨ht, h.each⟩

/-- The open elements and the document are laid out so far. -/
structure State.IsLaid (s : State) : Prop where
  stack : ∀ e ∈ s.stack, LaidBackwards e.parts
  top : LaidBackwards s.top

namespace State.IsLaid
variable {s : State}

theorem add {t : Tree} (h : s.IsLaid) (ht : t.IsLaid) (hattr : t.content.isAttribute = false) :
    (s.add t).IsLaid := by
  unfold State.add
  split
  · exact ⟨h.stack, h.top.cons ht hattr⟩
  · next e es heq =>
    have hstack := h.stack
    rw [heq] at hstack
    obtain ⟨he, hes⟩ := List.forall_mem_cons.1 hstack
    exact ⟨List.forall_mem_cons.2 ⟨he.cons ht hattr, hes⟩, h.top⟩

theorem addText (h : s.IsLaid) (text : String) : (s.addText text).IsLaid := by
  unfold State.addText
  split
  · exact h
  · split
    · next name outer i before us parts es heq =>
      have hstack := h.stack
      rw [heq] at hstack
      obtain ⟨⟨horder, heach⟩, hes⟩ := List.forall_mem_cons.1 hstack
      obtain ⟨hu, hus⟩ := List.forall_mem_cons.1 heach
      refine ⟨List.forall_mem_cons.2 ⟨?_, hes⟩, h.top⟩
      refine LaidBackwards.cons ⟨?_, hus⟩ hu.withContent rfl
      unfold InOrder at horder
      rw [List.reverse_cons] at horder
      exact (List.pairwise_append.1 horder).1
    · exact h.add (.leaf _ _) rfl

theorem close (h : s.IsLaid) : s.close.IsLaid := by
  unfold State.close
  split
  · exact h
  · next e es heq =>
    have hstack := h.stack
    rw [heq] at hstack
    obtain ⟨he, hes⟩ := List.forall_mem_cons.1 hstack
    refine add ⟨hes, h.top⟩ (.node he.order fun t ht => he.each t (List.mem_reverse.1 ht)) rfl

end State.IsLaid

/-- No two attributes of a tag have the same name. -/
theorem nodup_attributes? {scope : Scope} {tags : List (TagName × String)}
    {names : List (NodeName × String)} (h : attributes? scope tags = some names) :
    (names.map (·.1)).Nodup := by
  induction tags generalizing names with
  | nil =>
    cases h
    exact .nil
  | cons tag tags ih =>
    unfold attributes? at h
    obtain ⟨more, hmore, h⟩ := Option.bind_eq_some_iff.1 h
    have hnodup := ih hmore
    split at h
    · cases h
      exact hnodup
    · obtain ⟨name, _, h⟩ := Option.bind_eq_some_iff.1 h
      split at h
      · cases h
      · next hnew =>
        cases h
        refine List.nodup_cons.2 ⟨fun hmem => hnew ?_, hnodup⟩
        obtain ⟨a, ha, heq⟩ := List.mem_map.1 hmem
        exact List.any_eq_true.2 ⟨a, ha, beq_iff_eq.2 heq⟩

/-- The parts that a tag begins with: declarations, and then attributes. -/
theorem laidBackwards_tag {declarations : List (String × String)} {names : List (NodeName × String)}
    (h : (names.map (·.1)).Nodup) : LaidBackwards
      (declarations.map (fun (p, u) => Tree.node 0 (.ns p u) []) ++
        names.map fun (n, v) => Tree.node 0 (.attr n v) []).reverse where
  order := by
    rw [List.reverse_reverse]
    refine List.pairwise_append.2 ⟨?_, ?_, fun t ht u _ => ?_⟩
    · exact List.pairwise_map.2 (List.pairwise_of_forall fun _ _ => Content.mayPrecede_of_not rfl)
    · refine List.pairwise_map.2 ((List.pairwise_map.1 h).imp fun hne _ => ⟨rfl, fun _ heq => hne ?_⟩)
      exact Option.some.inj heq
    · obtain ⟨d, _, rfl⟩ := List.mem_map.1 ht
      intro _
      exact ⟨rfl, nofun⟩
  each t ht := by
    obtain ht | ht := List.mem_append.1 (List.mem_reverse.1 ht)
    · obtain ⟨d, _, rfl⟩ := List.mem_map.1 ht
      exact .leaf _ _
    · obtain ⟨d, _, rfl⟩ := List.mem_map.1 ht
      exact .leaf _ _

namespace State.IsLaid
variable {s s' : State}

theorem open? {n : TagName} {tags : List (TagName × List Char)} (h : s.IsLaid)
    (hs : s.open? n tags = some s') : s'.IsLaid := by
  unfold State.open? at hs
  obtain ⟨values, _, hs⟩ := Option.bind_eq_some_iff.1 hs
  obtain ⟨name, _, hs⟩ := Option.bind_eq_some_iff.1 hs
  obtain ⟨names, hnames, hs⟩ := Option.bind_eq_some_iff.1 hs
  dsimp only at hs
  split at hs
  · cases hs
  · cases hs
    exact ⟨List.forall_mem_cons.2 ⟨laidBackwards_tag (nodup_attributes? hnames), h.stack⟩, h.top⟩

end State.IsLaid

theorem State.lasts_isLaid : State.Lasts State.IsLaid :=
  ⟨fun h hs => h.open? hs, fun h => h.close, fun text h => h.addText text, fun _ h => h.add (.leaf _ _) rfl,
    fun _ _ h => h.add (.leaf _ _) rfl⟩

/-- A document is laid out as it is read. -/
theorem isLaid_of_read? {text : String} {t : Tree} (h : read? text = some t) : t.IsLaid := by
  obtain ⟨s, hs, rfl⟩ := State.lasts_isLaid.of_read? ⟨nofun, .nil, nofun⟩ h
  exact .node hs.top.order fun u hu => hs.top.each u (List.mem_reverse.1 hu)

end Xml

/-- The trees of documents that are added are laid out. -/
theorem Documents.isLaid_of_add? {d d' : Documents} {text : String} (h : d.forest.IsLaid)
    (hd : d.add? text = some d') : d'.forest.IsLaid := by
  obtain ⟨t, ht, rfl⟩ := Option.map_eq_some_iff.1 hd
  exact h.add (Xml.isLaid_of_read? ht)

end XPath
