import XPath.Proofs.Layout
import Mathlib.Data.List.Basic

/-!
What an element is made of. The pieces that are placed in it one after the other are sorted: attributes come first,
each name once, and of the other nodes texts that meet are joined.
-/
namespace XPath

namespace Content
variable {c : Content}

theorem exists_text (h : c.isText) : ∃ s, c = .text s := by
  cases c <;> first | exact ⟨_, rfl⟩ | cases h

theorem exists_attr (h : c.isAttribute) : ∃ name value, c = .attr name value := by
  cases c <;> first | exact ⟨_, _, rfl⟩ | cases h

/-- Texts meet, or they do not. -/
theorem texts_or_not (c d : Content) : (∃ s s', c = .text s ∧ d = .text s') ∨ (c.isText = false ∨ d.isText = false) := by
  by_cases h : c.isText ∧ d.isText
  · obtain ⟨s, hs⟩ := exists_text h.1
    obtain ⟨s', hs'⟩ := exists_text h.2
    exact .inl ⟨s, s', hs, hs'⟩
  · exact .inr ((not_and_or.1 h).imp Bool.eq_false_iff.2 Bool.eq_false_iff.2)

end Content

namespace Construction
open XPath.Tree

variable {t u : Tree} {s value : String} {name : NodeName} {ts us pieces parts : List Tree}

/-! Texts. -/

/-- A node before nodes among which no two texts meet. -/
def joinText (t : Tree) : List Tree → List Tree
  | [] => [t]
  | u :: us => match t.content, u.content with
    | .text s, .text s' => .node t.id (.text (s ++ s')) t.parts :: us
    | _, _ => t :: u :: us

/-- The nodes with texts that meet joined to the first of them. -/
def joinTexts (ts : List Tree) : List Tree := ts.foldr joinText []

theorem appendText_cons (t : Tree) (s : String) (u : Tree) (h : us ≠ []) :
    appendText t s (u :: us) = u :: appendText t s us := by
  cases us with
  | nil => exact absurd rfl h
  | cons v vs =>
    obtain ⟨i, c, ps⟩ := u
    cases c <;> rfl

theorem appendText_text (t : Tree) (s s' : String) (hu : u.content = .text s') :
    appendText t s [u] = [.node u.id (.text (s' ++ s)) u.parts] := by
  obtain ⟨i, c, ps⟩ := u
  cases hu
  rfl

theorem appendText_of_not_text (t : Tree) (s : String) (hu : u.content.isText = false) :
    appendText t s [u] = [u, t] := by
  obtain ⟨i, c, ps⟩ := u
  cases c <;> first | rfl | cases hu

theorem joinText_text {s s' : String} (ht : t.content = .text s) (hu : u.content = .text s') :
    joinText t (u :: us) = .node t.id (.text (s ++ s')) t.parts :: us := by
  rw [joinText, ht, hu]

theorem joinText_of_not_text (h : t.content.isText = false ∨ u.content.isText = false) :
    joinText t (u :: us) = t :: u :: us := by
  rw [joinText]
  split
  · next s s' ht hu =>
    rw [ht, hu] at h
    simp [Content.isText] at h
  · rfl

theorem joinText_appendText (u : Tree) (ht : t.content = .text s) (ts : List Tree) :
    joinText u (appendText t s ts) = appendText t s (joinText u ts) := by
  match ts with
  | [] =>
    by_cases hu : u.content.isText
    · obtain ⟨r, hr⟩ := Content.exists_text hu
      exact (joinText_text hr ht).trans (appendText_text t s r hr).symm
    · rw [Bool.not_eq_true] at hu
      exact (joinText_of_not_text (.inl hu)).trans (appendText_of_not_text t s hu).symm
  | v :: vs =>
    obtain ⟨r, r', hr, hr'⟩ | hnot := Content.texts_or_not u.content v.content
    · rw [joinText_text hr hr']
      by_cases hvs : vs = []
      · subst hvs
        rw [appendText_text t s r' hr', joinText_text hr rfl, appendText_text t s (r ++ r') rfl, String.append_assoc]
        rfl
      · rw [appendText_cons t s v hvs, appendText_cons t s _ hvs, joinText_text hr hr']
    · rw [joinText_of_not_text hnot, appendText_cons t s u (List.cons_ne_nil v vs)]
      by_cases hvs : vs = []
      · subst hvs
        by_cases hv : v.content.isText
        · obtain ⟨r', hr'⟩ := Content.exists_text hv
          rw [appendText_text t s r' hr', joinText_of_not_text (.inl (by simpa [hv] using hnot))]
        · rw [Bool.not_eq_true] at hv
          rw [appendText_of_not_text t s hv, joinText_of_not_text (.inr hv)]
      · rw [appendText_cons t s v hvs, joinText_of_not_text hnot]

theorem joinTexts_concat_text (ht : t.content = .text s) (ts : List Tree) :
    joinTexts (ts ++ [t]) = appendText t s (joinTexts ts) := by
  unfold joinTexts
  rw [List.foldr_append]
  induction ts with
  | nil => rfl
  | cons u us ih => rw [List.foldr_cons, ih, List.foldr_cons, joinText_appendText u ht]

theorem joinText_concat (u : Tree) (ht : t.content.isText = false) (ts : List Tree) :
    joinText u (ts ++ [t]) = joinText u ts ++ [t] := by
  cases ts with
  | nil => exact joinText_of_not_text (.inr ht)
  | cons v vs =>
    rw [List.cons_append]
    obtain ⟨r, r', hr, hr'⟩ | hnot := Content.texts_or_not u.content v.content
    · rw [joinText_text hr hr', joinText_text hr hr', List.cons_append]
    · rw [joinText_of_not_text hnot, joinText_of_not_text hnot, List.cons_append, List.cons_append]

theorem joinTexts_concat (ht : t.content.isText = false) (ts : List Tree) :
    joinTexts (ts ++ [t]) = joinTexts ts ++ [t] := by
  unfold joinTexts
  rw [List.foldr_append]
  induction ts with
  | nil => rfl
  | cons u us ih => rw [List.foldr_cons, ih, List.foldr_cons, joinText_concat u ht]

/-- Only texts are joined. -/
theorem mem_joinTexts (h : t ∈ ts) (ht : t.content.isText = false) : t ∈ joinTexts ts := by
  induction ts with
  | nil => cases h
  | cons u us ih =>
    change t ∈ joinText u (joinTexts us)
    generalize joinTexts us = vs at ih
    cases vs with
    | nil =>
      obtain rfl | h := List.mem_cons.1 h
      · exact List.mem_cons_self
      · cases ih h
    | cons v vs =>
      obtain ⟨r, r', hr, hr'⟩ | hnot := Content.texts_or_not u.content v.content
      · rw [joinText_text hr hr']
        have hne {x : Tree} {s : String} (hx : x.content = .text s) : t ≠ x := by
          rintro rfl
          rw [hx] at ht
          cases ht
        have htail : t ∈ v :: vs := ih ((List.mem_cons.1 h).resolve_left (hne hr))
        exact List.mem_cons_of_mem _ ((List.mem_cons.1 htail).resolve_left (hne hr'))
      · rw [joinText_of_not_text hnot]
        obtain rfl | h := List.mem_cons.1 h
        · exact List.mem_cons_self
        · exact List.mem_cons_of_mem u (ih h)

/-! Attributes. -/

/-- The first node of a name, with what the last one is. -/
def settled (ts : List Tree) (n : Option NodeName) : Option Tree := do
  let first ← ts.find? (·.content.name? == n)
  let last ← ts.reverse.find? (·.content.name? == n)
  return .node first.id last.content first.parts

/-- The attributes of each name as one: the first of them, with the value of the last. -/
def settle (ts : List Tree) : List Tree := (ts.map (·.content.name?)).eraseDups.filterMap (settled ts)

variable {n : Option NodeName}

theorem settled_concat_of_ne (h : t.content.name? ≠ n) : settled (ts ++ [t]) n = settled ts n := by
  have hfind : [t].find? (·.content.name? == n) = none := by simp [h]
  unfold settled
  rw [List.find?_append, hfind, Option.or_none, List.reverse_append, List.reverse_singleton,
    List.singleton_append, List.find?_cons_of_neg (by simpa using h)]

theorem settled_concat_of_some (h : t.content.name? = n) (hu : settled ts n = some u) :
    settled (ts ++ [t]) n = some (.node u.id t.content u.parts) := by
  unfold settled at hu ⊢
  obtain ⟨first, hfirst, hu⟩ := Option.bind_eq_some_iff.1 hu
  obtain ⟨last, _, hu⟩ := Option.bind_eq_some_iff.1 hu
  cases hu
  have hfirst' : (ts ++ [t]).find? (·.content.name? == n) = some first := by
    rw [List.find?_append, hfirst, Option.some_or]
  have hlast' : (ts ++ [t]).reverse.find? (·.content.name? == n) = some t := by
    rw [List.reverse_append, List.reverse_singleton, List.singleton_append,
      List.find?_cons_of_pos (by simpa using h)]
  rw [hfirst', hlast']
  rfl

theorem settled_concat_of_none (h : t.content.name? = n) (hn : n ∉ ts.map (·.content.name?)) :
    settled (ts ++ [t]) n = some t := by
  have hfind : ts.find? (·.content.name? == n) = none :=
    List.find?_eq_none.2 fun u hu heq => hn (List.mem_map.2 ⟨u, hu, by simpa using heq⟩)
  unfold settled
  rw [List.find?_append, hfind, Option.none_or, List.find?_cons_of_pos (by simpa using h), List.reverse_append,
    List.reverse_singleton, List.singleton_append, List.find?_cons_of_pos (by simpa using h)]
  cases t
  rfl

/-- Every name has an attribute. -/
theorem exists_settled (hts : ∀ u ∈ ts, u.content.isAttribute) (hn : n ∈ ts.map (·.content.name?)) :
    ∃ m v i ps, n = some m ∧ settled ts n = some (.node i (.attr m v) ps) := by
  have hfound (us : List Tree) (hus : ∀ u ∈ us, u.content.isAttribute) (hn : n ∈ us.map (·.content.name?)) :
      ∃ u ∈ us, us.find? (·.content.name? == n) = some u ∧ u.content.name? = n ∧ u.content.isAttribute := by
    obtain ⟨v, hv, hname⟩ := List.mem_map.1 hn
    obtain ⟨u, hu⟩ := Option.isSome_iff_exists.1
      (List.find?_isSome.2 ⟨v, hv, beq_iff_eq.2 hname⟩ : (us.find? (·.content.name? == n)).isSome)
    have hname : (u.content.name? == n) = true := List.find?_some (p := fun u : Tree => u.content.name? == n) hu
    exact ⟨u, List.mem_of_find?_eq_some hu, hu, beq_iff_eq.1 hname, hus u (List.mem_of_find?_eq_some hu)⟩
  obtain ⟨first, _, hfirst, _⟩ := hfound ts hts hn
  obtain ⟨last, _, hlast, hname, hattr⟩ := hfound ts.reverse (fun u hu => hts u (List.mem_reverse.1 hu))
    (by rwa [List.map_reverse, List.mem_reverse])
  obtain ⟨m, v, hc⟩ := Content.exists_attr hattr
  refine ⟨m, v, first.id, first.parts, by rw [← hname, hc]; rfl, ?_⟩
  unfold settled
  rw [hfirst, hlast, ← hc]
  rfl

theorem putAttribute_cons_of_ne {i : NodeId} {m : NodeName} {v : String} {ps : List Tree} (h : m ≠ name) :
    putAttribute t name value (.node i (.attr m v) ps :: us) =
      .node i (.attr m v) ps :: putAttribute t name value us := by
  rw [putAttribute, if_neg h]

/-- The attribute of the name takes the value, and the others stay. -/
theorem putAttribute_settled (ht : t.content = .attr name value) (hts : ∀ u ∈ ts, u.content.isAttribute)
    {ns : List (Option NodeName)} (hns : ∀ n ∈ ns, n ∈ ts.map (·.content.name?)) (hnodup : ns.Nodup)
    (hmem : some name ∈ ns) :
    putAttribute t name value (ns.filterMap (settled ts)) = ns.filterMap (settled (ts ++ [t])) := by
  have hname : t.content.name? = some name := by rw [ht]; rfl
  induction ns with
  | nil => cases hmem
  | cons n ns ih =>
    obtain ⟨hn, hrest⟩ := List.forall_mem_cons.1 hns
    obtain ⟨hnot, hnodup'⟩ := List.nodup_cons.1 hnodup
    obtain ⟨m, v, i, ps, rfl, hsettled⟩ := exists_settled hts hn
    rw [List.filterMap_cons_some hsettled]
    by_cases hm : m = name
    · subst hm
      have hsame : ns.filterMap (settled (ts ++ [t])) = ns.filterMap (settled ts) :=
        List.filterMap_congr fun n hn => settled_concat_of_ne (by rintro rfl; exact hnot (hname ▸ hn))
      rw [List.filterMap_cons_some (settled_concat_of_some hname hsettled), hsame, putAttribute, if_pos rfl, ht]
      rfl
    · have hne : t.content.name? ≠ some m := by
        rw [hname]
        exact fun heq => hm (Option.some.inj heq).symm
      have hmem' : some name ∈ ns := (List.mem_cons.1 hmem).resolve_left fun heq => hm (Option.some.inj heq).symm
      rw [List.filterMap_cons_some ((settled_concat_of_ne hne).trans hsettled), putAttribute_cons_of_ne hm,
        ih hrest hnodup' hmem']

/-- An attribute of a new name comes after the others. -/
theorem putAttribute_new (hts : ∀ u ∈ ts, u.content.isAttribute) {ns : List (Option NodeName)}
    (hns : ∀ n ∈ ns, n ∈ ts.map (·.content.name?)) (hmem : some name ∉ ns) :
    putAttribute t name value (ns.filterMap (settled ts)) = ns.filterMap (settled ts) ++ [t] := by
  induction ns with
  | nil => rfl
  | cons n ns ih =>
    obtain ⟨hn, hrest⟩ := List.forall_mem_cons.1 hns
    obtain ⟨m, v, i, ps, rfl, hsettled⟩ := exists_settled hts hn
    have hm : m ≠ name := fun heq => hmem (heq ▸ List.mem_cons_self)
    rw [List.filterMap_cons_some hsettled, putAttribute_cons_of_ne hm,
      ih hrest fun h => hmem (List.mem_cons_of_mem _ h), List.cons_append]

theorem nodup_eraseDups {α : Type} [BEq α] [LawfulBEq α] (xs : List α) : xs.eraseDups.Nodup := by
  match xs with
  | [] => exact .nil
  | x :: xs =>
    rw [List.eraseDups_cons, List.nodup_cons, List.mem_eraseDups]
    exact ⟨by simp, nodup_eraseDups _⟩
termination_by xs.length
decreasing_by
  have := List.length_filter_le (fun y => !y == x) xs
  simp only [List.length_cons]
  omega

theorem settle_concat (ht : t.content = .attr name value) (hts : ∀ u ∈ ts, u.content.isAttribute) :
    settle (ts ++ [t]) = putAttribute t name value (settle ts) := by
  have hname : t.content.name? = some name := by rw [ht]; rfl
  have hns : ∀ n ∈ (ts.map (·.content.name?)).eraseDups, n ∈ ts.map (·.content.name?) :=
    fun n hn => List.mem_eraseDups.1 hn
  unfold settle
  rw [List.map_append, List.map_singleton, hname, List.eraseDups_append]
  by_cases hmem : some name ∈ ts.map (·.content.name?)
  · have hnone : [some name].removeAll (ts.map (·.content.name?)) = [] := by
      rw [List.removeAll, List.filter_cons_of_neg (by simpa using hmem), List.filter_nil]
    rw [hnone, List.eraseDups_nil, List.append_nil]
    exact (putAttribute_settled ht hts hns (nodup_eraseDups _) (List.mem_eraseDups.2 hmem)).symm
  · have hone : [some name].removeAll (ts.map (·.content.name?)) = [some name] := by
      rw [List.removeAll, List.filter_cons_of_pos (by simpa using hmem), List.filter_nil]
    have hsame : (ts.map (·.content.name?)).eraseDups.filterMap (settled (ts ++ [t])) =
        (ts.map (·.content.name?)).eraseDups.filterMap (settled ts) :=
      List.filterMap_congr fun n hn => settled_concat_of_ne (by rintro rfl; exact hmem (hname ▸ hns _ hn))
    rw [hone, List.filterMap_append, hsame]
    refine Eq.trans ?_ (putAttribute_new hts hns fun h => hmem (hns _ h)).symm
    exact congrArg _ (List.filterMap_cons_some (settled_concat_of_none hname hmem))

/-! Parts. -/

theorem filter_attribute_appendText (s : String) (ht : t.content.isAttribute = false) (ts : List Tree) :
    (appendText t s ts).filter (·.content.isAttribute) = ts.filter (·.content.isAttribute) := by
  fun_induction appendText t s ts with
  | case1 => rw [List.filter_cons_of_neg (by simp [ht])]
  | case2 i s' ps => rfl
  | case3 u us _ ih => rw [List.filter_cons, List.filter_cons, ih]

/-- Attributes do not stand between texts. -/
theorem filter_other_appendText (s : String) (ht : t.content.isAttribute = false) (h : InOrder ts) :
    (appendText t s ts).filter (!·.content.isAttribute) = appendText t s (ts.filter (!·.content.isAttribute)) := by
  fun_induction appendText t s ts with
  | case1 => rw [List.filter_cons_of_pos (by simp [ht])]; rfl
  | case2 i s' ps => rfl
  | case3 u us hlast ih =>
    obtain ⟨hu, hus⟩ := List.pairwise_cons.1 h
    by_cases hattr : u.content.isAttribute
    · rw [List.filter_cons_of_neg (by simp [hattr]), List.filter_cons_of_neg (by simp [hattr]), ih hus]
    · rw [List.filter_cons_of_pos (by simp [hattr]), List.filter_cons_of_pos (by simp [hattr]), ih hus]
      by_cases hnil : us.filter (!·.content.isAttribute) = []
      · have hnot : u.content.isText = false := by
          refine Bool.eq_false_iff.2 fun htext => ?_
          obtain ⟨r, hr⟩ := Content.exists_text htext
          cases us with
          | nil =>
            obtain ⟨i, c, ps⟩ := u
            cases hr
            exact hlast i r ps rfl rfl
          | cons v vs =>
            have hv : v.content.isAttribute := by simpa using List.filter_eq_nil_iff.1 hnil v List.mem_cons_self
            have hordinary := (hu v List.mem_cons_self hv).1
            rw [hr] at hordinary
            cases hordinary
        rw [hnil, appendText_of_not_text t s hnot]
        rfl
      · exact (appendText_cons t s u hnil).symm

/-- After an ordinary node there is no attribute. -/
theorem not_attribute_of_ordinary (h : InOrder (u :: us)) (hu : u.content.isOrdinary) :
    ∀ v ∈ u :: us, v.content.isAttribute = false := by
  refine List.forall_mem_cons.2 ⟨Content.not_attribute_of_ordinary hu, fun v hv => Bool.eq_false_iff.2 fun hattr => ?_⟩
  have hnot := ((List.pairwise_cons.1 h).1 v hv hattr).1
  rw [hu] at hnot
  cases hnot

theorem filter_attribute_putAttribute (ht : t.content = .attr name value) (h : InOrder ts) :
    (putAttribute t name value ts).filter (·.content.isAttribute) =
      putAttribute t name value (ts.filter (·.content.isAttribute)) := by
  have hattr : t.content.isAttribute := by rw [ht]; rfl
  fun_induction putAttribute t name value ts with
  | case1 => exact List.filter_cons_of_pos (by simp [hattr])
  | case2 i v ps us =>
    rw [List.filter_cons_of_pos rfl, List.filter_cons_of_pos rfl, putAttribute, if_pos rfl]
  | case3 i n v ps us hne ih =>
    rw [List.filter_cons_of_pos rfl, List.filter_cons_of_pos rfl, putAttribute_cons_of_ne hne,
      ih (List.pairwise_cons.1 h).2]
  | case4 i p v ps us ih => exact ih (List.pairwise_cons.1 h).2
  | case5 us hempty hattr' hns =>
    have hnone : us.filter (·.content.isAttribute) = [] := by
      match us with
      | .node i c ps :: us =>
        have hordinary : c.isOrdinary := by
          cases c with
          | attr n v => exact absurd rfl (hattr' i n v ps us)
          | ns p v => exact absurd rfl (hns i p v ps us)
          | _ => rfl
        exact List.filter_eq_nil_iff.2 fun v hv => by simp [not_attribute_of_ordinary h hordinary v hv]
    rw [hnone]
    exact (List.filter_cons_of_pos (by simp [hattr])).trans (by rw [hnone]; rfl)

theorem filter_other_putAttribute (ht : t.content = .attr name value) (ts : List Tree) :
    (putAttribute t name value ts).filter (!·.content.isAttribute) = ts.filter (!·.content.isAttribute) := by
  have hattr : t.content.isAttribute := by rw [ht]; rfl
  fun_induction putAttribute t name value ts with
  | case1 => rw [List.filter_cons_of_neg (by simp [hattr])]
  | case2 i v ps us => rfl
  | case3 i n v ps us _ ih => rw [List.filter_cons, List.filter_cons, ih]
  | case4 i p v ps us ih => rw [List.filter_cons, List.filter_cons, ih]
  | case5 us => rw [List.filter_cons_of_neg (by simp [hattr])]

/-- The parts of an element that has been given these pieces. -/
structure IsAssembled (pieces parts : List Tree) : Prop where
  attributes : parts.filter (·.content.isAttribute) = settle (pieces.filter (·.content.isAttribute))
  others : parts.filter (!·.content.isAttribute) = joinTexts (pieces.filter (!·.content.isAttribute))
  order : InOrder parts

theorem isAssembled_nil : IsAssembled [] [] := ⟨rfl, rfl, .nil⟩

/-- A piece that cannot be joined to another one is a part. -/
theorem IsAssembled.mem_parts (h : IsAssembled pieces parts) (ht : t ∈ pieces) (hattr : t.content.isAttribute = false)
    (htext : t.content.isText = false) : t ∈ parts := by
  have hmem : t ∈ parts.filter (!·.content.isAttribute) := by
    rw [h.others]
    exact mem_joinTexts (List.mem_filter.2 ⟨ht, by simp [hattr]⟩) htext
  exact (List.mem_filter.1 hmem).1

theorem IsAssembled.place (h : IsAssembled pieces parts) (t : Tree) : IsAssembled (pieces ++ [t]) (place t parts) := by
  obtain ⟨hattributes, hothers, horder⟩ := h
  have horder' := inOrder_place t horder
  cases hattr : t.content.isAttribute with
  | true =>
    obtain ⟨name, value, ht⟩ := Content.exists_attr hattr
    have hplace : Construction.place t parts = putAttribute t name value parts := by
      unfold Construction.place
      rw [ht]
    rw [hplace] at horder' ⊢
    refine ⟨?_, ?_, horder'⟩
    · rw [filter_attribute_putAttribute ht horder, hattributes, List.filter_append,
        show [t].filter (·.content.isAttribute) = [t] by simp [hattr],
        settle_concat ht fun u hu => (List.mem_filter.1 hu).2]
    · rw [filter_other_putAttribute ht, hothers, List.filter_append,
        show [t].filter (!·.content.isAttribute) = [] by simp [hattr], List.append_nil]
  | false =>
    have hnone : [t].filter (·.content.isAttribute) = [] := by simp [hattr]
    have hone : [t].filter (!·.content.isAttribute) = [t] := by simp [hattr]
    cases htext : t.content.isText with
    | true =>
      obtain ⟨s, ht⟩ := Content.exists_text htext
      have hplace : Construction.place t parts = appendText t s parts := by
        unfold Construction.place
        rw [ht]
      rw [hplace] at horder' ⊢
      refine ⟨?_, ?_, horder'⟩
      · rw [filter_attribute_appendText s hattr, hattributes, List.filter_append, hnone, List.append_nil]
      · rw [filter_other_appendText s hattr horder, hothers, List.filter_append, hone, joinTexts_concat_text ht]
    | false =>
      have hplace : Construction.place t parts = parts ++ [t] := by
        unfold Construction.place
        split
        · next s ht => simp [ht, Content.isText] at htext
        · next n v ht => simp [ht, Content.isAttribute, Content.role] at hattr
        · rfl
      rw [hplace] at horder' ⊢
      refine ⟨?_, ?_, horder'⟩
      · rw [List.filter_append, hnone, List.append_nil, hattributes, List.filter_append, hnone, List.append_nil]
      · rw [List.filter_append, hone, hothers, List.filter_append, hone, joinTexts_concat htext]

end Construction
end XPath
