import XPath.Evaluation.Meaning
import XPath.Proofs.Annotation

/-! What an operator gives is determined by what its operands give. Two ways of evaluating that give the
same, each in a frame of its own, may stand for each other under every operator and in every call. -/
namespace XPath

/-- One way of evaluating gives the same in one frame as another gives in another. -/
structure Ways.Matches (a : Ways) (f : Frame) (b : Ways) (g : Frame) : Prop where
  note : a.note = b.note
  item : a.item f = b.item g
  items : a.items f = b.items g
  push : a.push f = b.push g

namespace Ways.Matches
variable {a b : Ways} {f g : Frame}

theorem toList (h : a.Matches f b g) : a.toList f = b.toList g := by
  unfold Ways.toList
  rw [h.items]

theorem truth (h : a.Matches f b g) : a.truth f = b.truth g := by
  unfold Ways.truth
  rw [h.items, h.note]

theorem values (h : a.Matches f b g) : a.values f = b.values g := by
  unfold Ways.values
  rw [h.items]

theorem value? (h : a.Matches f b g) : a.value? f = b.value? g := by
  unfold Ways.value?
  rw [h.item]

theorem text (h : a.Matches f b g) : a.text f = b.text g := by
  unfold Ways.text
  rw [h.value?]

theorem nodes (h : a.Matches f b g) : a.nodes f = b.nodes g := by
  unfold Ways.nodes
  rw [h.items]

theorem holdsAt (h : a.Matches f b g) (n : Nat) : a.holdsAt f n = b.holdsAt g n := by
  unfold Ways.holdsAt
  rw [h.items]

theorem ofItem (n : Note) {x y : Frame → Eval (Option Item)} (h : x f = y g) :
    (Ways.ofItem n x).Matches f (.ofItem n y) g := by
  constructor <;> simp only [Ways.ofItem, h]

theorem ofItemsAndPush (n : Note) {x y : Frame → Items} {p q : Frame → Eval (List Item)}
    (h : x f = y g) (k : p f = q g) : (Ways.ofItemsAndPush n x p).Matches f (.ofItemsAndPush n y q) g := by
  constructor <;> simp only [Ways.ofItemsAndPush, h, k]

theorem ofItems (n : Note) {x y : Frame → Items} (h : x f = y g) :
    (Ways.ofItems n x).Matches f (.ofItems n y) g :=
  ofItemsAndPush n h (congrArg Source.toList h)

theorem ofPush (n : Note) {p q : Frame → Eval (List Item)} (h : p f = q g) :
    (Ways.ofPush n p).Matches f (.ofPush n q) g :=
  ofItemsAndPush n (by rw [h]) h

end Ways.Matches

/-! Operators, given operands that match. -/

section Operators
variable {a a' b b' d d' : Ways} {f g : Frame}

theorem UnaryOp.ways_match (n : Note) (op : UnaryOp) (ha : a.Matches f a' g) :
    (op.ways n a).Matches f (op.ways n a') g := by
  cases op with
  | negate => exact .ofItem n (by unfold lift; rw [ha.value?])
  | plus => exact .ofItem n (by unfold lift; rw [ha.value?])
  | sort => exact .ofItems n (by rw [ha.toList])
  | reverse => exact .ofItems n (by rw [ha.toList])
  | first => exact .ofItem n (by rw [ha.items])
  | last => exact .ofItem n (by rw [ha.items])
  | slice min max => exact .ofItems n (by unfold Ways.slice; rw [ha.items])
  | cast target allowsEmpty => exact .ofItem n (by rw [ha.value?])
  | castable target allowsEmpty => exact .ofItem n (by rw [ha.values])
  | treat type => exact .ofItems n (by rw [ha.toList])
  | instanceOf type => exact .ofItem n (by rw [ha.toList])
  | element name => exact .ofPush n (by rw [ha.toList])
  | text => exact .ofPush n (by rw [ha.values])

/-- The right side of a path, and the predicate of a filter that asks for the focus, are evaluated with a
focus of their own. -/
def MatchUnderFocus (b : Ways) (f : Frame) (b' : Ways) (g : Frame) : Prop :=
  ∀ x n size, b.Matches (f.withFocus x n size) b' (g.withFocus x n size)

theorem MatchUnderFocus.note (h : MatchUnderFocus b f b' g) : b.note = b'.note :=
  (h (.atomic (.boolean true)) 0 none).note

theorem Ways.counted_eq (ha : a.Matches f a' g) (hb : b.note = b'.note) :
    a.counted b f = a'.counted b' g := by
  unfold Ways.counted
  rw [ha.toList, ha.items, hb]

theorem Ways.path_eq (ha : a.Matches f a' g) (hb : MatchUnderFocus b f b' g) :
    a.path b f = a'.path b' g := by
  unfold Ways.path
  have h (x : Item) (n : Nat) (size : Option Nat) :
      b.items (f.withFocus x n size) = b'.items (g.withFocus x n size) := (hb x n size).items
  simp only [counted_eq ha hb.note, h]

theorem Ways.select_eq (ha : a.Matches f a' g) (hb : MatchUnderFocus b f b' g)
    (hf : b.note.info.dependencies.focus = false → b.Matches f b' g) : a.select b f = a'.select b' g := by
  unfold Ways.select
  rw [← hb.note]
  split
  · have h (x : Item) (n m : Nat) (size : Option Nat) :
        b.holdsAt (f.withFocus x n size) m = b'.holdsAt (g.withFocus x n size) m :=
      (hb x n size).holdsAt m
    unfold selectEach
    simp only [counted_eq ha hb.note, h]
  · next hfocus =>
    unfold selectOnce
    rw [(hf (Bool.eq_false_iff.2 hfocus)).toList, ha.items]

theorem Ways.itemAt_eq (ha : a.Matches f a' g) (hb : b.Matches f b' g) :
    a.itemAt b f = a'.itemAt b' g := by
  unfold Ways.itemAt
  rw [hb.value?, ha.items]

theorem Ways.makeIndex_eq (ha : a.Matches f a' g) (hb : MatchUnderFocus b f b' g) :
    a.makeIndex b f = a'.makeIndex b' g := by
  unfold Ways.makeIndex
  have h (x : Item) (n : Nat) (size : Option Nat) :
      b.values (f.withFocus x n size) = b'.values (g.withFocus x n size) := (hb x n size).values
  simp only [ha.toList, h]

/-- A lookup asks for the context item where the base depends on the focus. -/
theorem Ways.selectByKey_eq (exprs : Expr × Expr) (ha : a.Matches f a' g) (hb : MatchUnderFocus b f b' g)
    (hd : d.Matches f d' g)
    (hf : a.note.info.dependencies.focus → f.contextItem = g.contextItem) :
    a.selectByKey exprs b d f = a'.selectByKey exprs b' d' g := by
  unfold Ways.selectByKey Ways.findIndex
  rw [hd.values, makeIndex_eq ha hb, ← ha.note]
  split
  · next hfocus => rw [hf hfocus]
  · rfl

theorem BinaryOp.combine_eq (op : SetOp) (ha : a.Matches f a' g) (hb : b.Matches f b' g) :
    combine op a b f = combine op a' b' g := by
  unfold combine
  rw [ha.nodes, hb.nodes]

theorem BinaryOp.integers_eq (ha : a.Matches f a' g) (hb : b.Matches f b' g) :
    integers a b f = integers a' b' g := by
  unfold integers rangeEnd
  rw [ha.value?, hb.value?]

theorem BinaryOp.quantify_eq (q : Quantifier) (slot : Slot) (ha : a.Matches f a' g)
    (hb : ∀ v, b.Matches (f.bind slot v) b' (g.bind slot v)) :
    quantify q slot a b f = quantify q slot a' b' g := by
  unfold quantify
  have h (x : Item) : b.truth (f.bind slot (.items [x])) = b'.truth (g.bind slot (.items [x])) :=
    (hb (.items [x])).truth
  simp only [ha.items, h]

theorem TernaryOp.ways_match (n : Note) (exprs : Expr × Expr) (op : TernaryOp) (ha : a.Matches f a' g)
    (hb : if op = .if then b.Matches f b' g else MatchUnderFocus b f b' g) (hd : d.Matches f d' g)
    (hf : op = .indexedFilter → a.note.info.dependencies.focus → f.contextItem = g.contextItem) :
    (op.ways n exprs a b d).Matches f (op.ways n exprs a' b' d') g := by
  cases op with
  | «if» => exact .ofItems n (by rw [ha.truth, hb.items, hd.items])
  | indexedFilter =>
    exact .ofItems n (by rw [Ways.selectByKey_eq exprs ha hb hd (hf rfl)])

end Operators

theorem BinaryOp.ways_match {f g : Frame} (n : Note) (op : BinaryOp) {a a' b b' : Meaning}
    (hop : op.isPlain) (ha : a.Matches f a'.toWays g) (hb : b.Matches f b'.toWays g) :
    (op.ways n a b).Matches f (op.ways n a' b') g := by
  cases op with
  | arithmetic op => exact .ofItem n (by unfold lift; rw [ha.value?, hb.value?])
  | valueComparison op => exact .ofItem n (by unfold lift; rw [ha.value?, hb.value?])
  | generalComparison op => exact .ofItem n (by unfold compareAny; rw [ha.values, hb.values])
  | nodeComparison op => exact .ofItem n (by unfold compareNodes; rw [ha.item, hb.item])
  | and => exact .ofItem n (by rw [ha.truth, hb.truth])
  | or => exact .ofItem n (by rw [ha.truth, hb.truth])
  | range => exact .ofItems n (integers_eq ha hb)
  | set op => exact .ofItems n (by rw [combine_eq op ha hb])
  | itemAt => exact .ofItem n (Ways.itemAt_eq ha hb)
  | path => cases hop
  | filter => cases hop
  | «for» => cases hop
  | «let» => cases hop
  | quantified => cases hop

/-! Calls of built-in functions. -/

/-- With so many arguments the function looks at the context node, as the argument for it is left out. -/
def Builtin.LeavesOut : Builtin → ℕ → Prop
  | id, n => n ≤ 1
  | key, n => n ≤ 2
  | _, _ => False

/-- A call that is written as the language has it leaves out the last argument only. -/
theorem Builtin.usesContext_of_leavesOut {g : Builtin} {n : ℕ} (hn : g.accepts n) (h : g.LeavesOut n) :
    g.usesContext n := by
  have hleast := of_decide_eq_true (Bool.and_eq_true_iff.1 hn).1
  cases g with
  | id =>
    obtain rfl : n = 1 := Nat.le_antisymm h hleast
    rfl
  | key =>
    obtain rfl : n = 2 := Nat.le_antisymm h hleast
    rfl
  | _ => cases h

namespace Call

/-- Two sites whose arguments match, and whose frames differ in nothing that the call reads. -/
structure Site.Matches (s t : Site) : Prop where
  args : List.Forall₂ (fun a b => a.Matches s.frame b t.frame) s.args t.args
  implicit : s.implicit = t.implicit
  item : s.implicit → s.frame.contextItem = t.frame.contextItem

namespace Site.Matches
variable {s t : Site}

theorem length (h : s.Matches t) : s.args.length = t.args.length := h.args.length_eq

/-- An argument that is there on one side is there on the other. -/
theorem getElem? (h : s.Matches t) (n : Nat) : (s.args[n]? = none ∧ t.args[n]? = none) ∨
    ∃ a b, s.args[n]? = some a ∧ t.args[n]? = some b ∧ a.Matches s.frame b t.frame := by
  obtain ⟨hlength, hget⟩ := List.forall₂_iff_get.1 h.args
  by_cases hn : n < s.args.length
  · exact .inr ⟨_, _, List.getElem?_eq_getElem hn, List.getElem?_eq_getElem (hlength ▸ hn),
      hget n hn (hlength ▸ hn)⟩
  · exact .inl ⟨List.getElem?_eq_none (not_lt.1 hn), List.getElem?_eq_none (hlength ▸ not_lt.1 hn)⟩

theorem arg (h : s.Matches t) (n : Nat) : (s.arg n).Matches s.frame (t.arg n) t.frame := by
  unfold Site.arg
  rw [List.getD_eq_getElem?_getD, List.getD_eq_getElem?_getD]
  obtain ⟨hs, ht⟩ | ⟨a, b, hs, ht, hab⟩ := h.getElem? n
  · rw [hs, ht]
    exact .ofItems _ rfl
  · rw [hs, ht]
    exact hab

theorem items (h : s.Matches t) (n : Nat) : s.items n = t.items n := (h.arg n).items

theorem list (h : s.Matches t) (n : Nat) : s.list n = t.list n := (h.arg n).toList

theorem text (h : s.Matches t) (n : Nat) : s.text n = t.text n := (h.arg n).text

theorem values (h : s.Matches t) (n : Nat) : (s.arg n).values s.frame = (t.arg n).values t.frame :=
  (h.arg n).values

theorem truth (h : s.Matches t) (n : Nat) : (s.arg n).truth s.frame = (t.arg n).truth t.frame :=
  (h.arg n).truth

theorem texts (h : s.Matches t) (n : Nat) : s.texts n = t.texts n := by
  unfold Site.texts
  rw [h.values]

theorem subject (h : s.Matches t) : s.subject = t.subject := by
  unfold Site.subject
  rw [← h.implicit, List.getLast?_eq_getElem?, List.getLast?_eq_getElem?, ← h.length]
  split
  · next himplicit => rw [h.item himplicit]
  · obtain ⟨hs, ht⟩ | ⟨a, b, hs, ht, hab⟩ := h.getElem? (s.args.length - 1)
    · rw [hs, ht]
    · rw [hs, ht]
      exact hab.item

theorem subjectText (h : s.Matches t) : s.subjectText = t.subjectText := by
  unfold Site.subjectText
  rw [h.subject]

theorem subjectNode (h : s.Matches t) : s.subjectNode = t.subjectNode := by
  unfold Site.subjectNode Frame.contextNode
  rw [h.subject, ← h.implicit]
  split
  · next himplicit => rw [h.item himplicit]
  · rfl

/-- The context node stands for a last argument that is left out. -/
theorem target (h : s.Matches t) (n : Nat)
    (hn : s.args.length ≤ n → s.frame.contextItem = t.frame.contextItem) : s.target n = t.target n := by
  unfold Site.target Frame.contextNode
  rw [← h.implicit]
  obtain ⟨hs, ht⟩ | ⟨a, b, hs, ht, hab⟩ := h.getElem? n
  · rw [hs, ht]
    dsimp only
    rw [hn (List.getElem?_eq_none_iff.1 hs)]
  · rw [hs, ht]
    dsimp only
    split
    · next himplicit => rw [h.item himplicit]
    · rw [hab.item]

theorem double (h : s.Matches t) (n : Nat) : s.double n = t.double n := by
  unfold Site.double
  rw [(h.arg n).value?]

theorem window (h : s.Matches t) : s.window = t.window := by
  unfold Site.window
  rw [h.double, h.double, h.length]

theorem numbers (h : s.Matches t) : s.numbers = t.numbers := by
  unfold Site.numbers
  rw [h.values]

theorem mapM_eq {β : Type} {p q : Ways → Eval β} {as bs : List Ways}
    (h : List.Forall₂ (fun a b => p a = q b) as bs) :
    as.mapM p = bs.mapM q := by
  induction h with
  | nil => rfl
  | cons hab _ ih => rw [List.mapM_cons, List.mapM_cons, hab, ih]

theorem mapM_text (h : s.Matches t) : s.args.mapM (·.text s.frame) = t.args.mapM (·.text t.frame) :=
  mapM_eq (h.args.imp fun _ _ hab => hab.text)

/-- A call reads of the frame, its arguments apart, the context item where an argument is left out, the
position and the number of items. -/
theorem call (h : s.Matches t) (c : DynamicContext) (g : Builtin)
    (htarget : g.LeavesOut s.args.length → s.frame.contextItem = t.frame.contextItem)
    (hposition : g = .position → s.frame.focus.map (·.position) = t.frame.focus.map (·.position))
    (hlast : g = .last → s.frame.focus.bind (·.size) = t.frame.focus.bind (·.size)) :
    s.call c g = t.call c g := by
  cases g with
  | id =>
    simp only [Site.call, byId]
    rw [h.texts, h.target 1 htarget]
  | key =>
    simp only [Site.call, byKey]
    rw [h.text, h.texts, h.target 2 htarget]
  | position => simp only [Site.call, hposition rfl]
  | last => simp only [Site.call, hlast rfl]
  | concat => simp only [Site.call, h.mapM_text]
  | data =>
    simp only [Site.call]
    rw [← h.implicit, h.values]
    split
    · next himp => rw [h.item himp]
    · rfl
  | sum => simp only [Site.call, Site.sum, h.numbers, h.list, h.length]
  | avg => simp only [Site.call, average, h.numbers]
  | min => simp only [Site.call, extreme, h.values]
  | max => simp only [Site.call, extreme, h.values]
  | distinctValues => simp only [Site.call, distinct, h.values]
  | subsequence => simp only [Site.call, Site.subsequence, h.window, h.items]
  | _ =>
    simp only [Site.call, h.text, h.texts, h.items, h.list, h.truth, h.subject, h.subjectText,
      h.subjectNode, h.window]

end Site.Matches

end Call

theorem NaryOp.ways_match {f g : Frame} (c : DynamicContext) (n : Note) (op : NaryOp) {args args' : List Ways}
    (hargs : List.Forall₂ (fun a b => a.Matches f b g) args args')
    (hitem : ∀ b, op = .call (.builtin b) → b.usesContext args.length ∨ b.LeavesOut args.length →
      f.contextItem = g.contextItem)
    (hposition : op = .call (.builtin .position) → f.focus.map (·.position) = g.focus.map (·.position))
    (hlast : op = .call (.builtin .last) → f.focus.bind (·.size) = g.focus.bind (·.size)) :
    (op.ways c n args).Matches f (op.ways c n args') g := by
  cases op with
  | block =>
    refine .ofItemsAndPush n ?_ ?_
    · have hmap : args.map (·.items f) = args'.map (·.items g) := by
        clear hitem
        induction hargs with
        | nil => rfl
        | cons hab _ ih => rw [List.map_cons, List.map_cons, hab.items, ih]
      rw [hmap]
    · rw [Call.Site.Matches.mapM_eq (hargs.imp fun _ _ hab => hab.push)]
  | call r =>
    cases r with
    | unresolved name => exact .ofItems n rfl
    | builtin b =>
      refine .ofItems n ?_
      have hsite : Call.Site.Matches ⟨args, f, b.usesContext args.length⟩
          ⟨args', g, b.usesContext args'.length⟩ :=
        ⟨hargs, by rw [hargs.length_eq], fun himplicit => hitem b rfl (.inl himplicit)⟩
      rw [hsite.call c b (fun h => hitem b rfl (.inr h)) (fun h => hposition (by rw [h]))
        fun h => hlast (by rw [h])]

end XPath
