import XPath.Proofs.Congruence

/-! An evaluation depends on the frame only through the variables that are free in the expression and
through the parts of the focus that its note names. -/
namespace XPath

/-- The evaluation is one and the same in two frames. -/
structure Ways.Same (a : Ways) (f g : Frame) : Prop where
  item : a.item f = a.item g
  items : a.items f = a.items g
  push : a.push f = a.push g

theorem Ways.Same.matches {a : Ways} {f g : Frame} (h : a.Same f g) : a.Matches f a g :=
  ⟨rfl, h.item, h.items, h.push⟩

theorem Ways.Matches.same {a : Ways} {f g : Frame} (h : a.Matches f a g) : a.Same f g :=
  ⟨h.item, h.items, h.push⟩

namespace Expr

mutual

/-- Whether the variable of a slot is used outside its scope, so that the frame must give its value. -/
def needs (slot : Slot) : Expr → Bool
  | leaf _ (.variable (.range s)) => s == slot
  | leaf .. => false
  | unary _ _ a => a.needs slot
  | binary _ op a b => a.needs slot || b.needs slot && op.slot? != some slot
  | ternary _ _ a b c => a.needs slot || b.needs slot || c.needs slot
  | nary _ _ args => needsList slot args

def needsList (slot : Slot) : List Expr → Bool
  | [] => false
  | e :: es => e.needs slot || needsList slot es

end

theorem needsList_iff {slot : Slot} {es : List Expr} :
    needsList slot es ↔ ∃ e ∈ es, e.needs slot := by
  induction es with
  | nil => simp [needsList]
  | cons e es ih => simp [needsList, ih]

/-- What the parser and the rewrites see to: a call has as many arguments as the function takes, and the
base of an indexed filter does not ask for the position. -/
def IsFormed : Expr → Prop
  | nary _ (.call (.builtin f)) args => f.accepts args.length
  | ternary _ .indexedFilter a _ _ =>
    a.effects.reads.position = false ∧ a.effects.reads.last = false
  | _ => True

theorem needs_of_reference {e : Expr} {slot : Slot} (h : e.reference? = some (.range slot)) :
    e.needs slot := by
  cases e with
  | leaf n op =>
    cases op with
    | «variable» r =>
      cases h
      exact beq_self_eq_true slot
    | _ => cases h
  | _ => cases h

theorem needs_of_tail {e : Expr} {slot : Slot} {n : Nat} (h : e.tail? = some (.range slot, n)) :
    e.needs slot := by
  unfold tail? at h
  split at h
  · obtain ⟨r, hr, heq⟩ := Option.map_eq_some_iff.1 h
    cases heq
    rename_i a
    exact needs_of_reference (e := a) hr
  · obtain ⟨r, hr, heq⟩ := Option.map_eq_some_iff.1 h
    cases heq
    exact Bool.or_eq_true_iff.2 (.inl (needs_of_reference hr))
  · cases h

theorem needs_of_head {e : Expr} {slot : Slot} (h : e.head? = some (.range slot)) : e.needs slot := by
  unfold head? at h
  split at h
  · exact Bool.or_eq_true_iff.2 (.inl (needs_of_reference h))
  · cases h

end Expr

/-- Two frames agree on some slots and on some parts of the focus. -/
structure Frame.Agree (slots : Slot → Prop) (reads : Dependencies) (f g : Frame) : Prop where
  slots : ∀ s, slots s → f.slots s = g.slots s
  item : reads.item → f.focus.map (·.item) = g.focus.map (·.item)
  position : reads.position → f.focus.map (·.position) = g.focus.map (·.position)
  last : reads.last → f.focus.bind (·.size) = g.focus.bind (·.size)

namespace Frame.Agree
variable {slots slots' : Slot → Prop} {a b : Effects} {f g : Frame}

theorem mono (h : Agree slots a.reads f g) (hs : ∀ s, slots' s → slots s) (hb : b.Within a) :
    Agree slots' b.reads f g :=
  ⟨fun s hs' => h.slots s (hs s hs'), fun hi => h.item (hb.item hi),
    fun hp => h.position (hb.position hp), fun hl => h.last (hb.last hl)⟩

/-- A new focus is the same in both frames. -/
theorem withFocus (h : Agree slots a.reads f g) (r : Dependencies) (x : Item) (n : Nat)
    (size : Option Nat) : Agree slots r (f.withFocus x n size) (g.withFocus x n size) :=
  ⟨h.slots, fun _ => rfl, fun _ => rfl, fun _ => rfl⟩

/-- A new variable has the same value in both frames. -/
theorem bind (h : Agree slots a.reads f g) {slot : Slot} (hs : ∀ s, slots' s → s ≠ slot → slots s)
    (hb : b.Within a) (v : Value) : Agree slots' b.reads (f.bind slot v) (g.bind slot v) := by
  refine ⟨fun s hs' => ?_, fun hi => h.item (hb.item hi), fun hp => h.position (hb.position hp),
    fun hl => h.last (hb.last hl)⟩
  unfold Frame.bind
  dsimp only
  split
  · rfl
  · next hne => exact h.slots s (hs s hs' hne)

/-- A capture keeps no focus. -/
theorem capture (h : Agree slots a.reads f g) (captured : List Slot) (r : Dependencies) :
    Agree slots r (f.capture captured) (g.capture captured) := by
  refine ⟨fun s hs => ?_, fun _ => rfl, fun _ => rfl, fun _ => rfl⟩
  unfold Frame.capture
  dsimp only
  rw [h.slots s hs]

theorem contextItem (h : Agree slots a.reads f g) (hi : a.reads.item) :
    f.contextItem = g.contextItem := by
  unfold Frame.contextItem
  rw [h.item hi]

theorem valueOf (h : Agree slots a.reads f g) (c : DynamicContext) {r : VariableRef}
    (hr : ∀ s, r = .range s → slots s) : f.valueOf c r = g.valueOf c r := by
  cases r with
  | range slot =>
    unfold Frame.valueOf
    dsimp only
    rw [h.slots slot (hr slot rfl)]
  | global n => rfl

end Frame.Agree

theorem LeafOp.ways_agree {f g : Frame} (c : DynamicContext) (n : Note) (op : LeafOp)
    (h : Frame.Agree (fun s => (Expr.leaf n op).needs s) op.effects.reads f g) :
    (op.ways c n).Matches f (op.ways c n) g := by
  cases op with
  | literal cs =>
    rw [LeafOp.ways_literal]
    exact .ofItems n rfl
  | «variable» r =>
    refine .ofItems n ?_
    rw [h.valueOf c fun s hs => Expr.needs_of_reference (congrArg some hs)]
  | contextItem => exact .ofItem n (by rw [h.contextItem rfl])
  | root => exact .ofItem n (by unfold documentOf Frame.contextNode; rw [h.contextItem rfl])
  | step axis test => exact .ofItems n (by unfold stepNodes Frame.contextNode; rw [h.contextItem rfl])

theorem NaryOp.ways_agree {f g : Frame} {reads : Effects} (c : DynamicContext) (n : Note) (op : NaryOp)
    (args : List Ways) (hargs : ∀ a ∈ args, a.Same f g)
    (hn : ∀ b, op = .call (.builtin b) → b.accepts args.length)
    (hown : Effects.Within { reads := op.ownReads args.length } reads) {slots : Slot → Prop}
    (h : Frame.Agree slots reads.reads f g) : (op.ways c n args).Matches f (op.ways c n args) g := by
  refine op.ways_match c n (List.forall₂_same.2 fun a ha => (hargs a ha).matches) ?_ ?_ ?_
  · rintro b rfl hb
    have huses : b.usesContext args.length := hb.elim id (Builtin.usesContext_of_leavesOut (hn b rfl))
    exact h.contextItem (hown.item huses)
  · rintro rfl
    exact h.position (hown.position rfl)
  · rintro rfl
    exact h.last (hown.last rfl)

namespace Expr

theorem bound_same {f g : Frame} (c : DynamicContext) (e : Expr) (own : Ways) (parts : List Ways)
    {reads : Effects} (h : Frame.Agree (fun s => e.needs s) reads.reads f g) (hown : own.Matches f own g)
    (hcaptured : ∀ slots, own.items (f.capture slots) = own.items (g.capture slots))
    (hparts : ∀ x rest, e.head?.isSome → parts = [x, rest] → rest.Same f g) :
    e.bound c own parts f = e.bound c own parts g := by
  unfold Expr.bound
  cases e.mode with
  | returnEmpty => rfl
  | alreadyValue => simp only [hown.toList]
  | iterateAndMaterialize => simp only [hown.toList]
  | singleItem => simp only [hown.item]
  | pushProduction => simp only [hown.push]
  | oneShotClosure slots => simp only [hcaptured slots]
  | memoClosure slots => simp only [hcaptured slots]
  | evaluateVariable =>
    dsimp only
    split
    · next r hr => exact h.valueOf c fun s hs => needs_of_reference (hs ▸ hr)
    · rw [hown.toList]
  | materializeVariable =>
    dsimp only
    split
    · next r hr => rw [h.valueOf c fun s hs => needs_of_reference (hs ▸ hr)]
    · rw [hown.toList]
  | lazyTail =>
    dsimp only
    split
    · next r n hr => rw [h.valueOf c fun s hs => needs_of_tail (hs ▸ hr)]
    · rw [hown.toList]
  | sharedAppend =>
    dsimp only
    split
    · next r x rest hr =>
      rw [h.valueOf c fun s hs => needs_of_head (hs ▸ hr), (hparts x rest (hr ▸ rfl) rfl).matches.toList]
    · rw [hown.toList]

theorem meaning_note (c : DynamicContext) (e : Expr) : (e.meaning c).note = e.note := by
  cases e with
  | leaf n op => cases op <;> rfl
  | unary n op a => cases op <;> rfl
  | binary n op a b => cases op <;> rfl
  | ternary n op a b d => cases op <;> rfl
  | nary n op args =>
    cases op with
    | block => rfl
    | call r => cases r <;> rfl

theorem meaning_leaf (c : DynamicContext) (n : Note) (op : LeafOp) :
    (leaf n op).meaning c = meaningOf c (leaf n op) [] (op.ways c n) := by
  rw [meaning]

theorem meaning_unary (c : DynamicContext) (n : Note) (op : UnaryOp) (a : Expr) :
    (unary n op a).meaning c = meaningOf c (unary n op a) [(a.meaning c).toWays]
      (op.ways n (a.meaning c).toWays) := by
  rw [meaning]

theorem meaning_binary (c : DynamicContext) (n : Note) (op : BinaryOp) (a b : Expr) :
    (binary n op a b).meaning c = meaningOf c (binary n op a b)
      [(a.meaning c).toWays, (b.meaning c).toWays] (op.ways n (a.meaning c) (b.meaning c)) := by
  rw [meaning]

theorem meaning_ternary (c : DynamicContext) (n : Note) (op : TernaryOp) (a b d : Expr) :
    (ternary n op a b d).meaning c = meaningOf c (ternary n op a b d)
      [(a.meaning c).toWays, (b.meaning c).toWays, (d.meaning c).toWays]
      (op.ways n (a, b) (a.meaning c).toWays (b.meaning c).toWays (d.meaning c).toWays) := by
  rw [meaning]

theorem meanings_eq (c : DynamicContext) (es : List Expr) : meanings c es = es.map (meaning c) := by
  induction es with
  | nil => rfl
  | cons e es ih => rw [meanings, ih, List.map_cons]

/-- The ways of evaluating the operands. -/
def operandWays (c : DynamicContext) (es : List Expr) : List Ways := es.map fun e => (e.meaning c).toWays

theorem meaning_nary (c : DynamicContext) (n : Note) (op : NaryOp) (args : List Expr) :
    (nary n op args).meaning c = meaningOf c (nary n op args) (operandWays c args)
      (op.ways c n (operandWays c args)) := by
  rw [meaning, meanings_eq, List.map_map]
  rfl

/-- The meaning of an expression is the same in frames that agree on what the expression uses. -/
def Determined (c : DynamicContext) (e : Expr) : Prop :=
  ∀ f g, Frame.Agree (fun s => e.needs s) e.effects.reads f g →
    (e.meaning c).Same f g ∧ (e.meaning c).bound f = (e.meaning c).bound g

/-- It suffices to look at the ways of the operator, also for captured frames. -/
theorem determined_of_own {c : DynamicContext} {e : Expr} {own : Ways} {parts : List Ways}
    (hm : e.meaning c = meaningOf c e parts own)
    (hown : ∀ f g, Frame.Agree (fun s => e.needs s) e.effects.reads f g → own.Matches f own g)
    (hparts : ∀ f g, Frame.Agree (fun s => e.needs s) e.effects.reads f g →
      ∀ x rest, e.head?.isSome → parts = [x, rest] → rest.Same f g) : e.Determined c := by
  intro f g h
  rw [hm]
  exact ⟨(hown f g h).same, bound_same c e own parts h (hown f g h)
    (fun slots => (hown _ _ (h.capture slots _)).items) (hparts f g h)⟩

theorem within_unary (op : UnaryOp) (a : Effects) : a.Within (op.effects a) := by
  cases op with
  | element => exact ⟨id, id, id, id, id, fun _ => rfl⟩
  | text => exact ⟨id, id, id, id, id, fun _ => rfl⟩
  | _ => exact .refl a

theorem within_binary_left (op : BinaryOp) (a b : Effects) : a.Within (op.effects a b) := by
  cases op <;> exact .left _ _

theorem within_nary (op : NaryOp) {a : Effects} {as : List Effects} (ha : a ∈ as) :
    a.Within (op.effects as) := by
  refine Effects.Within.trans ?_ (.left _ _)
  induction as with
  | nil => cases ha
  | cons b bs ih =>
    cases ha with
    | head => exact .left _ _
    | tail _ ha => exact (ih ha).trans (.right _ _)

variable {c : DynamicContext}

private theorem determined_binary (n : Note) (op : BinaryOp) (a b : Expr) (hb : b.info.effects = b.effects)
    (ia : a.Determined c) (ib : b.Determined c) {f g : Frame}
    (h : Frame.Agree (fun s => (binary n op a b).needs s) (binary n op a b).effects.reads f g) :
    (op.ways n (a.meaning c) (b.meaning c)).Matches f (op.ways n (a.meaning c) (b.meaning c)) g := by
  rw [effects_binary] at h
  have hslot (s : Slot) (hs : b.needs s) (hne : op.slot? ≠ some s) : (binary n op a b).needs s := by
    simp only [needs, Bool.or_eq_true, Bool.and_eq_true, bne_iff_ne]
    exact .inr ⟨hs, hne⟩
  have ha := (ia f g (h.mono (fun s hs => Bool.or_eq_true_iff.2 (.inl hs))
    (within_binary_left op _ _))).1.matches
  have hfocus (hnone : op.slot? = none) :
      MatchUnderFocus (b.meaning c).toWays f (b.meaning c).toWays g := fun x m size =>
    (ib _ _ (.mono (b := b.effects) (h.withFocus b.effects.reads x m size)
      (fun s hs => hslot s hs (by simp [hnone])) (.refl _))).1.matches
  have hbind (slot : Slot) (hs : op.slot? = some slot)
      (hw : b.effects.Within (op.effects a.effects b.effects)) (v : Value) :
      (b.meaning c).Matches (f.bind slot v) (b.meaning c).toWays (g.bind slot v) :=
    (ib _ _ (h.bind (fun s hb' hne => hslot s hb' (by
      rw [hs]
      intro heq
      exact hne (Option.some.inj heq).symm)) hw v)).1.matches
  by_cases hplain : op.isPlain
  · have hnone : op.slot? = none := by cases op <;> first | rfl | cases hplain
    have hw : b.effects.Within (op.effects a.effects b.effects) := by
      cases op <;> first | exact .right _ _ | cases hplain
    exact op.ways_match n hplain ha
      (ib f g (h.mono (fun s hs => hslot s hs (by simp [hnone])) hw)).1.matches
  · cases op with
    | path => exact .ofItems n (Ways.path_eq ha (hfocus rfl))
    | filter positional =>
      refine .ofItems n (Ways.select_eq ha (hfocus rfl) fun hno => ?_)
      -- A predicate that reads no part of the focus is evaluated in the frame of the filter.
      have hno' : b.effects.reads.focus = false := by
        rw [meaning_note] at hno
        rw [← hb]
        exact hno
      simp only [Dependencies.focus, Bool.or_eq_false_iff] at hno'
      refine (ib f g ⟨fun s hs => h.slots s (hslot s hs (Option.some_ne_none s).symm), ?_, ?_, ?_⟩).1.matches
      · intro hi
        exact absurd hi (by simp [hno'.1.1])
      · intro hp
        exact absurd hp (by simp [hno'.1.2])
      · intro hl
        exact absurd hl (by simp [hno'.2])
    | «for» slot =>
      have hitems (x : Item) : (b.meaning c).items (f.bind slot (.items [x])) =
          (b.meaning c).items (g.bind slot (.items [x])) := (hbind slot rfl (.right _ _) _).items
      exact .ofItems n (by simp only [ha.items, hitems])
    | «let» slot =>
      have hitems (v : Value) : (b.meaning c).items (f.bind slot v) =
          (b.meaning c).items (g.bind slot v) := (hbind slot rfl (.right _ _) v).items
      have hbound := (ia f g (h.mono (fun s hs => Bool.or_eq_true_iff.2 (.inl hs)) (.left _ _))).2
      exact .ofItems n (by simp only [hbound, hitems])
    | quantified q slot =>
      exact .ofItem n (by rw [BinaryOp.quantify_eq q slot ha (hbind slot rfl (.right _ _))])
    | _ => exact absurd rfl hplain

private theorem determined_unary (n : Note) (op : UnaryOp) (a : Expr) (ia : a.Determined c)
    {f g : Frame} (h : Frame.Agree (fun s => (unary n op a).needs s) (unary n op a).effects.reads f g) :
    (op.ways n (a.meaning c).toWays).Matches f (op.ways n (a.meaning c).toWays) g := by
  rw [effects_unary] at h
  refine op.ways_match n (ia f g (h.mono (fun s hs => ?_) (within_unary op a.effects))).1.matches
  rw [needs]
  exact hs

private theorem determined_ternary (n : Note) (op : TernaryOp) (a b d : Expr)
    (ha : a.info.effects = a.effects) (hf : IsFormed (ternary n op a b d)) (ia : a.Determined c)
    (ib : b.Determined c) (id : d.Determined c) {f g : Frame}
    (h : Frame.Agree (fun s => (ternary n op a b d).needs s) (ternary n op a b d).effects.reads f g) :
    (op.ways n (a, b) (a.meaning c).toWays (b.meaning c).toWays (d.meaning c).toWays).Matches f
      (op.ways n (a, b) (a.meaning c).toWays (b.meaning c).toWays (d.meaning c).toWays) g := by
  rw [effects_ternary] at h
  have hslot (s : Slot) (hs : a.needs s ∨ b.needs s ∨ d.needs s) : (ternary n op a b d).needs s := by
    simp only [needs, Bool.or_eq_true, or_assoc]
    exact hs
  have hwa : a.effects.Within (a.effects ∪ b.effects ∪ d.effects) :=
    (Effects.Within.left _ _).trans (.left _ _)
  refine op.ways_match n (a, b)
    (ia f g (h.mono (fun s hs => hslot s (.inl hs)) hwa)).1.matches ?_
    (id f g (h.mono (fun s hs => hslot s (.inr (.inr hs))) (.right _ _))).1.matches ?_
  · cases op with
    | «if» =>
      exact (ib f g (h.mono (fun s hs => hslot s (.inr (.inl hs)))
        ((Effects.Within.right _ _).trans (.left _ _)))).1.matches
    | indexedFilter =>
      intro x m size
      exact (ib _ _ (.mono (b := b.effects) (h.withFocus b.effects.reads x m size)
        (fun s hs => hslot s (.inr (.inl hs))) (.refl _))).1.matches
  · -- The base asks for no position, so what it reads of the focus is the context item.
    rintro rfl hfocus
    rw [meaning_note] at hfocus
    have hreads : a.effects.reads.focus := ha ▸ hfocus
    simp only [Dependencies.focus, Bool.or_eq_true] at hreads
    obtain ⟨hp, hl⟩ := hf
    refine h.contextItem (hwa.item ?_)
    simpa [hp, hl] using hreads

private theorem determined_nary (n : Note) (op : NaryOp) (args : List Expr)
    (ih : ∀ a ∈ args, a.Determined c) {f g : Frame}
    (h : Frame.Agree (fun s => (nary n op args).needs s) (nary n op args).effects.reads f g) :
    ∀ a ∈ operandWays c args, a.Same f g := by
  rw [effects_nary] at h
  intro m hm
  obtain ⟨a, ha, rfl⟩ := List.mem_map.1 hm
  refine (ih a ha f g (h.mono (fun s hs => ?_) (within_nary op (List.mem_map_of_mem ha)))).1
  rw [needs]
  exact needsList_iff.2 ⟨a, ha, hs⟩

private theorem length_operandWays (args : List Expr) : (operandWays c args).length = args.length :=
  List.length_map _

/-- The meaning of a checked expression is determined by its free variables and by the parts of the focus
that it is recorded to read. -/
theorem determined (c : DynamicContext) (e : Expr) (hr : e.Recorded) (hf : e.All IsFormed) :
    e.Determined c := by
  match e with
  | leaf n op =>
    refine determined_of_own (meaning_leaf c n op) (fun f g h => op.ways_agree c n h) ?_
    intro f g h x rest hhead
    exact nomatch hhead
  | unary n op a =>
    have ih := determined c a (all_unary.1 hr).2 (all_unary.1 hf).2
    refine determined_of_own (meaning_unary c n op a) (fun f g h => determined_unary n op a ih h) ?_
    intro f g h x rest hhead
    exact nomatch hhead
  | binary n op a b =>
    obtain ⟨_, hra, hrb⟩ := all_binary.1 hr
    obtain ⟨_, hfa, hfb⟩ := all_binary.1 hf
    have ia := determined c a hra hfa
    have ib := determined c b hrb hfb
    refine determined_of_own (meaning_binary c n op a b)
      (fun f g h => determined_binary n op a b hrb.self ia ib h) ?_
    intro f g h x rest hhead
    exact nomatch hhead
  | ternary n op a b d =>
    obtain ⟨_, hra, hrb, hrd⟩ := all_ternary.1 hr
    obtain ⟨hno, hfa, hfb, hfd⟩ := all_ternary.1 hf
    have ia := determined c a hra hfa
    have ib := determined c b hrb hfb
    have id := determined c d hrd hfd
    refine determined_of_own (meaning_ternary c n op a b d)
      (fun f g h => determined_ternary n op a b d hra.self hno ia ib id h) ?_
    intro f g h x rest hhead
    exact nomatch hhead
  | nary n op args =>
    obtain ⟨_, hra⟩ := all_nary.1 hr
    obtain ⟨hno, hfa⟩ := all_nary.1 hf
    have ih : ∀ a ∈ args, a.Determined c := fun a ha => determined c a (hra a ha) (hfa a ha)
    refine determined_of_own (meaning_nary c n op args) (fun f g h => ?_) fun f g h x rest _ hp => ?_
    · have h' := h
      rw [effects_nary] at h'
      refine op.ways_agree c n _ (determined_nary n op args ih h) ?_ ?_ h'
      · rintro b rfl
        rw [length_operandWays]
        exact hno
      · rw [length_operandWays, NaryOp.effects, List.length_map]
        exact .right _ _
    · exact determined_nary n op args ih h rest (hp ▸ by simp)

end Expr

end XPath
