import XPath.Proofs.Scope

/-!
What an evaluation does where a variable has no value, made a parameter. If the answer is the same whatever
is to happen there, the evaluation never gets there.
-/
namespace XPath

namespace Frame

/-- The value of a variable. Where a range variable has none, `absent` tells what happens. -/
def valueOr (absent : Slot → Eval Value) (f : Frame) (c : DynamicContext) : VariableRef → Eval Value
  | .range slot => match f.slots slot with
    | some v => pure v
    | none => absent slot
  | .global n => f.valueOf c (.global n)

end Frame

/-- A variable without a value is a dynamic error. -/
def raiseAbsent (_ : Slot) : Eval Value := Eval.fail .absentDynamic

theorem Frame.valueOr_raise (f : Frame) (c : DynamicContext) (r : VariableRef) :
    f.valueOr raiseAbsent c r = f.valueOf c r := by
  cases r with
  | range slot =>
    unfold valueOr valueOf
    dsimp only
    cases f.slots slot <;> rfl
  | global n => rfl

namespace LeafOp

def waysOr (absent : Slot → Eval Value) (c : DynamicContext) (n : Note) : LeafOp → Ways
  | .variable r => .ofItems n fun f => .after (return (← f.valueOr absent c r).source)
  | op => op.ways c n

end LeafOp

namespace Expr

/-- The value of an expression for a variable, in a frame where some variables may have no value. -/
def boundOr (absent : Slot → Eval Value) (c : DynamicContext) (e : Expr) (own : Ways) (parts : List Ways)
    (f : Frame) : Eval Value := do
  let all := do return Value.items (← own.toList f)
  match e.mode with
  | .returnEmpty => return .items []
  | .alreadyValue | .iterateAndMaterialize => all
  | .singleItem => return .items (← own.item f).toList
  | .pushProduction => return .items (← own.push f)
  | .evaluateVariable => match e.reference? with
    | some r => f.valueOr absent c r
    | none => all
  | .materializeVariable => match e.reference? with
    | some r => return .items (← (← f.valueOr absent c r).toList)
    | none => all
  | .oneShotClosure slots => return .deferred (← Deferred.create false (own.items (f.capture slots))) 0
  | .memoClosure slots => return .deferred (← Deferred.create true (own.items (f.capture slots))) 0
  | .lazyTail => match e.tail? with
    | some (r, n) => (← f.valueOr absent c r).tail n
    | none => all
  | .sharedAppend => match e.head?, parts with
    | some r, [_, rest] => do
      let xs ← (← f.valueOr absent c r).toList
      return .items (xs ++ (← rest.toList f))
    | _, _ => all

mutual

/-- The meaning of an expression, in frames where some variables may have no value. -/
def meaningOr (absent : Slot → Eval Value) (c : DynamicContext) : Expr → Meaning
  | leaf n op =>
    let own := op.waysOr absent c n
    ⟨own, (leaf n op).boundOr absent c own []⟩
  | unary n op a =>
    let x := a.meaningOr absent c
    let own := op.ways n x.toWays
    ⟨own, (unary n op a).boundOr absent c own [x.toWays]⟩
  | binary n op a b =>
    let x := a.meaningOr absent c
    let y := b.meaningOr absent c
    let own := op.ways n x y
    ⟨own, (binary n op a b).boundOr absent c own [x.toWays, y.toWays]⟩
  | ternary n op a b d =>
    let x := (a.meaningOr absent c).toWays
    let y := (b.meaningOr absent c).toWays
    let z := (d.meaningOr absent c).toWays
    let own := op.ways n (a, b) x y z
    ⟨own, (ternary n op a b d).boundOr absent c own [x, y, z]⟩
  | nary n op args =>
    let xs := (meaningsOr absent c args).map (·.toWays)
    let own := op.ways c n xs
    ⟨own, (nary n op args).boundOr absent c own xs⟩

def meaningsOr (absent : Slot → Eval Value) (c : DynamicContext) : List Expr → List Meaning
  | [] => []
  | e :: es => e.meaningOr absent c :: meaningsOr absent c es

end

theorem boundOr_raise (c : DynamicContext) (e : Expr) (own : Ways) (parts : List Ways) :
    e.boundOr raiseAbsent c own parts = e.bound c own parts := by
  funext f
  unfold boundOr
  simp only [Frame.valueOr_raise]
  rfl

theorem waysOr_raise (c : DynamicContext) (n : Note) (op : LeafOp) :
    op.waysOr raiseAbsent c n = op.ways c n := by
  cases op with
  | «variable» r => simp only [LeafOp.waysOr, LeafOp.ways, Frame.valueOr_raise]
  | _ => rfl

mutual

/-- An evaluation as it is. -/
theorem meaningOr_raise (c : DynamicContext) (e : Expr) : e.meaningOr raiseAbsent c = e.meaning c := by
  match e with
  | leaf n op => rw [meaningOr, meaning, waysOr_raise, boundOr_raise, meaningOf]
  | unary n op a => rw [meaningOr, meaning, meaningOr_raise c a, boundOr_raise, meaningOf]
  | binary n op a b =>
    rw [meaningOr, meaning, meaningOr_raise c a, meaningOr_raise c b, boundOr_raise, meaningOf]
  | ternary n op a b d =>
    rw [meaningOr, meaning, meaningOr_raise c a, meaningOr_raise c b, meaningOr_raise c d, boundOr_raise,
      meaningOf]
  | nary n op args => rw [meaningOr, meaning, meaningsOr_raise c args, boundOr_raise, meaningOf]

theorem meaningsOr_raise (c : DynamicContext) (es : List Expr) :
    meaningsOr raiseAbsent c es = meanings c es := by
  match es with
  | [] => rfl
  | e :: es => rw [meaningsOr, meanings, meaningOr_raise c e, meaningsOr_raise c es]

end

/-- What is put off captures all variables that it needs. -/
def Captures (e : Expr) : Prop :=
  ∀ slots, e.mode = .oneShotClosure slots ∨ e.mode = .memoClosure slots → ∀ s, e.needs s → s ∈ slots

/-- The value of a let captures what it needs. -/
def IsCapturing : Expr → Prop
  | binary _ (.let _) a _ => a.Captures
  | _ => True

/-- Of the variables that the expression needs, those that have no value are treated alike. -/
def Treats (absent absent' : Slot → Eval Value) (e : Expr) (f : Frame) : Prop :=
  ∀ s, e.needs s → f.slots s = none → absent s = absent' s

variable {absent absent' : Slot → Eval Value} {c : DynamicContext} {f : Frame}

namespace Treats
variable {a e : Expr}

theorem part (h : Treats absent absent' e f) (ha : ∀ s, a.needs s → e.needs s) :
    Treats absent absent' a f := fun s hs => h s (ha s hs)

theorem withFocus (h : Treats absent absent' e f) (x : Item) (n : ℕ) (size : Option ℕ) :
    Treats absent absent' e (f.withFocus x n size) := h

/-- A variable that is bound has a value. -/
theorem bind {slot : Slot} (h : Treats absent absent' e f) (v : Value)
    (ha : ∀ s, a.needs s → s ≠ slot → e.needs s) : Treats absent absent' a (f.bind slot v) := by
  intro s hs hnone
  unfold Frame.bind at hnone
  dsimp only at hnone
  split at hnone
  · cases hnone
  · next hne => exact h s (ha s hs hne) hnone

/-- A captured variable has a value if it had one. -/
theorem capture {slots : List Slot} (h : Treats absent absent' e f) (hslots : ∀ s, e.needs s → s ∈ slots) :
    Treats absent absent' e (f.capture slots) := by
  intro s hs hnone
  unfold Frame.capture at hnone
  dsimp only at hnone
  rw [if_pos (by simpa using hslots s hs)] at hnone
  exact h s hs hnone

theorem valueOr (h : Treats absent absent' e f) {r : VariableRef} (hr : ∀ s, r = .range s → e.needs s) :
    f.valueOr absent c r = f.valueOr absent' c r := by
  cases r with
  | range slot =>
    unfold Frame.valueOr
    dsimp only
    cases hslot : f.slots slot with
    | none => exact h slot (hr slot rfl) hslot
    | some v => rfl
  | global n => rfl

end Treats

/-- Two evaluations that treat alike what an expression needs do the same with it. -/
structure Alike (absent absent' : Slot → Eval Value) (c : DynamicContext) (e : Expr) (f : Frame) : Prop where
  ways : (e.meaningOr absent c).Matches f (e.meaningOr absent' c).toWays f
  bound : e.Captures → (e.meaningOr absent c).bound f = (e.meaningOr absent' c).bound f

theorem boundOr_alike {e : Expr} {own own' : Ways} {parts parts' : List Ways} (he : e.Captures)
    (hown : ∀ g, Treats absent absent' e g → own.Matches g own' g)
    (hparts : e.head?.isSome → List.Forall₂ (fun a b => a.Matches f b f) parts parts')
    (hf : Treats absent absent' e f) :
    e.boundOr absent c own parts f = e.boundOr absent' c own' parts' f := by
  have hall : own.toList f = own'.toList f := (hown f hf).toList
  have hitems {slots : List Slot} (hslots : ∀ s, e.needs s → s ∈ slots) :
      own.items (f.capture slots) = own'.items (f.capture slots) := (hown _ (hf.capture hslots)).items
  unfold boundOr
  cases hmode : e.mode with
  | returnEmpty => rfl
  | alreadyValue => simp only [hall]
  | iterateAndMaterialize => simp only [hall]
  | singleItem => simp only [(hown f hf).item]
  | pushProduction => simp only [(hown f hf).push]
  | oneShotClosure slots => simp only [hitems (he slots (.inl hmode))]
  | memoClosure slots => simp only [hitems (he slots (.inr hmode))]
  | evaluateVariable =>
    dsimp only
    split
    · next r hr => exact hf.valueOr fun s hs => needs_of_reference (hs ▸ hr)
    · rw [hall]
  | materializeVariable =>
    dsimp only
    split
    · next r hr => rw [hf.valueOr fun s hs => needs_of_reference (hs ▸ hr)]
    · rw [hall]
  | lazyTail =>
    dsimp only
    split
    · next r n hr => rw [hf.valueOr fun s hs => needs_of_tail (hs ▸ hr)]
    · rw [hall]
  | sharedAppend =>
    dsimp only
    cases hhead : e.head? with
    | none => simp only [hall]
    | some r =>
      have hr : f.valueOr absent c r = f.valueOr absent' c r :=
        hf.valueOr fun s hs => needs_of_head (hs ▸ hhead)
      obtain _ | ⟨hx, _ | ⟨hy, _ | _⟩⟩ := hparts (by rw [hhead]; rfl)
      · simp only [hall]
      · simp only [hall]
      · simp only [hr, hy.toList]
      · simp only [hall]

theorem meaningsOr_eq (absent : Slot → Eval Value) (c : DynamicContext) (es : List Expr) :
    meaningsOr absent c es = es.map (meaningOr absent c) := by
  induction es with
  | nil => rfl
  | cons e es ih => rw [meaningsOr, ih, List.map_cons]

/-- It suffices to look at the ways of the operator. -/
theorem alike_of_own {e : Expr} {own own' : Ways} {parts parts' : List Ways}
    (hm : e.meaningOr absent c = ⟨own, e.boundOr absent c own parts⟩)
    (hm' : e.meaningOr absent' c = ⟨own', e.boundOr absent' c own' parts'⟩)
    (hown : ∀ g, Treats absent absent' e g → own.Matches g own' g)
    (hparts : e.head?.isSome → List.Forall₂ (fun a b => a.Matches f b f) parts parts')
    (hf : Treats absent absent' e f) :
    Alike absent absent' c e f := by
  constructor
  · rw [hm, hm']
    exact hown f hf
  · intro he
    rw [hm, hm']
    exact boundOr_alike he hown hparts hf

theorem waysOr_alike {n : Note} {op : LeafOp} (hf : Treats absent absent' (leaf n op) f) :
    (op.waysOr absent c n).Matches f (op.waysOr absent' c n) f := by
  cases op with
  | «variable» r =>
    refine .ofItems n ?_
    rw [hf.valueOr fun s hs => needs_of_reference (congrArg some hs)]
  | _ => exact ⟨rfl, rfl, rfl, rfl⟩

variable {n : Note} {a b d : Expr}

theorem ways_binary_alike {op : BinaryOp} (hop : IsCapturing (binary n op a b))
    (ia : ∀ f, Treats absent absent' a f → Alike absent absent' c a f)
    (ib : ∀ f, Treats absent absent' b f → Alike absent absent' c b f)
    (hf : Treats absent absent' (binary n op a b) f) :
    (op.ways n (a.meaningOr absent c) (b.meaningOr absent c)).Matches f
      (op.ways n (a.meaningOr absent' c) (b.meaningOr absent' c)) f := by
  have ha := ia f (hf.part fun s hs => by rw [needs, hs, Bool.true_or])
  have hright {g : Frame} (hg : Treats absent absent' (binary n op a b) g) (hnone : op.slot? = none) :
      (b.meaningOr absent c).Matches g (b.meaningOr absent' c).toWays g :=
    (ib g (hg.part fun s hs => by simp [needs, hs, hnone])).ways
  have hfocus (hnone : op.slot? = none) : MatchUnderFocus (b.meaningOr absent c).toWays f
      (b.meaningOr absent' c).toWays f := fun x m size => hright (hf.withFocus x m size) hnone
  have hbind {slot : Slot} (hslot : op.slot? = some slot) (v : Value) :
      (b.meaningOr absent c).Matches (f.bind slot v) (b.meaningOr absent' c).toWays (f.bind slot v) := by
    refine (ib _ (hf.bind v fun s hs hne => ?_)).ways
    simp [needs, hs, hslot, hne.symm]
  by_cases hplain : op.isPlain
  · have hnone : op.slot? = none := by cases op <;> first | rfl | cases hplain
    exact op.ways_match n hplain ha.ways (hright hf hnone)
  · cases op with
    | path => exact .ofItems n (Ways.path_eq ha.ways (hfocus rfl))
    | filter positional => exact .ofItems n (Ways.select_eq ha.ways (hfocus rfl) fun _ => hright hf rfl)
    | «for» slot =>
      have hitems (x : Item) : (b.meaningOr absent c).items (f.bind slot (.items [x])) =
          (b.meaningOr absent' c).items (f.bind slot (.items [x])) := (hbind rfl _).items
      exact .ofItems n (by simp only [ha.ways.items, hitems])
    | «let» slot =>
      have hitems (v : Value) : (b.meaningOr absent c).items (f.bind slot v) =
          (b.meaningOr absent' c).items (f.bind slot v) := (hbind rfl v).items
      exact .ofItems n (by simp only [ha.bound hop, hitems])
    | quantified q slot => exact .ofItem n (by rw [BinaryOp.quantify_eq q slot ha.ways (hbind rfl)])
    | _ => exact absurd rfl hplain

/-- If whatever is put off captures what it needs, then an evaluation meets no variable without a value but
those that the expression needs and that had none to begin with. -/
theorem alike (e : Expr) (he : e.All IsCapturing) (f : Frame) (hf : Treats absent absent' e f) :
    Alike absent absent' c e f := by
  match e with
  | leaf n op =>
    exact alike_of_own (by rw [meaningOr]) (by rw [meaningOr]) (fun g => waysOr_alike) (fun _ => .nil) hf
  | unary n op a =>
    have ia (g : Frame) (hg : Treats absent absent' (unary n op a) g) :=
      (alike a (all_unary.1 he).2 g (hg.part fun s hs => by rw [needs, hs])).ways
    exact alike_of_own (by rw [meaningOr]) (by rw [meaningOr]) (fun g hg => op.ways_match n (ia g hg))
      (fun _ => .cons (ia f hf) .nil) hf
  | binary n op a b =>
    obtain ⟨hop, hea, heb⟩ := all_binary.1 he
    exact alike_of_own (by rw [meaningOr]) (by rw [meaningOr])
      (fun g hg => ways_binary_alike hop (alike a hea) (alike b heb) hg) (by rintro ⟨⟩) hf
  | ternary n op a b d =>
    obtain ⟨_, hea, heb, hed⟩ := all_ternary.1 he
    have ia (g : Frame) (hg : Treats absent absent' (ternary n op a b d) g) :=
      (alike a hea g (hg.part fun s hs => by simp [needs, hs])).ways
    have ib (g : Frame) (hg : Treats absent absent' (ternary n op a b d) g) :=
      (alike b heb g (hg.part fun s hs => by simp [needs, hs])).ways
    have id (g : Frame) (hg : Treats absent absent' (ternary n op a b d) g) :=
      (alike d hed g (hg.part fun s hs => by simp [needs, hs])).ways
    refine alike_of_own (by rw [meaningOr]) (by rw [meaningOr]) (fun g hg => ?_)
      (fun _ => .cons (ia f hf) (.cons (ib f hf) (.cons (id f hf) .nil))) hf
    refine op.ways_match n (a, b) (ia g hg) ?_ (id g hg) fun _ _ => rfl
    split
    · exact ib g hg
    · exact fun x m size => ib _ (hg.withFocus x m size)
  | nary n op args =>
    obtain ⟨_, hargs⟩ := all_nary.1 he
    have ih (g : Frame) (hg : Treats absent absent' (nary n op args) g) :
        List.Forall₂ (fun x y : Ways => x.Matches g y g) ((meaningsOr absent c args).map (·.toWays))
          ((meaningsOr absent' c args).map (·.toWays)) := by
      rw [meaningsOr_eq, meaningsOr_eq, List.map_map, List.map_map, List.forall₂_map_left_iff,
        List.forall₂_map_right_iff, List.forall₂_same]
      refine fun a ha => (alike a (hargs a ha) g (hg.part fun s hs => ?_)).ways
      rw [needs]
      exact needsList_iff.2 ⟨a, ha, hs⟩
    refine alike_of_own (by rw [meaningOr]) (by rw [meaningOr]) (fun g hg => ?_) (fun _ => ih f hf) hf
    exact op.ways_match c n (ih g hg) (fun _ _ _ => rfl) (fun _ => rfl) fun _ => rfl

end Expr
namespace Modes
open XPath.Expr

/-- A mode that puts a value off captures the variables that are free in it. -/
theorem choose_captures {unit : CompileUnit} {slot : Slot} {value action : Expr} {slots : List Slot}
    (h : choose unit slot value action = .oneShotClosure slots ∨
      choose unit slot value action = .memoClosure slots) : slots = value.freeSlots := by
  have heager : eager value ≠ .oneShotClosure slots ∧ eager value ≠ .memoClosure slots := by
    unfold eager
    split
    · simp
    · split <;> simp
  unfold choose at h
  grind

theorem withMode_captures {e : Expr} {m : Mode} (he : e.IsScoped)
    (hm : ∀ slots, m = .oneShotClosure slots ∨ m = .memoClosure slots → slots = e.freeSlots) :
    (e.withMode m).Captures := by
  intro slots hslots s hs
  have hmode : (e.withMode m).mode = m := by cases e <;> rfl
  rw [hmode] at hslots
  rw [(Resembles.withMode e m).needs] at hs
  rw [hm slots hslots]
  exact he.mem_freeSlots hs

theorem isCapturing_withMode {e : Expr} (m : Mode) (h : e.IsCapturing) : (e.withMode m).IsCapturing := by
  cases e with
  | binary n op a b => cases op <;> exact h
  | _ => trivial

mutual

/-- In a tree whose binders have slots of their own, what is put off captures what it needs. -/
theorem assign_captures (unit : CompileUnit) (e : Expr) (hbound : WellBound [e]) :
    (assign unit e).All IsCapturing := by
  match e with
  | .leaf n op => exact all_leaf.2 trivial
  | .unary n op a => exact all_unary.2 ⟨trivial, assign_captures unit a hbound.unary⟩
  | .binary n op a b =>
    have ha := assign_captures unit a hbound.binary.head
    have hb := assign_captures unit b hbound.binary.tail
    cases op with
    | «let» slot =>
      have hscoped : (assign unit a).IsScoped := (assign_resembles unit a).isScoped fun s hs hmem =>
        hbound.binary.head.inScope a List.mem_cons_self s hs (by simpa using hmem)
      exact all_binary.2 ⟨withMode_captures hscoped fun slots => choose_captures,
        all_withMode _ ha (isCapturing_withMode _ ha.self), hb⟩
    | _ => exact all_binary.2 ⟨trivial, ha, hb⟩
  | .ternary n op a b d =>
    have habd := hbound.ternary
    exact all_ternary.2 ⟨trivial, assign_captures unit a habd.head, assign_captures unit b habd.tail.head,
      assign_captures unit d habd.tail.tail⟩
  | .nary n op args => exact all_nary.2 ⟨trivial, assignList_captures unit args hbound.nary⟩

theorem assignList_captures (unit : CompileUnit) (es : List Expr) (hbound : WellBound es) :
    ∀ e ∈ assignList unit es, e.All IsCapturing := by
  match es with
  | [] => simp [assignList]
  | e :: es =>
    exact List.forall_mem_cons.2 ⟨assign_captures unit e hbound.head, assignList_captures unit es hbound.tail⟩

end

end Modes
end XPath
