import XPath.Proofs.Absence
import XPath.Proofs.Demand
import XPath.Proofs.Inference
import XPath.Proofs.Preservation

/-!
How often a one-shot closure is started. The mode is chosen by the uses of the variable of the let alone. The closure is
started once at most, wherever in a run it is made, if every variable that its value is handed on to is used once at
most as well. An alias that is used twice starts it twice.
-/
namespace XPath

/-! The way to an expression. -/

/-- What evaluating an expression comes to, and in which frames, on ways on which no variable is bound to the evaluation
in this cell. -/
inductive Enters (c : DynamicContext) (cell : ℕ) (e₀ : Expr) (f₀ : Frame) : Expr → Frame → Prop where
  | start : Enters c cell e₀ f₀ e₀ f₀
  /-- An operand, whatever the focus is. -/
  | operand {e a f g} : Enters c cell e₀ f₀ e f → a ∈ e.children → g.slots = f.slots → Enters c cell e₀ f₀ a g
  /-- An operand with a variable bound to an item. -/
  | item {e a f} {s : Slot} {x : Item} : Enters c cell e₀ f₀ e f → a ∈ e.children →
      Enters c cell e₀ f₀ a (f.bind s (.items [x]))
  /-- The body of a let, whenever the value for its variable has been obtained. -/
  | body {n s a b f w w' v} : Enters c cell e₀ f₀ (.binary n (.let s) a b) f →
      ((a.meaning c).bound f).perform w = (.ok v, w') → (∀ d skip, v = .deferred d skip → d.cell ≠ cell) →
      Enters c cell e₀ f₀ b (f.bind s v)
  /-- The value of a let, put off. -/
  | value {n s a b f} (slots : List Slot) : Enters c cell e₀ f₀ (.binary n (.let s) a b) f →
      Enters c cell e₀ f₀ a (f.capture slots)

namespace Expr

theorem All.child {P : Expr → Prop} {e a : Expr} (h : e.All P) (ha : a ∈ e.children) : a.All P := by
  cases e with
  | leaf n op => cases ha
  | unary n op x =>
    rw [List.mem_singleton.1 ha]
    exact (all_unary.1 h).2
  | binary n op x y =>
    obtain ⟨-, hx, hy⟩ := all_binary.1 h
    obtain rfl | rfl := List.mem_pair.1 ha
    · exact hx
    · exact hy
  | ternary n op x y z =>
    obtain ⟨-, hx, hy, hz⟩ := all_ternary.1 h
    obtain rfl | ha := List.mem_cons.1 ha
    · exact hx
    · obtain rfl | rfl := List.mem_pair.1 ha
      · exact hy
      · exact hz
  | nary n op args => exact (all_nary.1 h).2 a ha

theorem All.entered {P : Expr → Prop} {c : DynamicContext} {cell : ℕ} {e₀ e : Expr} {f₀ f : Frame} (h : e₀.All P)
    (he : Enters c cell e₀ f₀ e f) : e.All P := by
  induction he with
  | start => exact h
  | operand _ ha _ ih => exact ih.child ha
  | item _ ha ih => exact ih.child ha
  | body _ _ _ ih => exact (all_binary.1 ih).2.2
  | value _ _ ih => exact (all_binary.1 ih).2.1

end Expr

namespace Meter
open XPath.Expr
variable {M : Meter} {β : Slot → ℕ∞} {c : DynamicContext} {e : Expr} {f : Frame} {v : Value} {w w' : World}

/-! Frames that do not lead to the cell. -/

theorem exists_parts (c : DynamicContext) (e : Expr) :
    ∃ parts, (e.meaning c).bound = e.bound c (e.meaning c).toWays parts := by
  cases e with
  | leaf n op => exact ⟨[], by rw [meaning_leaf]; rfl⟩
  | unary n op a => exact ⟨[(a.meaning c).toWays], by rw [meaning_unary]; rfl⟩
  | binary n op a b => exact ⟨[(a.meaning c).toWays, (b.meaning c).toWays], by rw [meaning_binary]; rfl⟩
  | ternary n op a b d =>
    exact ⟨[(a.meaning c).toWays, (b.meaning c).toWays, (d.meaning c).toWays], by rw [meaning_ternary]; rfl⟩
  | nary n op args => exact ⟨operandWays c args, by rw [meaning_nary]; rfl⟩

/-- The answer of the first step, if the whole succeeds. -/
theorem exists_of_bind {α γ : Type} {p : Eval α} {g : α → Eval γ} {y : γ} (h : (p >>= g).perform w = (.ok y, w')) :
    ∃ x w₁, p.perform w = (.ok x, w₁) ∧ (g x).perform w₁ = (.ok y, w') := by
  rw [Regime.perform_bind] at h
  generalize p.perform w = r at h ⊢
  obtain ⟨r, w₁⟩ := r
  cases r with
  | error e => cases h
  | ok x => exact ⟨x, w₁, rfl, h⟩

theorem exists_of_require {α : Type} {code : ErrorCode} {o : Option α} {x : α}
    (h : (Eval.require code o).perform w = (.ok x, w')) : o = some x := by
  cases o with
  | none => cases h
  | some y => cases h; rfl

theorem holds_of_items {α : Type} {p : Eval α} {g : α → List Item} {m : ℕ∞}
    (h : (do return Value.items (g (← p))).perform w = (.ok v, w')) : M.Holds m v := by
  obtain ⟨xs, w₁, -, h⟩ := exists_of_bind h
  cases h
  trivial

theorem HasFrame.holds (h : M.HasFrame 0 f) {r : VariableRef} (hv : (f.valueOf c r).perform w = (.ok v, w')) :
    M.Holds 0 v := by
  cases r with
  | range s => exact h s v (exists_of_require hv)
  | global n =>
    obtain ⟨xs, -, rfl⟩ := Option.map_eq_some_iff.1 (exists_of_require hv)
    trivial

/-- A value that is not put off in the cell does not lead to it. -/
theorem HasFrame.holds_bound (h : M.HasFrame 0 f) (hv : ((e.meaning c).bound f).perform w = (.ok v, w'))
    (hcell : ∀ d skip, v = .deferred d skip → d.cell ≠ M.cell) : M.Holds 0 v := by
  have hdefer {keeps : Bool} {slots : List Slot}
      (hv : (do return Value.deferred (← Deferred.create keeps ((e.meaning c).items (f.capture slots))) 0).perform w =
        (.ok v, w')) : M.Holds 0 v := by
    cases hv
    have hitems := (means c e 0 _ (h.capture slots)).ways.items
    rw [demand_zero] at hitems
    have hstart := yields_start (M := M) (d := ⟨w.cells.size, keeps, (e.meaning c).items (f.capture slots)⟩) hitems
    rwa [if_neg (hcell _ _ rfl), zero_add] at hstart
  obtain ⟨parts, hbound⟩ := exists_parts c e
  rw [hbound] at hv
  unfold Expr.bound at hv
  dsimp only at hv
  split at hv
  · cases hv
    trivial
  · exact holds_of_items hv
  · exact holds_of_items hv
  · exact holds_of_items hv
  · exact holds_of_items hv
  · split at hv
    · exact h.holds hv
    · exact holds_of_items hv
  · split at hv
    · obtain ⟨u, w₁, -, hv⟩ := exists_of_bind hv
      exact holds_of_items hv
    · exact holds_of_items hv
  · exact hdefer hv
  · exact hdefer hv
  · split at hv
    · obtain ⟨u, w₁, hu, hv⟩ := exists_of_bind hv
      exact (h.holds hu).tail (exists_of_require hv)
    · exact holds_of_items hv
  · split at hv
    · obtain ⟨u, w₁, -, hv⟩ := exists_of_bind hv
      obtain ⟨xs, w₂, -, hv⟩ := exists_of_bind hv
      exact holds_of_items hv
    · exact holds_of_items hv

/-- No frame on these ways leads to the cell. -/
theorem HasFrame.entered {e₀ : Expr} {f₀ : Frame} (h : M.HasFrame 0 f₀) (he : Enters c M.cell e₀ f₀ e f) :
    M.HasFrame 0 f := by
  have hbind {f : Frame} {s : Slot} {v : Value} (hf : M.HasFrame 0 f) (hv : M.Holds 0 v) :
      M.HasFrame 0 (f.bind s v) := by
    have hupdate : M.HasFrame (Function.update 0 s 0) (f.bind s v) := hf.bind hv
    rwa [show Function.update (0 : Slot → ℕ∞) s 0 = 0 from Function.update_eq_self s 0] at hupdate
  induction he with
  | start => exact h
  | operand _ _ hg ih => exact fun s v hv => ih s v (hg ▸ hv)
  | item _ _ ih => exact hbind ih trivial
  | body _ hv hcell ih => exact hbind ih (ih.holds_bound hv hcell)
  | value slots _ ih => exact ih.capture slots

/-- Whatever way the expression is evaluated in this world, the reading is so much at most. -/
structure Leaves (M : Meter) (m : ℕ∞) (x : Ways) (f : Frame) (w : World) : Prop where
  item : M.Reads m ((x.item f).perform w).2
  items : M.Gives m (x.items f w)
  push : M.Reads m ((x.push f).perform w).2

theorem Leaves.of_le {m m' : ℕ∞} {x : Ways} (h : M.Leaves m x f w) (hle : m ≤ m') : M.Leaves m' x f w :=
  ⟨h.item.of_le hle, h.items.of_le hle, h.push.of_le hle⟩

theorem Leaves.ofItems {m : ℕ∞} (n : Note) {x : Frame → Items} (h : M.Gives m (x f w)) :
    M.Leaves m (.ofItems n x) f w := by
  refine ⟨(h.mapError _).only? _, h.mapError _, ?_⟩
  change M.Reads m (Action.perform (Action.mapError _ (x f).toList) w).2
  rw [Regime.perform_mapError]
  exact h.collect []

/-- The let that makes the cell starts the evaluation in it as often as its body demands of its variable. -/
theorem leaves_let {n : Note} {s : Slot} {a b : Expr} {slots : List Slot} (hf : HasFrame ⟨w.cells.size⟩ 0 f)
    (hmode : a.mode = .oneShotClosure slots) :
    Leaves ⟨w.cells.size⟩ (b.demand (oneUse s)) ((binary n (.let s) a b).meaning c).toWays f w := by
  let d : Deferred := ⟨w.cells.size, false, (a.meaning c).items (f.capture slots)⟩
  have hbound : ((a.meaning c).bound f).perform w = (.ok (.deferred d 0), { w with cells := w.cells.push {} }) := by
    obtain ⟨parts, hbound⟩ := exists_parts c a
    rw [hbound]
    unfold Expr.bound
    rw [hmode]
    rfl
  have hreads : Reads ⟨w.cells.size⟩ 0 { w with cells := w.cells.push {} } := ⟨{}, Array.getElem?_push_size, le_rfl⟩
  have hstart : Yields ⟨w.cells.size⟩ 1 d.start := by
    have hitems := (means c a 0 _ (hf.capture slots)).ways.items
    rw [demand_zero] at hitems
    have hstart := yields_start (d := d) hitems
    rwa [if_pos rfl, add_zero] at hstart
  have hframe : HasFrame ⟨w.cells.size⟩ (oneUse s) (f.bind s (.deferred d 0)) := hf.bind hstart
  have hbody := (means c b _ _ hframe).ways.items 0 _ hreads
  rw [zero_add] at hbody
  rw [meaning_binary]
  refine Leaves.ofItems n ?_
  rw [Source.after, Regime.perform_bind, hbound]
  exact hbody

end Meter

/-! The modes that are chosen. -/

namespace Modes
open XPath.Expr

/-- A one-shot closure is chosen for a variable that is used once at most. -/
theorem uses_of_choose {unit : CompileUnit} {slot : Slot} {value action : Expr} {slots : List Slot}
    (h : choose unit slot value action = .oneShotClosure slots) : action.uses slot ≤ 1 := by
  have heager : eager value ≠ .oneShotClosure slots := by
    unfold eager
    split
    · simp
    · split <;> simp
  unfold choose at h
  grind

/-- The value of a let has the mode that is chosen for it. -/
def IsChosen (unit : CompileUnit) : Expr → Prop
  | .binary _ (.let s) a b => ∃ value, a.mode = choose unit s value b
  | _ => True

theorem isChosen_withMode {unit : CompileUnit} {e : Expr} (m : Mode) (h : IsChosen unit e) :
    IsChosen unit (e.withMode m) := by
  cases e with
  | binary n op a b => cases op <;> exact h
  | _ => trivial

mutual

theorem assign_chosen (unit : CompileUnit) (e : Expr) : (assign unit e).All (IsChosen unit) := by
  match e with
  | .leaf n op => exact all_leaf.2 trivial
  | .unary n op a => exact all_unary.2 ⟨trivial, assign_chosen unit a⟩
  | .binary n op a b =>
    have ha := assign_chosen unit a
    have hb := assign_chosen unit b
    cases op with
    | «let» slot =>
      exact all_binary.2 ⟨⟨_, withMode_mode _ _⟩, all_withMode _ ha (isChosen_withMode _ ha.self), hb⟩
    | _ => exact all_binary.2 ⟨trivial, ha, hb⟩
  | .ternary n op a b d =>
    exact all_ternary.2 ⟨trivial, assign_chosen unit a, assign_chosen unit b, assign_chosen unit d⟩
  | .nary n op args => exact all_nary.2 ⟨trivial, assignList_chosen unit args⟩

theorem assignList_chosen (unit : CompileUnit) (es : List Expr) :
    ∀ e ∈ assignList unit es, e.All (IsChosen unit) := by
  match es with
  | [] => exact nofun
  | e :: es => exact List.forall_mem_cons.2 ⟨assign_chosen unit e, assignList_chosen unit es⟩

end

end Modes

namespace Compile

/-- The modes are chosen in the last pass. -/
theorem expr_chosen {context : StaticContext} {e x : Expr} {unit unit' : CompileUnit}
    (h : (expr e).run context unit = (.ok x, unit')) : x.All (Modes.IsChosen unit') := by
  obtain ⟨e₁, unit₁, -, h⟩ := Pass.run_bind_ok h
  obtain ⟨e₂, unit₂, -, h⟩ := Pass.run_bind_ok h
  cases h
  exact Modes.assign_chosen _ _

end Compile

namespace Program
variable {e : Expr} {context : StaticContext} {unit unit' : CompileUnit} {p : Program} {c : DynamicContext}

theorem ofExpr_chosen (h : ofExpr e context unit = (.ok p, unit')) : p.expr.All (Modes.IsChosen unit') := by
  unfold ofExpr at h
  cases hrun : (Compile.expr e).run context unit with
  | mk r unit₁ =>
    rw [hrun] at h
    cases r with
    | error e => cases h
    | ok x =>
      cases h
      exact Compile.expr_chosen hrun

/-- The one-shot closure of a let is started once at most, wherever in a run of a compiled program the let is evaluated,
if every variable that its value is handed on to, by an alias, a tail or another closure, is used once at most as well:
between them, all items that the let is asked for start it once, whatever happens in between; and what is evaluated
where no variable has been bound to the closure does not start it. -/
theorem oneShot_starts_once (hp : ofExpr e context unit = (.ok p, unit')) (item : Option Item) {n : Note} {s : Slot}
    {a b : Expr} {slots : List Slot} {f : Frame} {w : World}
    (hlet : Enters c w.cells.size p.expr (p.frame c item) (.binary n (.let s) a b) f)
    (hmode : a.mode = .oneShotClosure slots) (honce : b.handsOnOnce s) :
    Meter.Leaves ⟨w.cells.size⟩ 1 ((Expr.binary n (.let s) a b).meaning c).toWays f w ∧
      ∀ x g, Enters c w.cells.size p.expr (p.frame c item) x g →
        Meter.Bounds ⟨w.cells.size⟩ 0 (x.meaning c).toWays g := by
  have hstart : Meter.HasFrame ⟨w.cells.size⟩ 0 (p.frame c item) := fun s v hv => by
    obtain ⟨_, _, -, rfl⟩ := frame_items hv
    trivial
  refine ⟨?_, fun x g hx => ?_⟩
  · obtain ⟨value, hchosen⟩ := ((ofExpr_chosen hp).entered hlet).self
    have huses : b.uses s ≤ 1 := Modes.uses_of_choose (hchosen.symm.trans hmode)
    refine (Meter.leaves_let (hstart.entered hlet) hmode).of_le ?_
    exact (Expr.demand_le_countUses s 1 one_ne_zero b honce huses).trans (by exact_mod_cast huses)
  · have hbounds := (Meter.means c x 0 g (hstart.entered hx)).ways
    rwa [Expr.demand_zero] at hbounds

/-- How often each evaluation that a run puts off is started. -/
def startsIn (p : Program) : List ℕ :=
  (((p.expr.meaning {}).toList (p.frame {} none)).perform { forest := {} }).2.cells.toList.map (·.starts)

/-- The variable of a let, its value and its body. -/
def let? : Expr → Option (Slot × Expr × Expr)
  | .binary _ (.let s) a b => some (s, a, b)
  | _ => none

theorem exists_of_let? {e a b : Expr} {s : Slot} (h : let? e = some (s, a, b)) : ∃ n, e = .binary n (.let s) a b := by
  unfold let? at h
  split at h
  · cases h
    exact ⟨_, rfl⟩
  · cases h

/-- `let $p := 1 to 3 return let $q := $p return count($q)` -/
def countAlias : Expr :=
  .mkBinary (.let 0) (.mkBinary .range (.mkLeaf (.literal [.integer 1]) 0) (.mkLeaf (.literal [.integer 3]) 0) 0)
    (.mkBinary (.let 1) (.mkLeaf (.variable (.range 0)) 0) (.callAt .count [.mkLeaf (.variable (.range 1)) 0] 0) 0) 0

def aliasUnit : CompileUnit :=
  { bindings := #[⟨.unprefixed "p", .range, none, .any⟩, ⟨.unprefixed "q", .range, none, .any⟩] }

/-- The alias is used once, and so the closure is started once. -/
theorem oneShot_starts_once_alias : ∃ p unit, ofExpr countAlias {} aliasUnit = (.ok p, unit) ∧
    (let? p.expr).map (·.2.1.mode) = some (.oneShotClosure []) ∧
    Meter.Leaves ⟨0⟩ 1 (p.expr.meaning {}).toWays (p.frame {} none) { forest := {} } ∧ p.startsIn = [1] := by
  have hcompiled : (ofExpr countAlias {} aliasUnit).1.toOption.any fun p => p.startsIn == [1] &&
      (let? p.expr).any fun q => q.2.1.mode == .oneShotClosure [] && q.2.2.handsOnOnce q.1 := by
    decide +kernel
  cases hp : ofExpr countAlias {} aliasUnit with
  | mk r unit =>
    rw [hp] at hcompiled
    cases r with
    | error e => cases hcompiled
    | ok p =>
      obtain ⟨hstarts, hlet⟩ := Bool.and_eq_true_iff.1 hcompiled
      obtain ⟨⟨s, a, b⟩, hsome, hlet⟩ := (Option.any_eq_true _ _).1 hlet
      obtain ⟨hmode, honce⟩ := Bool.and_eq_true_iff.1 hlet
      obtain ⟨n, hexpr⟩ := exists_of_let? hsome
      have hstart : Enters {} 0 p.expr (p.frame {} none) (.binary n (.let s) a b) (p.frame {} none) := hexpr ▸ .start
      have hleaves := (oneShot_starts_once hp (w := { forest := {} }) none hstart (beq_iff_eq.1 hmode) honce).1
      refine ⟨p, unit, rfl, ?_, hexpr ▸ hleaves, beq_iff_eq.1 hstarts⟩
      rw [hsome, Option.map_some, beq_iff_eq.1 hmode]

/-- An alias of the variable of a one-shot closure is used twice, and the closure is started twice. -/
theorem alias_starts_twice :
    (compile "let $p := 1 to 3 return let $q := $p return (count($q), count($q))" {} {}).1.toOption.map
      (fun p => ((p.expr.preorder.filterMap let?).map (·.2.1.mode), p.startsIn)) =
      some ([.oneShotClosure [], .evaluateVariable], [2]) := by
  decide +kernel

end Program
end XPath
