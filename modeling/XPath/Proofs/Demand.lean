import XPath.Proofs.MeteredCalls
import XPath.Proofs.Noninterference

/-!
How often an expression starts what its variables put off. The value of a variable is followed from let to let: into
aliases and tails, and into closures that capture it. The uses of a variable bound this if every variable that its value
is handed on to is used once at most.
-/
namespace XPath

namespace Expr

/-- The value for a variable is put off, or it is the value of another variable. -/
def isHandedOn (e : Expr) : Bool :=
  match e.mode with
  | .oneShotClosure _ | .memoClosure _ => true
  | .evaluateVariable => e.reference?.isSome
  | .lazyTail => e.tail?.isSome
  | _ => false

mutual

/-- How many starts an expression adds, if using a variable adds as many as is given. What is evaluated for every item
adds nothing or has no bound. -/
noncomputable def demand (β : Slot → ℕ∞) : Expr → ℕ∞
  | leaf _ (.variable r) => Meter.shareOf β r
  | leaf .. => 0
  | unary _ _ a => a.demand β
  | binary _ op a b => match op with
    | .for s | .quantified _ s => a.demand β + ⊤ * b.demand (Function.update β s 0)
    | .path | .filter _ => a.demand β + ⊤ * b.demand β
    | .let s =>
      if a.isHandedOn then b.demand (Function.update β s (a.demand β))
      else a.demand β + b.demand (Function.update β s 0)
    | _ => a.demand β + b.demand β
  | ternary _ op a b d => match op with
    | .if => a.demand β + b.demand β + d.demand β
    | .indexedFilter => a.demand β + ⊤ * b.demand β + d.demand β
  | nary _ _ args => (demands β args).sum

noncomputable def demands (β : Slot → ℕ∞) : List Expr → List ℕ∞
  | [] => []
  | e :: es => e.demand β :: demands β es

end

theorem demands_eq (β : Slot → ℕ∞) (es : List Expr) : demands β es = es.map (demand β) := by
  induction es with
  | nil => rfl
  | cons e es ih => rw [demands, ih, List.map_cons]

theorem demand_reference {β : Slot → ℕ∞} {e : Expr} {r : VariableRef} (h : e.reference? = some r) :
    e.demand β = Meter.shareOf β r := by
  unfold reference? at h
  split at h
  · cases h
    rw [demand]
  · cases h

theorem demand_tail {β : Slot → ℕ∞} {e : Expr} {r : VariableRef} {n : ℕ} (h : e.tail? = some (r, n)) :
    e.demand β = Meter.shareOf β r := by
  unfold tail? at h
  split at h
  · obtain ⟨r, hr, heq⟩ := Option.map_eq_some_iff.1 h
    cases heq
    rw [demand, demand_reference hr]
  · obtain ⟨r, hr, heq⟩ := Option.map_eq_some_iff.1 h
    cases heq
    rw [demand, demands, demands, demand_reference hr, List.sum_singleton]
  · cases h

theorem head?_eq_some {e : Expr} {r : VariableRef} (h : e.head? = some r) :
    ∃ n a b, e = nary n .block [a, b] ∧ a.reference? = some r := by
  unfold head? at h
  split at h
  · exact ⟨_, _, _, rfl, h⟩
  · cases h

/-! The demand is additive. -/

theorem shareOf_add (β γ : Slot → ℕ∞) (r : VariableRef) :
    Meter.shareOf (β + γ) r = Meter.shareOf β r + Meter.shareOf γ r := by
  cases r with
  | range s => rfl
  | global n => exact (add_zero 0).symm

theorem demand_add (β γ : Slot → ℕ∞) (e : Expr) : e.demand (β + γ) = e.demand β + e.demand γ := by
  have hbind (slot : Slot) : Function.update (β + γ) slot 0 = Function.update β slot 0 + Function.update γ slot 0 := by
    rw [← Function.update_add, add_zero]
  cases e with
  | leaf n op =>
    cases op with
    | «variable» r => simp only [demand, shareOf_add]
    | _ => exact (add_zero 0).symm
  | unary n op a =>
    simp only [demand]
    exact demand_add β γ a
  | binary n op a b =>
    have ha := demand_add β γ a
    have hb (β γ : Slot → ℕ∞) := demand_add β γ b
    unfold demand
    cases op with
    | «for» s | quantified q s =>
      dsimp only
      rw [ha, hbind, hb, mul_add, add_add_add_comm]
    | path | filter positional =>
      dsimp only
      rw [ha, hb, mul_add, add_add_add_comm]
    | «let» s =>
      dsimp only
      split
      · rw [ha, Function.update_add, hb]
      · rw [ha, hbind, hb, add_add_add_comm]
    | _ =>
      dsimp only
      rw [ha, hb, add_add_add_comm]
  | ternary n op a b d =>
    have ha := demand_add β γ a
    have hb := demand_add β γ b
    have hd := demand_add β γ d
    unfold demand
    cases op with
    | «if» =>
      dsimp only
      rw [ha, hb, hd]
      ring
    | indexedFilter =>
      dsimp only
      rw [ha, hb, hd]
      ring
  | nary n op args =>
    simp only [demand, demands_eq]
    rw [← List.sum_map_add]
    exact congrArg List.sum (List.map_congr_left fun a _ => demand_add β γ a)

theorem demand_mono {β γ : Slot → ℕ∞} (h : β ≤ γ) (e : Expr) : e.demand β ≤ e.demand γ := by
  obtain ⟨δ, rfl⟩ := exists_add_of_le h
  rw [demand_add]
  exact le_self_add

theorem demand_zero (e : Expr) : e.demand 0 = 0 := by
  cases e with
  | leaf n op =>
    cases op with
    | «variable» r => cases r <;> rfl
    | _ => rfl
  | unary n op a =>
    simp only [demand]
    exact demand_zero a
  | binary n op a b =>
    have ha := demand_zero a
    have hb := demand_zero b
    unfold demand
    cases op <;> simp [ha, hb]
  | ternary n op a b d =>
    have ha := demand_zero a
    have hb := demand_zero b
    have hd := demand_zero d
    unfold demand
    cases op <;> simp [ha, hb, hd]
  | nary n op args =>
    simp only [demand, demands_eq]
    refine List.sum_eq_zero fun m hm => ?_
    obtain ⟨a, ha, rfl⟩ := List.mem_map.1 hm
    exact demand_zero a

/-! The uses of a variable bound its demand if its value is handed on once at most. -/

mutual

/-- References that are evaluated once count by the weight, and those that are evaluated for every item count twice. -/
theorem exists_countUses (slot : Slot) (e : Expr) : ∃ once each, ∀ w, e.countUses slot w = w * once + 2 * each := by
  match e with
  | leaf n op =>
    cases op with
    | «variable» r =>
      cases r with
      | range s => exact ⟨if s = slot then 1 else 0, 0, fun w => by simp [countUses]⟩
      | global name => exact ⟨0, 0, fun w => rfl⟩
    | _ => exact ⟨0, 0, fun w => rfl⟩
  | unary n op a =>
    simp only [countUses]
    exact exists_countUses slot a
  | binary n op a b =>
    obtain ⟨k, l, ha⟩ := exists_countUses slot a
    obtain ⟨k', l', hb⟩ := exists_countUses slot b
    unfold countUses
    cases op with
    | «for» s | quantified q s | path | filter positional => exact ⟨k, l + k' + l', fun w => by rw [ha, hb]; ring⟩
    | _ => exact ⟨k + k', l + l', fun w => by dsimp only; rw [ha, hb]; ring⟩
  | ternary n op a b d =>
    obtain ⟨k, l, ha⟩ := exists_countUses slot a
    obtain ⟨k', l', hb⟩ := exists_countUses slot b
    obtain ⟨k'', l'', hd⟩ := exists_countUses slot d
    exact ⟨k + k' + k'', l + l' + l'', fun w => by rw [countUses, ha, hb, hd]; ring⟩
  | nary n op args =>
    simp only [countUses]
    exact exists_countUsesList slot args

theorem exists_countUsesList (slot : Slot) (es : List Expr) :
    ∃ once each, ∀ w, countUsesList slot w es = w * once + 2 * each := by
  match es with
  | [] => exact ⟨0, 0, fun w => rfl⟩
  | e :: es =>
    obtain ⟨k, l, he⟩ := exists_countUses slot e
    obtain ⟨k', l', hes⟩ := exists_countUsesList slot es
    exact ⟨k + k', l + l', fun w => by rw [countUsesList, he, hes]; ring⟩

end

/-- A variable that is used once is not used for every item. -/
theorem countUses_two_eq_zero {slot : Slot} {e : Expr} (h : e.countUses slot 2 ≤ 1) : e.countUses slot 2 = 0 := by
  obtain ⟨k, l, he⟩ := exists_countUses slot e
  rw [he] at h ⊢
  omega

theorem uses_eq_zero {slot : Slot} {e : Expr} {w : ℕ} (h : e.uses slot = 0) : e.countUses slot w = 0 := by
  obtain ⟨k, l, he⟩ := exists_countUses slot e
  unfold uses at h
  rw [he] at h ⊢
  obtain ⟨rfl, rfl⟩ : k = 0 ∧ l = 0 := by omega
  rfl

mutual

/-- A variable that the value of the variable is handed on to is used once at most, and so on from there; and no key of
an index is made from the value. -/
def handsOnOnce (slot : Slot) : Expr → Bool
  | leaf .. => true
  | unary _ _ a => a.handsOnOnce slot
  | binary _ op a b => a.handsOnOnce slot && b.handsOnOnce slot && match op with
    | .let s => !a.isHandedOn || a.uses slot == 0 || (b.uses s ≤ 1 && b.handsOnOnce s)
    | _ => true
  | ternary _ op a b d => a.handsOnOnce slot && b.handsOnOnce slot && d.handsOnOnce slot && match op with
    | .indexedFilter => b.uses slot == 0
    | .if => true
  | nary _ _ args => allHandOnOnce slot args

def allHandOnOnce (slot : Slot) : List Expr → Bool
  | [] => true
  | e :: es => e.handsOnOnce slot && allHandOnOnce slot es

end

/-- One use of a variable. -/
noncomputable abbrev oneUse (slot : Slot) : Slot → ℕ∞ := Pi.single slot 1

/-- What is bound to another variable does not matter, unless it is handed on. -/
theorem update_oneUse_le (slot s : Slot) : Function.update (oneUse slot) s 0 ≤ oneUse slot :=
  update_le_self_iff.2 bot_le

theorem update_oneUse_le_add {slot s : Slot} {m : ℕ∞} (hm : m ≤ 1) :
    Function.update (oneUse slot) s m ≤ oneUse slot + oneUse s := by
  refine update_le_iff.2 ⟨?_, fun t _ => le_self_add⟩
  simpa [oneUse] using hm.trans le_add_self

/-- The variable is bound to a value that adds what the value of the let adds, which is one at most. -/
theorem demand_update_le {slot s : Slot} {a b : Expr} {w : ℕ}
    (ha : a.demand (oneUse slot) ≤ a.countUses slot w) (hb : b.demand (oneUse slot) ≤ b.countUses slot w)
    (hu : a.countUses slot w + b.countUses slot w ≤ 1) (hs : a.uses slot ≠ 0 → b.demand (oneUse s) ≤ 1) :
    b.demand (Function.update (oneUse slot) s (a.demand (oneUse slot))) ≤
      (a.countUses slot w + b.countUses slot w : ℕ) := by
  rw [Nat.cast_add]
  by_cases hnone : a.countUses slot w = 0
  · rw [hnone, Nat.cast_zero] at ha
    rw [nonpos_iff_eq_zero.1 ha]
    exact ((demand_mono (update_oneUse_le slot s) b).trans hb).trans le_add_self
  · have hone : a.countUses slot w = 1 := by omega
    rw [hone, Nat.cast_one] at ha ⊢
    calc b.demand (Function.update (oneUse slot) s (a.demand (oneUse slot)))
        ≤ b.demand (oneUse slot + oneUse s) := demand_mono (update_oneUse_le_add ha) b
      _ = b.demand (oneUse s) + b.demand (oneUse slot) := by rw [demand_add, add_comm]
      _ ≤ 1 + b.countUses slot w := add_le_add (hs fun h => hnone (uses_eq_zero h)) hb

mutual

/-- A variable that is used once at most, and that hands on its value once at most, adds no more than one start. -/
theorem demand_le_countUses (slot : Slot) (w : ℕ) (hw : w ≠ 0) (e : Expr) (h : e.handsOnOnce slot)
    (hu : e.countUses slot w ≤ 1) : e.demand (oneUse slot) ≤ e.countUses slot w := by
  match e with
  | leaf n op =>
    cases op with
    | «variable» r =>
      cases r with
      | range s =>
        simp only [demand, Meter.shareOf, countUses, oneUse, Pi.single_apply]
        split
        · exact_mod_cast Nat.one_le_iff_ne_zero.2 hw
        · exact bot_le
      | global name => exact bot_le
    | _ => exact bot_le
  | unary n op a =>
    simp only [countUses, handsOnOnce, demand] at h hu ⊢
    exact demand_le_countUses slot w hw a h hu
  | binary n op a b =>
    simp only [handsOnOnce, Bool.and_eq_true] at h
    obtain ⟨⟨ha, hb⟩, hlet⟩ := h
    have hplain (hu : a.countUses slot w + b.countUses slot w ≤ 1) :
        a.demand (oneUse slot) + b.demand (oneUse slot) ≤ (a.countUses slot w + b.countUses slot w : ℕ) := by
      rw [Nat.cast_add]
      exact add_le_add (demand_le_countUses slot w hw a ha (by omega)) (demand_le_countUses slot w hw b hb (by omega))
    -- What is evaluated for every item does not use the variable.
    have hloop (hu : a.countUses slot w + b.countUses slot 2 ≤ 1) {β : Slot → ℕ∞} (hβ : β ≤ oneUse slot) :
        a.demand (oneUse slot) + ⊤ * b.demand β ≤ (a.countUses slot w + b.countUses slot 2 : ℕ) := by
      have hnone : b.countUses slot 2 = 0 := countUses_two_eq_zero (by omega)
      have hzero := demand_le_countUses slot 2 two_ne_zero b hb (by omega)
      rw [hnone, Nat.cast_zero] at hzero
      rw [nonpos_iff_eq_zero.1 ((demand_mono hβ b).trans hzero), mul_zero, add_zero, hnone]
      exact demand_le_countUses slot w hw a ha (by omega)
    unfold demand
    unfold countUses at hu ⊢
    cases op with
    | «for» s | quantified q s => exact hloop hu (update_oneUse_le slot s)
    | path | filter positional => exact hloop hu le_rfl
    | «let» s =>
      dsimp only at hu hlet ⊢
      split
      · next hon =>
        refine demand_update_le (demand_le_countUses slot w hw a ha (by omega))
          (demand_le_countUses slot w hw b hb (by omega)) hu fun hused => ?_
        obtain ⟨honce, hb⟩ : b.uses s ≤ 1 ∧ b.handsOnOnce s := by simpa [hon, hused] using hlet
        exact (demand_le_countUses s 1 one_ne_zero b hb honce).trans (by exact_mod_cast honce)
      · exact (add_le_add le_rfl (demand_mono (update_oneUse_le slot s) b)).trans (hplain hu)
    | _ => exact hplain hu
  | ternary n op a b d =>
    simp only [handsOnOnce, Bool.and_eq_true] at h
    obtain ⟨⟨⟨ha, hb⟩, hd⟩, hkey⟩ := h
    unfold demand
    unfold countUses at hu ⊢
    have ha' := demand_le_countUses slot w hw a ha (by omega)
    have hb' := demand_le_countUses slot w hw b hb (by omega)
    have hd' := demand_le_countUses slot w hw d hd (by omega)
    cases op with
    | «if» =>
      dsimp only
      push_cast
      gcongr
    | indexedFilter =>
      have hnone : b.countUses slot w = 0 := uses_eq_zero (beq_iff_eq.1 hkey)
      rw [hnone, Nat.cast_zero] at hb'
      dsimp only
      rw [nonpos_iff_eq_zero.1 hb', hnone, mul_zero, add_zero, add_zero]
      push_cast
      gcongr
  | nary n op args =>
    simp only [countUses, handsOnOnce, demand] at h hu ⊢
    exact demands_le_countUsesList slot w hw args h hu

theorem demands_le_countUsesList (slot : Slot) (w : ℕ) (hw : w ≠ 0) (es : List Expr) (h : allHandOnOnce slot es)
    (hu : countUsesList slot w es ≤ 1) : (demands (oneUse slot) es).sum ≤ countUsesList slot w es := by
  match es with
  | [] => exact bot_le
  | e :: es =>
    simp only [allHandOnOnce, Bool.and_eq_true] at h
    unfold countUsesList at hu ⊢
    rw [demands, List.sum_cons, Nat.cast_add]
    exact add_le_add (demand_le_countUses slot w hw e h.1 (by omega))
      (demands_le_countUsesList slot w hw es h.2 (by omega))

end

end Expr

namespace Meter
open XPath.Expr
variable {M : Meter} {β : Slot → ℕ∞} {c : DynamicContext} {e a b d : Expr} {f : Frame} {m : ℕ∞} {own : Ways}

/-! The demand is what an evaluation adds at most. -/

/-- What evaluating adds, and what obtaining the value for a variable adds and using it once adds then. -/
structure Means (M : Meter) (m : ℕ∞) (isHandedOn : Bool) (x : Meaning) (f : Frame) : Prop where
  ways : M.Bounds m x.toWays f
  bound : M.Runs (if isHandedOn then 0 else m) (x.bound f) (M.Holds (if isHandedOn then m else 0))

theorem runs_bound {parts : List Ways} (hf : M.HasFrame β f)
    (hown : ∀ f, M.HasFrame β f → M.Bounds (e.demand β) own f)
    (hparts : ∀ n a b, e = nary n .block [a, b] → ∀ x rest, parts = [x, rest] → M.Bounds (b.demand β) rest f) :
    M.Runs (if e.isHandedOn then 0 else e.demand β) (e.bound c own parts f)
      (M.Holds (if e.isHandedOn then e.demand β else 0)) := by
  have hlist {p : Eval (List Item)} (hp : M.Runs (e.demand β) p fun _ => True) (k : ℕ∞) :
      M.Runs (e.demand β) (do return Value.items (← p)) (M.Holds k) := hp.gives fun _ _ => trivial
  have hdefer (keeps : Bool) (slots : List Slot) :
      M.Runs 0 (do return Value.deferred (← Deferred.create keeps (own.items (f.capture slots))) 0)
        (M.Holds (e.demand β)) :=
    (runs_create keeps (hown _ (hf.capture slots)).items).gives fun _ hd => hd
  have hall := (hown f hf).toList
  unfold Expr.bound Expr.isHandedOn
  dsimp only
  cases hmode : e.mode with
  | returnEmpty => exact runs_pure trivial
  | alreadyValue => exact hlist hall 0
  | iterateAndMaterialize => exact hlist hall 0
  | singleItem => exact (hown f hf).item.gives fun _ _ => trivial
  | pushProduction => exact hlist (hown f hf).push 0
  | evaluateVariable =>
    dsimp only
    cases hr : e.reference? with
    | some r =>
      simp only [Option.isSome_some, if_true, demand_reference hr]
      exact hf.valueOf c r
    | none => exact hlist hall 0
  | materializeVariable =>
    simp only [Bool.false_eq_true, if_false]
    split
    · next r hr =>
      rw [demand_reference hr]
      exact (hf.valueOf c r).first fun v hv => hv.toList.gives fun _ _ => trivial
    · exact hlist hall 0
  | oneShotClosure slots => exact hdefer false slots
  | memoClosure slots => exact hdefer true slots
  | lazyTail =>
    dsimp only
    cases hr : e.tail? with
    | some q =>
      simp only [Option.isSome_some, if_true, demand_tail hr]
      exact (hf.valueOf c q.1).first fun _ hv => runs_require fun _ => hv.tail
    | none => exact hlist hall 0
  | sharedAppend =>
    simp only [Bool.false_eq_true, if_false]
    split
    · next r x rest hr =>
      obtain ⟨n, a, b, rfl, ha⟩ := head?_eq_some hr
      have hrest := (hparts n a b rfl x rest rfl).toList
      simp only [demand, demands, demand_reference ha, List.sum_cons, List.sum_nil, add_zero]
      exact (hf.valueOf c r).first fun v hv => hv.toList.bind fun xs _ => hrest.gives fun _ _ => trivial
    · exact hlist hall 0

/-- It suffices to look at the ways of the operator, also for captured frames. -/
theorem means_of_own {parts : List Ways} (hm : e.meaning c = meaningOf c e parts own) (hf : M.HasFrame β f)
    (hown : ∀ f, M.HasFrame β f → M.Bounds (e.demand β) own f)
    (hparts : ∀ n a b, e = nary n .block [a, b] → ∀ x rest, parts = [x, rest] → M.Bounds (b.demand β) rest f) :
    M.Means (e.demand β) e.isHandedOn (e.meaning c) f := by
  rw [hm]
  exact ⟨hown f hf, runs_bound hf hown hparts⟩

theorem bounds_binary (n : Note) (op : BinaryOp) {x y : Meaning} (hf : M.HasFrame β f)
    (hx : M.Means (a.demand β) a.isHandedOn x f) (hy : ∀ γ g, M.HasFrame γ g → M.Bounds (b.demand γ) y.toWays g) :
    M.Bounds ((binary n op a b).demand β) (op.ways n x y) f := by
  have hfocus : M.BoundsUnderFocus (b.demand β) y.toWays f := fun z k size => hy β _ (hf.withFocus z k size)
  have hbind (slot : Slot) (z : Item) :
      M.Bounds (b.demand (Function.update β slot 0)) y.toWays (f.bind slot (.items [z])) :=
    hy _ _ (hf.bind trivial)
  have hb := hy β f hf
  unfold demand
  cases op with
  | arithmetic op => exact .ofItem n (runs_lift₂ _ hx.ways hb)
  | valueComparison op => exact .ofItem n (runs_lift₂ _ hx.ways hb)
  | generalComparison op => exact .ofItem n ((runs_compareAny op hx.ways hb).gives fun _ _ => trivial)
  | nodeComparison op => exact .ofItem n (runs_compareNodes op hx.ways hb)
  | and =>
    refine .ofItem n (hx.ways.truth.bind fun t _ => ?_)
    split
    · exact hb.truth.gives fun _ _ => trivial
    · exact runs_pure trivial
  | or =>
    refine .ofItem n (hx.ways.truth.bind fun t _ => ?_)
    split
    · exact runs_pure trivial
    · exact hb.truth.gives fun _ _ => trivial
  | range => exact .ofItems n (yields_integers hx.ways hb)
  | set op => exact .ofItems n (yields_list (g := List.map Item.node) (runs_combine op hx.ways hb))
  | path => exact .ofItems n (yields_path hx.ways hfocus)
  | filter positional => exact .ofItems n (yields_select hx.ways hfocus hb)
  | itemAt => exact .ofItem n (runs_itemAt hx.ways hb)
  | «for» slot => exact .ofItems n (hx.ways.items.bind fun _ z => (hbind slot z).items)
  | «let» slot =>
    refine .ofItems n ?_
    have hbody := yields_after (hx.bound.gives fun v hv => (hy _ (f.bind slot v) (hf.bind hv)).items)
    cases h : a.isHandedOn with
    | true =>
      simp only [h, if_true, zero_add] at hbody
      exact hbody
    | false =>
      simp only [h, Bool.false_eq_true, if_false] at hbody
      exact hbody
  | quantified q slot => exact .ofItem n ((runs_quantify q slot hx.ways (hbind slot)).gives fun _ _ => trivial)

theorem bounds_ternary (n : Note) (op : TernaryOp) (exprs : Expr × Expr) {x y z : Ways} (hf : M.HasFrame β f)
    (hx : M.Bounds (a.demand β) x f) (hy : ∀ g, M.HasFrame β g → M.Bounds (b.demand β) y g)
    (hz : M.Bounds (d.demand β) z f) : M.Bounds ((ternary n op a b d).demand β) (op.ways n exprs x y z) f := by
  unfold demand
  cases op with
  | «if» =>
    rw [add_assoc]
    refine .ofItems n (yields_after (hx.truth.then fun t _ => ?_))
    split
    · exact runs_pure ((hy f hf).items.of_le le_self_add)
    · exact runs_pure (hz.items.of_le le_add_self)
  | indexedFilter =>
    have hfocus : M.BoundsUnderFocus (b.demand β) y f := fun w k size => hy _ (hf.withFocus w k size)
    exact .ofItems n (yields_list (g := id) (runs_selectByKey exprs hx hfocus hz))

/-- An expression adds its demand at most, and so does using its value once if it is handed on. -/
theorem means (c : DynamicContext) (e : Expr) (β : Slot → ℕ∞) (f : Frame) (hf : M.HasFrame β f) :
    M.Means (e.demand β) e.isHandedOn (e.meaning c) f := by
  match e with
  | leaf n op =>
    refine means_of_own (meaning_leaf c n op) hf (fun g hg => bounds_leaf n op c hg fun r hr => ?_)
      fun _ _ _ h => by cases h
    subst hr
    rw [demand]
  | unary n op a =>
    refine means_of_own (meaning_unary c n op a) hf (fun g hg => ?_) fun _ _ _ h => by cases h
    rw [demand]
    exact bounds_unary n op (means c a β g hg).ways
  | binary n op a b =>
    exact means_of_own (meaning_binary c n op a b) hf (fun g hg => bounds_binary n op hg (means c a β g hg)
      fun γ g hg => (means c b γ g hg).ways) fun _ _ _ h => by cases h
  | ternary n op a b d =>
    exact means_of_own (meaning_ternary c n op a b d) hf (fun g hg => bounds_ternary n op (a, b) hg
      (means c a β g hg).ways (fun g hg => (means c b β g hg).ways) (means c d β g hg).ways) fun _ _ _ h => by cases h
  | nary n op args =>
    have hargs (g : Frame) (hg : M.HasFrame β g) :
        List.Forall₂ (fun m x => M.Bounds m x g) (demands β args) (operandWays c args) := by
      rw [demands_eq, operandWays, List.forall₂_map_left_iff, List.forall₂_map_right_iff, List.forall₂_same]
      exact fun a ha => (means c a β g hg).ways
    refine means_of_own (meaning_nary c n op args) hf (fun g hg => ?_) fun _ a b heq x rest hparts => ?_
    · rw [demand]
      exact bounds_nary n op c (hargs g hg)
    · cases heq
      cases hparts
      exact (means c b β f hf).ways

end Meter
end XPath
