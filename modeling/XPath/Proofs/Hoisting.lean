import XPath.Proofs.Annotation
import XPath.Query

/-! What one walk of hoisting binds. A site that was wrapped in a let carries no record of what is in it,
so a further site moves it as it is. The bindings neither read the focus nor make nodes exactly if the
records of the sites inside the wrappers say so. -/
namespace XPath

namespace Effects

/-- Everything that an expression may touch and still be movable. -/
def movable : Effects := { reads := { group := true, matched := true } }

theorem isMovable_iff {a : Effects} : a.isMovable ↔ a.Within movable := by
  constructor
  · intro h
    simp only [isMovable, Dependencies.focus, Bool.and_eq_true, Bool.not_eq_true',
      Bool.or_eq_false_iff] at h
    constructor <;> simp [movable, h]
  · intro h
    exact h.isMovable rfl

end Effects

/-- Operands that touch more than before, apart from what `m` covers, make the operator touch more. -/
theorem UnaryOp.effects_within {a a' m : Effects} (op : UnaryOp) (h : a.Within (a' ∪ m)) :
    (op.effects a).Within (op.effects a' ∪ m) := by
  cases op with
  | element => exact ⟨h.item, h.position, h.last, h.group, h.matched, fun _ => rfl⟩
  | text => exact ⟨h.item, h.position, h.last, h.group, h.matched, fun _ => rfl⟩
  | _ => exact h

private theorem union_within {a a' b b' m : Effects} (ha : a.Within (a' ∪ m)) (hb : b.Within (b' ∪ m)) :
    (a ∪ b).Within (a' ∪ b' ∪ m) := by
  apply Effects.Within.union
  · exact ha.trans (.union_mono (.left a' b') (.refl m))
  · exact hb.trans (.union_mono (.right a' b') (.refl m))

private theorem shielded_within {a a' m : Effects} (h : a.Within (a' ∪ m)) :
    a.shielded.Within (a'.shielded ∪ m) := by
  refine ⟨nofun, nofun, nofun, fun ha => ?_, fun ha => ?_, fun ha => ?_⟩
  · exact h.group ha
  · exact h.matched ha
  · exact h.creates ha

theorem BinaryOp.effects_within {a a' b b' m : Effects} (op : BinaryOp) (ha : a.Within (a' ∪ m))
    (hb : b.Within (b' ∪ m)) : (op.effects a b).Within (op.effects a' b' ∪ m) := by
  cases op with
  | path => exact union_within ha (shielded_within hb)
  | filter => exact union_within ha (shielded_within hb)
  | _ => exact union_within ha hb

/-- The lists are of equal length, and each on the left touches no more than the one on the right,
apart from what `m` covers. -/
def Effects.ListWithin (m : Effects) : List Effects → List Effects → Prop :=
  List.Forall₂ fun a b => a.Within (b ∪ m)

theorem NaryOp.effects_within {as bs : List Effects} {m : Effects} (op : NaryOp)
    (h : Effects.ListWithin m as bs) : (op.effects as).Within (op.effects bs ∪ m) := by
  have hfold : (as.foldr (· ∪ ·) {}).Within (bs.foldr (· ∪ ·) {} ∪ m) := by
    induction h with
    | nil => exact .empty _
    | cons ha _ ih => exact union_within ha ih
  have hn : as.length = bs.length := h.length_eq
  unfold NaryOp.effects
  rw [hn]
  exact union_within hfold (.left _ m)

/-- Without anything apart. -/
private theorem within_of_within_empty {a b : Effects} (h : a.Within (b ∪ {})) : a.Within b :=
  Effects.union_empty b ▸ h

private theorem within_union_empty {a b : Effects} (h : a.Within b) : a.Within (b ∪ {}) :=
  (Effects.union_empty b).symm ▸ h

namespace Hoist
open XPath.Expr

def isHoistedIn (unit : CompileUnit) (slot : Slot) : Bool := (unit.binding slot).kind = .hoisted

section
variable (h : Slot → Bool)

/-- Whether an operator binds a variable that hoisting introduced. -/
def isBinder : BinaryOp → Bool
  | .let slot => h slot
  | _ => false

/-- The value of a hoisted variable. -/
def hoistedValue? : Expr → Option Expr
  | .binary _ op a _ => if isBinder h op then some a else none
  | _ => none

/-- The values that the hoisted variables of an expression are bound to. -/
def values (e : Expr) : List Expr := e.preorder.filterMap (hoistedValue? h)

/-- What hoisting has wrapped. -/
def site : Expr → Expr
  | .binary n op a b => if isBinder h op then site b else .binary n op a b
  | e => e

/-- The note covers what the expression touches besides the values of hoisted variables. -/
def Upper (x : Expr) : Prop := hoistedValue? h x = none → (x.effectsPast h).Within x.info.effects

variable (g : Effects)

/-- The note says no more than what the expression touches, apart from what `g` covers. -/
def Lower (x : Expr) : Prop := hoistedValue? h x = none → x.info.effects.Within (x.effects ∪ g)

/-- The value of a hoisted variable touches no more than `g`. -/
def Below (x : Expr) : Prop := ∀ v, hoistedValue? h x = some v → v.effects.Within g

/-- What becomes of an expression from which some values were moved. -/
structure Replaced (moved : List (Slot × Expr)) (e e' : Expr) : Prop where
  slots : ∀ m ∈ moved, h m.1
  less : (e'.effectsPast h).Within (e.effectsPast h)
  upper : e.All (Upper h) → e'.All (Upper h) ∧ ∀ m ∈ moved, m.2.All (Upper h)
  /-- Nothing is lost: what is not touched any more is touched by a value. -/
  lower : (∀ m ∈ moved, m.2.effects.Within g ∧ m.2.All (Below h g)) → e'.All (Below h g) →
    e.effects.Within (e'.effects ∪ g) ∧ e.All (Below h g) ∧
      (e.All (Lower h g) → e'.All (Lower h g) ∧ ∀ m ∈ moved, m.2.All (Lower h g))

end

section Replaced
variable {h : Slot → Bool} {g : Effects} {moved moved' : List (Slot × Expr)} {n : Note}
  {a a' b b' c c' : Expr}

theorem Replaced.refl (h : Slot → Bool) (g : Effects) (e : Expr) : Replaced h g [] e e where
  slots := nofun
  less := .refl _
  upper hu := ⟨hu, nofun⟩
  lower _ hb := ⟨.left _ _, hb, fun hl => ⟨hl, nofun⟩⟩

theorem Replaced.unary (op : UnaryOp) (ha : Replaced h g moved a a') :
    Replaced h g moved (.unary n op a) (.unary n op a') where
  slots := ha.slots
  less := within_of_within_empty (op.effects_within (within_union_empty ha.less))
  upper hu := by
    obtain ⟨hn, hu⟩ := all_unary.1 hu
    obtain ⟨hu', hm⟩ := ha.upper hu
    refine ⟨all_unary.2 ⟨fun _ => ?_, hu'⟩, hm⟩
    exact .trans (within_of_within_empty (op.effects_within (within_union_empty ha.less))) (hn rfl)
  lower hm hb := by
    obtain ⟨_, hb⟩ := all_unary.1 hb
    obtain ⟨hw, hb', hl⟩ := ha.lower hm hb
    refine ⟨op.effects_within hw, all_unary.2 ⟨nofun, hb'⟩, fun hla => ?_⟩
    obtain ⟨hn, hla⟩ := all_unary.1 hla
    obtain ⟨hl', hm'⟩ := hl hla
    refine ⟨all_unary.2 ⟨fun _ => ?_, hl'⟩, hm'⟩
    exact (hn rfl).trans (.union (op.effects_within hw) (.right _ _))

theorem effectsPast_binary (h : Slot → Bool) (n : Note) (op : BinaryOp) (a b : Expr) :
    (Expr.binary n op a b).effectsPast h =
      if isBinder h op then b.effectsPast h else op.effects (a.effectsPast h) (b.effectsPast h) := by
  cases op with
  | «let» slot => rfl
  | _ => rfl

theorem Replaced.binary (op : BinaryOp) (ha : Replaced h g moved a a')
    (hb : Replaced h g moved' b b') :
    Replaced h g (moved' ++ moved) (.binary n op a b) (.binary n op a' b') where
  slots := List.forall_mem_append.2 ⟨hb.slots, ha.slots⟩
  less := by
    rw [effectsPast_binary, effectsPast_binary]
    split
    · exact hb.less
    · exact within_of_within_empty
        (op.effects_within (within_union_empty ha.less) (within_union_empty hb.less))
  upper hu := by
    obtain ⟨hn, hua, hub⟩ := all_binary.1 hu
    obtain ⟨hua', hma⟩ := ha.upper hua
    obtain ⟨hub', hmb⟩ := hb.upper hub
    refine ⟨all_binary.2 ⟨fun hno => ?_, hua', hub'⟩, List.forall_mem_append.2 ⟨hmb, hma⟩⟩
    have hop : ¬ isBinder h op := fun hop => by simp [hoistedValue?, hop] at hno
    have hn := hn (by simp [hoistedValue?, hop])
    rw [effectsPast_binary, if_neg hop] at hn ⊢
    exact .trans (within_of_within_empty
      (op.effects_within (within_union_empty ha.less) (within_union_empty hb.less))) hn
  lower hm hbelow := by
    obtain ⟨hmb, hma⟩ := List.forall_mem_append.1 hm
    obtain ⟨hn, hba, hbb⟩ := all_binary.1 hbelow
    obtain ⟨hwa, hba', hla⟩ := ha.lower hma hba
    obtain ⟨hwb, hbb', hlb⟩ := hb.lower hmb hbb
    have hw : (Expr.binary n op a b).effects.Within ((Expr.binary n op a' b').effects ∪ g) := by
      rw [effects_binary, effects_binary]
      exact op.effects_within hwa hwb
    refine ⟨hw, all_binary.2 ⟨fun v hv => ?_, hba', hbb'⟩, fun hl => ?_⟩
    · have hop : isBinder h op := by
        by_contra hop
        simp [hoistedValue?, hop] at hv
      obtain rfl : a = v := by simpa [hoistedValue?, hop] using hv
      have ha'g : a'.effects.Within g := hn a' (by simp [hoistedValue?, hop])
      exact hwa.trans (.union ha'g (.refl g))
    · obtain ⟨hno, hla', hlb'⟩ := all_binary.1 hl
      obtain ⟨hla', hma'⟩ := hla hla'
      obtain ⟨hlb', hmb'⟩ := hlb hlb'
      refine ⟨all_binary.2 ⟨fun hv => ?_, hla', hlb'⟩, List.forall_mem_append.2 ⟨hmb', hma'⟩⟩
      have hop : ¬ isBinder h op := fun hop => by simp [hoistedValue?, hop] at hv
      exact (hno (by simp [hoistedValue?, hop])).trans (.union hw (.right _ _))

theorem Replaced.ternary {moved'' : List (Slot × Expr)} (op : TernaryOp)
    (ha : Replaced h g moved a a') (hb : Replaced h g moved' b b') (hc : Replaced h g moved'' c c') :
    Replaced h g (moved'' ++ (moved' ++ moved)) (.ternary n op a b c) (.ternary n op a' b' c') where
  slots := List.forall_mem_append.2 ⟨hc.slots, List.forall_mem_append.2 ⟨hb.slots, ha.slots⟩⟩
  less := .union_mono (.union_mono ha.less hb.less) hc.less
  upper hu := by
    obtain ⟨hn, hua, hub, huc⟩ := all_ternary.1 hu
    obtain ⟨hua', hma⟩ := ha.upper hua
    obtain ⟨hub', hmb⟩ := hb.upper hub
    obtain ⟨huc', hmc⟩ := hc.upper huc
    refine ⟨all_ternary.2 ⟨fun _ => ?_, hua', hub', huc'⟩,
      List.forall_mem_append.2 ⟨hmc, List.forall_mem_append.2 ⟨hmb, hma⟩⟩⟩
    exact .trans (.union_mono (.union_mono ha.less hb.less) hc.less) (hn rfl)
  lower hm hbelow := by
    obtain ⟨hmc, hm⟩ := List.forall_mem_append.1 hm
    obtain ⟨hmb, hma⟩ := List.forall_mem_append.1 hm
    obtain ⟨_, hba, hbb, hbc⟩ := all_ternary.1 hbelow
    obtain ⟨hwa, hba', hla⟩ := ha.lower hma hba
    obtain ⟨hwb, hbb', hlb⟩ := hb.lower hmb hbb
    obtain ⟨hwc, hbc', hlc⟩ := hc.lower hmc hbc
    have hw := union_within (union_within hwa hwb) hwc
    refine ⟨hw, all_ternary.2 ⟨nofun, hba', hbb', hbc'⟩, fun hl => ?_⟩
    obtain ⟨hn, hla', hlb', hlc'⟩ := all_ternary.1 hl
    obtain ⟨hla', hma'⟩ := hla hla'
    obtain ⟨hlb', hmb'⟩ := hlb hlb'
    obtain ⟨hlc', hmc'⟩ := hlc hlc'
    refine ⟨all_ternary.2 ⟨fun _ => ?_, hla', hlb', hlc'⟩,
      List.forall_mem_append.2 ⟨hmc', List.forall_mem_append.2 ⟨hmb', hma'⟩⟩⟩
    exact (hn rfl).trans (.union hw (.right _ _))

end Replaced

/-- What becomes of several operands, from the first to the last. -/
inductive ReplacedList (h : Slot → Bool) (g : Effects) :
    List (Slot × Expr) → List Expr → List Expr → Prop where
  | nil : ReplacedList h g [] [] []
  | cons {moved moved' e e' es es'} : Replaced h g moved e e' → ReplacedList h g moved' es es' →
      ReplacedList h g (moved' ++ moved) (e :: es) (e' :: es')

namespace ReplacedList
variable {h : Slot → Bool} {g : Effects} {moved : List (Slot × Expr)} {es es' : List Expr}

theorem slots (hr : ReplacedList h g moved es es') : ∀ m ∈ moved, h m.1 := by
  induction hr with
  | nil => nofun
  | cons he _ ih => exact List.forall_mem_append.2 ⟨ih, he.slots⟩

theorem less (hr : ReplacedList h g moved es es') :
    Effects.ListWithin {} (effectsPastList h es') (effectsPastList h es) := by
  induction hr with
  | nil => exact .nil
  | cons he _ ih => exact .cons (within_union_empty he.less) ih

theorem upper (hr : ReplacedList h g moved es es') (hu : ∀ e ∈ es, e.All (Upper h)) :
    (∀ e ∈ es', e.All (Upper h)) ∧ ∀ m ∈ moved, m.2.All (Upper h) := by
  induction hr with
  | nil => exact ⟨nofun, nofun⟩
  | cons he _ ih =>
    obtain ⟨hue, hues⟩ := List.forall_mem_cons.1 hu
    obtain ⟨hue', hme⟩ := he.upper hue
    obtain ⟨hues', hmes⟩ := ih hues
    exact ⟨List.forall_mem_cons.2 ⟨hue', hues'⟩, List.forall_mem_append.2 ⟨hmes, hme⟩⟩

theorem lower (hr : ReplacedList h g moved es es')
    (hm : ∀ m ∈ moved, m.2.effects.Within g ∧ m.2.All (Below h g))
    (hb : ∀ e ∈ es', e.All (Below h g)) :
    Effects.ListWithin g (effectsList es) (effectsList es') ∧ (∀ e ∈ es, e.All (Below h g)) ∧
      ((∀ e ∈ es, e.All (Lower h g)) →
        (∀ e ∈ es', e.All (Lower h g)) ∧ ∀ m ∈ moved, m.2.All (Lower h g)) := by
  induction hr with
  | nil => exact ⟨.nil, nofun, fun _ => ⟨nofun, nofun⟩⟩
  | cons he _ ih =>
    obtain ⟨hmes, hme⟩ := List.forall_mem_append.1 hm
    obtain ⟨hbe, hbes⟩ := List.forall_mem_cons.1 hb
    obtain ⟨hwe, hbe', hle⟩ := he.lower hme hbe
    obtain ⟨hwes, hbes', hles⟩ := ih hmes hbes
    refine ⟨.cons hwe hwes, List.forall_mem_cons.2 ⟨hbe', hbes'⟩, fun hl => ?_⟩
    obtain ⟨hle', hles'⟩ := List.forall_mem_cons.1 hl
    obtain ⟨hle', hme'⟩ := hle hle'
    obtain ⟨hles', hmes'⟩ := hles hles'
    exact ⟨List.forall_mem_cons.2 ⟨hle', hles'⟩, List.forall_mem_append.2 ⟨hmes', hme'⟩⟩

end ReplacedList

section Replaced
variable {h : Slot → Bool} {g : Effects} {moved : List (Slot × Expr)} {n : Note}

theorem Replaced.nary (op : NaryOp) {es es' : List Expr} (hr : ReplacedList h g moved es es') :
    Replaced h g moved (.nary n op es) (.nary n op es') where
  slots := hr.slots
  less := within_of_within_empty (op.effects_within hr.less)
  upper hu := by
    obtain ⟨hn, hues⟩ := all_nary.1 hu
    obtain ⟨hues', hm⟩ := hr.upper hues
    refine ⟨all_nary.2 ⟨fun _ => ?_, hues'⟩, hm⟩
    exact .trans (within_of_within_empty (op.effects_within hr.less)) (hn rfl)
  lower hm hb := by
    obtain ⟨_, hb⟩ := all_nary.1 hb
    obtain ⟨hws, hbes, hl⟩ := hr.lower hm hb
    have hw := op.effects_within hws
    refine ⟨hw, all_nary.2 ⟨nofun, hbes⟩, fun hlower => ?_⟩
    obtain ⟨hn, hles⟩ := all_nary.1 hlower
    obtain ⟨hles', hm'⟩ := hl hles
    exact ⟨all_nary.2 ⟨fun _ => (hn rfl).trans (.union hw (.right _ _)), hles'⟩, hm'⟩

theorem Replaced.trans {moved' : List (Slot × Expr)} {e e' e'' : Expr}
    (h₁ : Replaced h g moved e e') (h₂ : Replaced h g moved' e' e'') :
    Replaced h g (moved' ++ moved) e e'' where
  slots := List.forall_mem_append.2 ⟨h₂.slots, h₁.slots⟩
  less := h₂.less.trans h₁.less
  upper hu := by
    obtain ⟨hu', hm⟩ := h₁.upper hu
    obtain ⟨hu'', hm'⟩ := h₂.upper hu'
    exact ⟨hu'', List.forall_mem_append.2 ⟨hm', hm⟩⟩
  lower hm hb := by
    obtain ⟨hm', hm⟩ := List.forall_mem_append.1 hm
    obtain ⟨hw', hb', hl'⟩ := h₂.lower hm' hb
    obtain ⟨hw, hb, hl⟩ := h₁.lower hm hb'
    refine ⟨hw.trans (.union hw' (.right _ _)), hb, fun hlow => ?_⟩
    obtain ⟨hlow', hml⟩ := hl hlow
    obtain ⟨hlow'', hml'⟩ := hl' hlow'
    exact ⟨hlow'', List.forall_mem_append.2 ⟨hml', hml⟩⟩

/-- A part is moved as a whole. -/
theorem Replaced.whole (e : Expr) (at' : LocationId) {slot : Slot} (hs : h slot) :
    Replaced h g [(slot, e)] e (.mkLeaf (.variable (.range slot)) at') where
  slots := List.forall_mem_singleton.2 hs
  less := .empty _
  upper hu := ⟨all_leaf.2 fun _ => .empty _, List.forall_mem_singleton.2 hu⟩
  lower hm _ := by
    obtain ⟨hw, hb⟩ := List.forall_mem_singleton.1 hm
    exact ⟨hw.trans (.right _ _), hb,
      fun hl => ⟨all_leaf.2 fun _ => .empty _, List.forall_mem_singleton.2 hl⟩⟩

/-- The binding of a hoisted variable moves on, and its scope stays. -/
theorem Replaced.binding {slot : Slot} {a b b' : Expr} (hs : h slot) (hb : Replaced h g moved b b') :
    Replaced h g (moved ++ [(slot, a)]) (.binary n (.let slot) a b) b' where
  slots := List.forall_mem_append.2 ⟨hb.slots, List.forall_mem_singleton.2 hs⟩
  less := by
    rw [effectsPast_binary, isBinder, if_pos hs]
    exact hb.less
  upper hu := by
    obtain ⟨_, hua, hub⟩ := all_binary.1 hu
    obtain ⟨hub', hm⟩ := hb.upper hub
    exact ⟨hub', List.forall_mem_append.2 ⟨hm, List.forall_mem_singleton.2 hua⟩⟩
  lower hm hbelow := by
    obtain ⟨hmb, hma⟩ := List.forall_mem_append.1 hm
    obtain ⟨hwa, hba⟩ := List.forall_mem_singleton.1 hma
    obtain ⟨hwb, hbb, hl⟩ := hb.lower hmb hbelow
    refine ⟨.union (hwa.trans (.right _ _)) hwb, all_binary.2 ⟨fun v hv => ?_, hba, hbb⟩, fun hlow => ?_⟩
    · obtain rfl : a = v := by simpa [hoistedValue?, isBinder, hs] using hv
      exact hwa
    · obtain ⟨_, hla, hlb⟩ := all_binary.1 hlow
      obtain ⟨hlb', hm'⟩ := hl hlb
      exact ⟨hlb', List.forall_mem_append.2 ⟨hm', List.forall_mem_singleton.2 hla⟩⟩

end Replaced

theorem isHoistedIn_allocate {unit : CompileUnit} {t : Slot} (name : QName) (kind : BindingKind)
    (declared : Option SequenceType) (h : isHoistedIn unit t) :
    isHoistedIn (unit.allocate name kind declared).2 t := by
  unfold isHoistedIn CompileUnit.binding CompileUnit.allocate at *
  have ht : t < unit.bindings.size := by
    by_contra ht
    simp [ht, default, instInhabitedBinding.default, instInhabitedBindingKind.default] at h
  simpa [Array.getElem?_push, ht, Nat.ne_of_lt ht] using h

theorem isHoistedIn_setInferred (unit : CompileUnit) (t slot : Slot) (type : SequenceType) :
    isHoistedIn (unit.setInferred slot type) t = isHoistedIn unit t := by
  unfold isHoistedIn CompileUnit.binding CompileUnit.setInferred
  rw [Array.getElem?_modify]
  split
  · cases unit.bindings[t]? <;> rfl
  · rfl

theorem isHoistedIn_new (unit : CompileUnit) (name : QName) :
    isHoistedIn (unit.allocate name .hoisted none).2 unit.bindings.size := by
  unfold isHoistedIn CompileUnit.binding CompileUnit.allocate
  simp

/-- What a state of a pass holds: the unit, and the values that wait to be bound. -/
structure View (σ : Type) where
  unit : σ → CompileUnit
  moved : σ → List (Slot × Expr)

def collecting : View State := ⟨State.unit, State.moved⟩
def walking : View (CompileUnit × Nat) := ⟨Prod.fst, fun _ => []⟩

section
variable {σ : Type} (view : View σ)

/-- Values are moved, and variables that are hoisted stay so. -/
structure Grows (s s' : σ) (moved : List (Slot × Expr)) : Prop where
  moved : view.moved s' = moved ++ view.moved s
  hoisted : ∀ t, isHoistedIn (view.unit s) t → isHoistedIn (view.unit s') t

/-- A step that replaces an expression, whatever is regarded as hoisted as long as all is that the step
leaves as such. -/
def Replaces (e : Expr) (p : StateM σ Expr) : Prop :=
  ∀ s, ∃ moved, Grows view s (p.run s).2 moved ∧
    ∀ h g, (∀ t, isHoistedIn (view.unit (p.run s).2) t → h t) → Replaced h g moved e (p.run s).1

def ReplacesList (es : List Expr) (p : StateM σ (List Expr)) : Prop :=
  ∀ s, ∃ moved, Grows view s (p.run s).2 moved ∧
    ∀ h g, (∀ t, isHoistedIn (view.unit (p.run s).2) t → h t) →
      ReplacedList h g moved es (p.run s).1

end

section
variable {σ : Type} {view : View σ}

theorem Grows.refl (s : σ) : Grows view s s [] := ⟨rfl, fun _ => id⟩

theorem Grows.trans {s s' s'' : σ} {moved moved' : List (Slot × Expr)} (h : Grows view s s' moved)
    (k : Grows view s' s'' moved') : Grows view s s'' (moved' ++ moved) :=
  ⟨by rw [k.moved, h.moved, List.append_assoc], fun t ht => k.hoisted t (h.hoisted t ht)⟩

variable {a b c : Expr} {p q r : StateM σ Expr}

theorem replaces_pure (e : Expr) : Replaces view e (pure e) :=
  fun s => ⟨[], .refl s, fun h g _ => .refl h g e⟩

theorem Replaces.unary (n : Note) (op : UnaryOp) (ha : Replaces view a p) :
    Replaces view (.unary n op a) (do return .unary n op (← p)) := by
  intro s
  obtain ⟨moved, hg, hr⟩ := ha s
  exact ⟨moved, hg, fun h g hh => (hr h g hh).unary op⟩

theorem Replaces.binary (n : Note) (op : BinaryOp) (ha : Replaces view a p) (hb : Replaces view b q) :
    Replaces view (.binary n op a b) (do let a ← p; return .binary n op a (← q)) := by
  intro s
  obtain ⟨moved, hg, hr⟩ := ha s
  obtain ⟨moved', hg', hr'⟩ := hb (p.run s).2
  exact ⟨moved' ++ moved, hg.trans hg', fun h g hh =>
    (hr h g fun t ht => hh t (hg'.hoisted t ht)).binary op (hr' h g hh)⟩

theorem Replaces.ternary (n : Note) (op : TernaryOp) (ha : Replaces view a p)
    (hb : Replaces view b q) (hc : Replaces view c r) :
    Replaces view (.ternary n op a b c)
      (do let a ← p; let b ← q; return .ternary n op a b (← r)) := by
  intro s
  obtain ⟨moved, hg, hr⟩ := ha s
  obtain ⟨moved', hg', hr'⟩ := hb (p.run s).2
  obtain ⟨moved'', hg'', hr''⟩ := hc (q.run (p.run s).2).2
  refine ⟨moved'' ++ (moved' ++ moved), (hg.trans hg').trans hg'', fun h g hh => ?_⟩
  have hh' t ht := hh t (hg''.hoisted t ht)
  exact .ternary op (hr h g fun t ht => hh' t (hg'.hoisted t ht)) (hr' h g hh') (hr'' h g hh)

theorem Replaces.nary {es : List Expr} {p : StateM σ (List Expr)} (n : Note) (op : NaryOp)
    (hs : ReplacesList view es p) : Replaces view (.nary n op es) (do return .nary n op (← p)) := by
  intro s
  obtain ⟨moved, hg, hr⟩ := hs s
  exact ⟨moved, hg, fun h g hh => .nary op (hr h g hh)⟩

theorem replacesList_nil : ReplacesList view [] (pure []) :=
  fun s => ⟨[], .refl s, fun _ _ _ => .nil⟩

theorem ReplacesList.cons {e : Expr} {es : List Expr} {q : StateM σ (List Expr)}
    (he : Replaces view e p) (hes : ReplacesList view es q) :
    ReplacesList view (e :: es) (do let e ← p; return e :: (← q)) := by
  intro s
  obtain ⟨moved, hg, hr⟩ := he s
  obtain ⟨moved', hg', hr'⟩ := hes (p.run s).2
  exact ⟨moved' ++ moved, hg.trans hg', fun h g hh =>
    .cons (hr h g fun t ht => hh t (hg'.hoisted t ht)) (hr' h g hh)⟩

end

theorem replaces_move (e : Expr) : Replaces collecting e (move e) := by
  intro s
  refine ⟨[(s.unit.bindings.size, e)], ⟨rfl, fun t ht => ?_⟩, fun h g hh => .whole e e.location (hh _ ?_)⟩
  · exact (isHoistedIn_setInferred _ _ _ _).trans (isHoistedIn_allocate _ _ _ ht)
  · exact (isHoistedIn_setInferred _ _ _ _).trans (isHoistedIn_new _ _)

/-- A binding that moves on stays hoisted; any other let is a node like all others. -/
theorem replaces_let {a b : Expr} {p q : StateM State Expr} (n : Note) (slot : Slot) (accepted : Bool)
    (hb : Replaces collecting b p) (hq : Replaces collecting (.binary n (.let slot) a b) q) :
    Replaces collecting (.binary n (.let slot) a b) (do
      if (← isHoisted slot) && accepted then
        modify fun s => { s with moved := (slot, a) :: s.moved }
        p
      else q) := by
  intro s
  by_cases hs : isHoistedIn s.unit slot && accepted
  · obtain ⟨moved, hg, hr⟩ := hb { s with moved := (slot, a) :: s.moved }
    have hslot := hg.hoisted slot (Bool.and_eq_true_iff.1 hs).1
    have hrun : StateT.run (do
        if (← isHoisted slot) && accepted then
          modify fun s => { s with moved := (slot, a) :: s.moved }
          p
        else q) s = p.run { s with moved := (slot, a) :: s.moved } := by
      change (if isHoistedIn s.unit slot && accepted then _ else _ : StateM State Expr).run s = _
      rw [if_pos hs]
      rfl
    rw [hrun]
    refine ⟨moved ++ [(slot, a)], ⟨?_, hg.hoisted⟩, fun h g hh => .binding (hh slot hslot) (hr h g hh)⟩
    exact hg.moved.trans (List.append_cons ..)
  · have hrun : StateT.run (do
        if (← isHoisted slot) && accepted then
          modify fun s => { s with moved := (slot, a) :: s.moved }
          p
        else q) s = q.run s := by
      change (if isHoistedIn s.unit slot && accepted then _ else _ : StateM State Expr).run s = _
      rw [if_neg hs]
    rw [hrun]
    exact hq s

mutual

theorem collect_replaces (forbidden : List Slot) (e : Expr) :
    Replaces collecting e (collect forbidden e) := by
  match e with
  | .leaf n op =>
    unfold collect
    split
    · exact replaces_move _
    · exact replaces_pure _
  | .unary n op a =>
    unfold collect
    split
    · exact replaces_move _
    · exact (collect_replaces forbidden a).unary n op
  | .binary n op a b =>
    unfold collect
    split
    · exact replaces_move _
    · cases op with
      | «let» slot =>
        exact replaces_let n slot _ (collect_replaces forbidden b)
          (.binary n _ (collect_replaces _ a) (collect_replaces _ b))
      | _ => exact .binary n _ (collect_replaces _ a) (collect_replaces _ b)
  | .ternary n op a b c =>
    unfold collect
    split
    · exact replaces_move _
    · exact .ternary n op (collect_replaces forbidden a) (collect_replaces forbidden b)
        (collect_replaces forbidden c)
  | .nary n op es =>
    unfold collect
    split
    · exact replaces_move _
    · exact .nary n op (collectList_replaces forbidden es)

theorem collectList_replaces (forbidden : List Slot) (es : List Expr) :
    ReplacesList collecting es (collectList forbidden es) := by
  match es with
  | [] => exact replacesList_nil
  | e :: es => exact .cons (collect_replaces forbidden e) (collectList_replaces forbidden es)

end

/-- Binding the latest of the values that were moved. -/
theorem Replaced.bindLatest {h : Slot → Bool} {g : Effects} {m : Slot × Expr}
    {moved : List (Slot × Expr)} {e e' : Expr} (at' : LocationId)
    (hr : Replaced h g (m :: moved) e e') :
    Replaced h g moved e (.mkBinary (.let m.1) m.2 e' at') := by
  have hslot : isBinder h (.let m.1) := hr.slots m List.mem_cons_self
  have hvalue : hoistedValue? h (.mkBinary (.let m.1) m.2 e' at') = some m.2 := if_pos hslot
  constructor
  · intro x hx
    exact hr.slots x (List.mem_cons_of_mem m hx)
  · unfold Expr.mkBinary
    rw [effectsPast_binary, if_pos hslot]
    exact hr.less
  · intro hu
    obtain ⟨hu', hm⟩ := hr.upper hu
    obtain ⟨hum, hms⟩ := List.forall_mem_cons.1 hm
    exact ⟨all_binary.2 ⟨fun hno => absurd (hvalue.symm.trans hno) nofun, hum, hu'⟩, hms⟩
  · intro hm hb
    obtain ⟨hn, hbm, hb'⟩ := all_binary.1 hb
    have hmg := hn m.2 hvalue
    obtain ⟨hw, hbe, hl⟩ := hr.lower (List.forall_mem_cons.2 ⟨⟨hmg, hbm⟩, hm⟩) hb'
    refine ⟨hw.trans (.union_mono (.right _ _) (.refl g)), hbe, fun hlow => ?_⟩
    obtain ⟨hlow', hlm⟩ := hl hlow
    obtain ⟨hm', hms'⟩ := List.forall_mem_cons.1 hlm
    exact ⟨all_binary.2 ⟨fun hno => absurd (hvalue.symm.trans hno) nofun, hm', hlow'⟩, hms'⟩

theorem Replaced.wrap {h : Slot → Bool} {g : Effects} {moved : List (Slot × Expr)} {e e' : Expr}
    (hr : Replaced h g moved e e') : Replaced h g [] e (wrap moved e') := by
  unfold Hoist.wrap
  generalize e'.location = at'
  induction moved generalizing e' with
  | nil => exact hr
  | cons m moved ih => exact ih (hr.bindLatest at')

theorem replaces_offer (forbidden : List Slot) (n : Note) (op : BinaryOp) (a b : Expr) :
    Replaces walking (.binary n op a b) (offer forbidden b (.binary n op a)) := by
  intro s
  obtain ⟨moved, hg, hr⟩ := collect_replaces forbidden b ⟨s.1, []⟩
  have hmoved : ((collect forbidden b).run ⟨s.1, []⟩).2.moved = moved :=
    hg.moved.trans (List.append_nil moved)
  refine ⟨[], ⟨rfl, hg.hoisted⟩, fun h g hh => ?_⟩
  have hsite := (Replaced.refl h g a).binary (n := n) op (hr h g hh)
  rw [List.append_nil, ← hmoved] at hsite
  exact hsite.wrap

theorem replaces_visitBinary (n : Note) (op : BinaryOp) (a b : Expr) :
    Replaces walking (.binary n op a b) (visitBinary n op a b) := by
  cases op with
  | «for» slot => exact replaces_offer [slot] n _ a b
  | quantified q slot => exact replaces_offer [slot] n _ a b
  | filter positional =>
    unfold visitBinary
    dsimp only
    split
    · exact replaces_pure _
    · exact replaces_offer [] n _ a b
  | path => exact replaces_offer [] n _ a b
  | _ => exact replaces_pure _

mutual

theorem visit_replaces (e : Expr) : Replaces walking e (visit e) := by
  match e with
  | .leaf n op => exact replaces_pure _
  | .unary n op a => exact (visit_replaces a).unary n op
  | .binary n op a b =>
    intro s
    obtain ⟨moved, hg, hr⟩ := (visit_replaces a).binary n op (visit_replaces b) s
    obtain ⟨moved', hg', hr'⟩ := replaces_visitBinary n op ((visit a).run s).1
      ((visit b).run ((visit a).run s).2).1 ((visit b).run ((visit a).run s).2).2
    exact ⟨moved' ++ moved, hg.trans hg', fun h g hh =>
      (hr h g fun t ht => hh t (hg'.hoisted t ht)).trans (hr' h g hh)⟩
  | .ternary n op a b c =>
    exact .ternary n op (visit_replaces a) (visit_replaces b) (visit_replaces c)
  | .nary n op es => exact .nary n op (visitList_replaces es)

theorem visitList_replaces (es : List Expr) : ReplacesList walking es (visitList es) := by
  match es with
  | [] => exact replacesList_nil
  | e :: es => exact .cons (visit_replaces e) (visitList_replaces es)

end

/-- One walk replaces the tree and leaves nothing to be bound. -/
theorem promote_replaced (e : Expr) (unit : CompileUnit) (g : Effects) :
    Replaced (isHoistedIn (promote e unit).2.1) g [] e (promote e unit).1 := by
  obtain ⟨moved, hg, hr⟩ := visit_replaces e (unit, 0)
  have hnone : moved = [] := (List.append_eq_nil_iff.1 hg.moved.symm).1
  rw [hnone] at hr
  exact hr _ g fun t ht => ht

section
variable {h : Slot → Bool}

mutual

/-- Leaving the values of some lets apart, an expression touches no more. -/
theorem effectsPast_within (h : Slot → Bool) (e : Expr) : (e.effectsPast h).Within e.effects := by
  match e with
  | .leaf n op => exact .refl _
  | .unary n op a =>
    exact within_of_within_empty (op.effects_within (within_union_empty (effectsPast_within h a)))
  | .binary n op a b =>
    have ha := within_union_empty (effectsPast_within h a)
    have hb := within_union_empty (effectsPast_within h b)
    rw [effectsPast_binary, effects_binary]
    split
    · next hop =>
      cases op with
      | «let» slot => exact (effectsPast_within h b).trans (.right _ _)
      | _ => cases hop
    · exact within_of_within_empty (op.effects_within ha hb)
  | .ternary n op a b c =>
    exact .union_mono (.union_mono (effectsPast_within h a) (effectsPast_within h b))
      (effectsPast_within h c)
  | .nary n op es => exact within_of_within_empty (op.effects_within (effectsPastList_within h es))

theorem effectsPastList_within (h : Slot → Bool) (es : List Expr) :
    Effects.ListWithin {} (effectsPastList h es) (effectsList es) := by
  match es with
  | [] => exact .nil
  | e :: es =>
    exact .cons (within_union_empty (effectsPast_within h e)) (effectsPastList_within h es)

end

theorem mem_values {v e : Expr} : v ∈ values h e ↔ ∃ x ∈ e.preorder, hoistedValue? h x = some v :=
  List.mem_filterMap

theorem all_below_iff {g : Effects} {e : Expr} :
    e.All (Below h g) ↔ ∀ v ∈ values h e, v.effects.Within g := by
  constructor
  · intro hb v hv
    obtain ⟨x, hx, hxv⟩ := mem_values.1 hv
    exact hb x hx v hxv
  · intro hv x hx v hxv
    exact hv v (mem_values.2 ⟨x, hx, hxv⟩)

theorem all_value {P : Expr → Prop} {x v : Expr} (hx : x.All P) (hv : hoistedValue? h x = some v) :
    v.All P := by
  cases x with
  | binary n op a b =>
    rw [hoistedValue?] at hv
    split at hv
    · cases hv
      exact (all_binary.1 hx).2.1
    · cases hv
  | _ => cases hv

theorem site_binary (n : Note) (op : BinaryOp) (a b : Expr) :
    site h (.binary n op a b) = if isBinder h op then site h b else .binary n op a b := by
  rw [site]

theorem hoistedValue?_site (e : Expr) : hoistedValue? h (site h e) = none := by
  match e with
  | .binary n op a b =>
    rw [site_binary]
    split
    · exact hoistedValue?_site b
    · next hop => exact if_neg hop
  | .leaf .. => rfl
  | .unary .. => rfl
  | .ternary .. => rfl
  | .nary .. => rfl

theorem effectsPast_site (e : Expr) : (site h e).effectsPast h = e.effectsPast h := by
  match e with
  | .binary n op a b =>
    rw [site_binary, effectsPast_binary]
    split
    · exact effectsPast_site b
    · next hop => rw [effectsPast_binary, if_neg hop]
  | .leaf .. => rfl
  | .unary .. => rfl
  | .ternary .. => rfl
  | .nary .. => rfl

theorem site_effects_within (e : Expr) : (site h e).effects.Within e.effects := by
  match e with
  | .binary n op a b =>
    rw [site_binary]
    split
    · next hop =>
      cases op with
      | «let» slot => exact (site_effects_within b).trans (.right _ _)
      | _ => cases hop
    · exact .refl _
  | .leaf .. => exact .refl _
  | .unary .. => exact .refl _
  | .ternary .. => exact .refl _
  | .nary .. => exact .refl _

theorem All.site {P : Expr → Prop} {e : Expr} (he : e.All P) : P (site h e) := by
  match e with
  | .binary n op a b =>
    rw [site_binary]
    split
    · exact All.site (all_binary.1 he).2.2
    · exact he.self
  | .leaf .. => exact he.self
  | .unary .. => exact he.self
  | .ternary .. => exact he.self
  | .nary .. => exact he.self

/-- The record of what a hoisted variable's value wraps lets it be moved. -/
def SiteMovable (h : Slot → Bool) (x : Expr) : Prop :=
  ∀ v, hoistedValue? h x = some v → (site h v).info.effects.isMovable

/-- A value whose site is recorded as movable touches no more than may be moved, if that holds of the
values of the hoisted variables in it. -/
private theorem value_within {v : Expr} (hu : v.All (Upper h))
    (hw : v.effects.Within (v.effectsPast h ∪ .movable)) (hs : (site h v).info.effects.isMovable) :
    v.effects.Within .movable := by
  have hsite : ((site h v).effectsPast h).Within (site h v).info.effects :=
    All.site hu (hoistedValue?_site v)
  rw [effectsPast_site] at hsite
  exact hw.trans (.union (hsite.trans (Effects.isMovable_iff.1 hs)) (.refl _))

mutual

private theorem below_of_sites (e : Expr) (hu : e.All (Upper h)) (hs : e.All (SiteMovable h)) :
    e.All (Below h .movable) ∧ e.effects.Within (e.effectsPast h ∪ .movable) := by
  match e with
  | .leaf n op => exact ⟨all_leaf.2 nofun, .left _ _⟩
  | .unary n op a =>
    obtain ⟨hb, hw⟩ := below_of_sites a (all_unary.1 hu).2 (all_unary.1 hs).2
    exact ⟨all_unary.2 ⟨nofun, hb⟩, op.effects_within hw⟩
  | .binary n op a b =>
    obtain ⟨_, hua, hub⟩ := all_binary.1 hu
    obtain ⟨hso, hsa, hsb⟩ := all_binary.1 hs
    obtain ⟨hba, hwa⟩ := below_of_sites a hua hsa
    obtain ⟨hbb, hwb⟩ := below_of_sites b hub hsb
    rw [effects_binary, effectsPast_binary]
    by_cases hop : isBinder h op
    · rw [if_pos hop]
      have ha : a.effects.Within .movable := value_within hua hwa (hso a (if_pos hop))
      refine ⟨all_binary.2 ⟨fun v hv => ?_, hba, hbb⟩, ?_⟩
      · cases (if_pos hop).symm.trans hv
        exact ha
      · cases op with
        | «let» slot => exact .union (ha.trans (.right _ _)) hwb
        | _ => cases hop
    · rw [if_neg hop]
      refine ⟨all_binary.2 ⟨fun v hv => ?_, hba, hbb⟩, op.effects_within hwa hwb⟩
      cases (if_neg hop).symm.trans hv
  | .ternary n op a b c =>
    obtain ⟨_, hua, hub, huc⟩ := all_ternary.1 hu
    obtain ⟨_, hsa, hsb, hsc⟩ := all_ternary.1 hs
    obtain ⟨hba, hwa⟩ := below_of_sites a hua hsa
    obtain ⟨hbb, hwb⟩ := below_of_sites b hub hsb
    obtain ⟨hbc, hwc⟩ := below_of_sites c huc hsc
    exact ⟨all_ternary.2 ⟨nofun, hba, hbb, hbc⟩, union_within (union_within hwa hwb) hwc⟩
  | .nary n op es =>
    obtain ⟨hb, hw⟩ := below_of_sitesList es (all_nary.1 hu).2 (all_nary.1 hs).2
    exact ⟨all_nary.2 ⟨nofun, hb⟩, op.effects_within hw⟩

private theorem below_of_sitesList (es : List Expr) (hu : ∀ e ∈ es, e.All (Upper h))
    (hs : ∀ e ∈ es, e.All (SiteMovable h)) :
    (∀ e ∈ es, e.All (Below h .movable)) ∧
      Effects.ListWithin .movable (effectsList es) (effectsPastList h es) := by
  match es with
  | [] => exact ⟨nofun, .nil⟩
  | e :: es =>
    obtain ⟨hue, hues⟩ := List.forall_mem_cons.1 hu
    obtain ⟨hse, hses⟩ := List.forall_mem_cons.1 hs
    obtain ⟨hbe, hwe⟩ := below_of_sites e hue hse
    obtain ⟨hbes, hwes⟩ := below_of_sitesList es hues hses
    exact ⟨List.forall_mem_cons.2 ⟨hbe, hbes⟩, .cons hwe hwes⟩

end

end

/-- The values that one walk binds can be evaluated where it binds them, exactly if each is recorded so
at the site inside its wrappers. The walk itself asks for the record of the value, and a wrapper has
none. -/
theorem promote_values_movable_iff {context : StaticContext} {unit unit' : CompileUnit}
    {source e : Expr} (hcheck : (Typing.check source).run context unit = (.ok e, unit'))
    (u : CompileUnit) :
    let h := isHoistedIn (promote e u).2.1
    (∀ v ∈ values h (promote e u).1, v.effects.isMovable) ↔
      ∀ v ∈ values h (promote e u).1, (site h v).info.effects.isMovable := by
  intro h
  have hrec := Typing.check_recorded source hcheck
  have hupper : e.All (Upper h) := fun x hx _ => hrec x hx ▸ effectsPast_within h x
  have hlower : e.All (Lower h .movable) := fun x hx _ => hrec x hx ▸ .left _ _
  have hr := promote_replaced e u .movable
  constructor
  · intro hv v hmem
    have hbelow : (promote e u).1.All (Below h .movable) :=
      all_below_iff.2 fun v hv' => Effects.isMovable_iff.1 (hv v hv')
    have hlow := ((hr.lower nofun hbelow).2.2 hlower).1
    obtain ⟨x, hx, hxv⟩ := mem_values.1 hmem
    have hsite : Lower h .movable (site h v) :=
      All.site (all_value (All.all _ hlow x hx) hxv)
    apply Effects.isMovable_iff.2
    apply (hsite (hoistedValue?_site v)).trans
    exact .union ((site_effects_within v).trans (Effects.isMovable_iff.1 (hv v hmem))) (.refl _)
  · intro hs v hmem
    have hu := (hr.upper hupper).1
    have hsites : (promote e u).1.All (SiteMovable h) :=
      fun x hx v hxv => hs v (mem_values.2 ⟨x, hx, hxv⟩)
    exact Effects.isMovable_iff.2 (all_below_iff.1 (below_of_sites _ hu hsites).1 v hmem)

/-- `for $i in (1, 2) return` and then the body, of which `$i` is slot 0. -/
def loop (body : Expr) : Expr :=
  .mkBinary (.for 0) (.mkLeaf (.literal [.integer 1, .integer 2]) 0) body 0

def loopUnit : CompileUnit := { bindings := #[⟨.unprefixed "i", .range, none, .one .item⟩] }

/-- `string-length("aa") + $i` -/
def lengthPlusItem : Expr :=
  .mkBinary (.arithmetic .add) (.callAt .stringLength [.constantAt (.string "aa") 0] 0)
    (.mkLeaf (.variable (.range 0)) 0) 0

/-- The length is bound around the loop, and the record of the call is right. -/
theorem promote_length_movable :
    ∃ e unit', (Typing.check (loop lengthPlusItem)).run {} loopUnit = (.ok e, unit') ∧
      (promote e unit').2.2 = 1 ∧
      ∀ v ∈ values (isHoistedIn (promote e unit').2.1) (promote e unit').1, v.effects.isMovable := by
  refine ⟨_, _, rfl, rfl, ?_⟩
  exact (@promote_values_movable_iff {} loopUnit _ (loop lengthPlusItem) _ rfl _).2 (by decide)

/-- `.[. = string-length("aa")]` -/
def filterByLength : Expr :=
  .mkBinary (.filter false) (.mkLeaf .contextItem 0)
    (.mkBinary (.generalComparison .eq) (.mkLeaf .contextItem 0)
      (.callAt .stringLength [.constantAt (.string "aa") 0] 0) 0) 0

/-- The length is moved out of the predicate, and then the filter, whose wrapper has no record of the
context item that it reads, is moved out of the loop. -/
theorem promote_moves_step :
    ∃ e unit', (Typing.check (loop filterByLength)).run {} loopUnit = (.ok e, unit') ∧
      ∃ v ∈ values (isHoistedIn (promote e unit').2.1) (promote e unit').1,
        v.effects.isMovable = false :=
  ⟨_, _, rfl, _, List.mem_cons_self, rfl⟩

/-- `head((for $k in (1, 2) return if ($k = 2) then error() else $k, $i))` -/
def headOfLoop : Expr :=
  .callAt .head [.mkNary .block [
    .mkBinary (.for 1) (.mkLeaf (.literal [.integer 1, .integer 2]) 0)
      (.mkTernary .if
        (.mkBinary (.generalComparison .eq) (.mkLeaf (.variable (.range 1)) 0) (.constantAt (.integer 2) 0) 0)
        (.callAt .error [] 0) (.mkLeaf (.variable (.range 1)) 0) 0) 0,
    .mkLeaf (.variable (.range 0)) 0] 0] 0

def twoLoops : CompileUnit := { bindings := #[⟨.unprefixed "i", .range, none, .one .item⟩,
  ⟨.unprefixed "k", .range, none, .one .item⟩] }

/-- What a tree gives for an item, compiled with the other rewrites and with or without hoisting. -/
def answer (hoist : Bool) (e : Expr) (item : Item) : Option (Except Failure (List Item)) :=
  ((Program.ofExpr e { optimizer := { hoist } } twoLoops).1.toOption).map fun p =>
    (p.run .all {} (some item) {}).1

/-- What is moved is evaluated without a focus, and as a whole: either way it fails where it would not
have failed in its place. -/
theorem hoisting_fails :
    (answer false (loop filterByLength) (.atomic (.ofInt 2)) =
        some (.ok [.atomic (.ofInt 2), .atomic (.ofInt 2)]) ∧
      answer true (loop filterByLength) (.atomic (.ofInt 2)) =
        some (.error ⟨.absentDynamic, some 0⟩)) ∧
    answer false (loop headOfLoop) (.atomic (.ofInt 2)) =
        some (.ok [.atomic (.ofInt 1), .atomic (.ofInt 1)]) ∧
      answer true (loop headOfLoop) (.atomic (.ofInt 2)) = some (.error ⟨.raised, some 0⟩) := by
  refine ⟨⟨?_, ?_⟩, ?_, ?_⟩ <;> decide +kernel

end Hoist

end XPath
