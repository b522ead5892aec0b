import XPath.Compile
import XPath.Proofs.Scope
import XPath.Proofs.Soundness

/-!
A checked expression is determined by what its note names, and makes no nodes unless its note says so:
apart from the values that were put off before, an evaluation leaves the trees alone.
-/
namespace XPath

variable {α : Type} {le : Forest → Forest → Prop}

/-- From when it is asked until it answers, a source takes the trees only as far as `le` allows. -/
inductive Pull.Keeps (le : Forest → Forest → Prop) : Forest → Pull World Failure α → Prop where
  | done {t w} : le t w.forest → Keeps le t (.done w)
  | item {t r w rest} : le t w.forest →
      (∀ w', le w.forest w'.forest → Keeps le w'.forest (rest w')) → Keeps le t (.item r w rest)

def Source.Keeps (le : Forest → Forest → Prop) (src : Source World Failure α) : Prop :=
  ∀ w, (src w).Keeps le w.forest

def Eval.Keeps (le : Forest → Forest → Prop) (p : Eval α) : Prop :=
  ∀ w, le w.forest (p.perform w).2.forest

/-- The same of the ways of evaluating an expression in a frame. -/
structure Meaning.Keeps (le : Forest → Forest → Prop) (m : Meaning) (f : Frame) : Prop where
  item : Eval.Keeps le (m.item f)
  items : Source.Keeps le (m.items f)
  push : Eval.Keeps le (m.push f)
  bound : Eval.Keeps le (m.bound f)

/-- Starting a value that was put off takes the trees only as far as `le` allows. -/
def Value.Keeps (le : Forest → Forest → Prop) : Value → Prop
  | .items _ => True
  | .deferred d _ => Source.Keeps le d.items

/-- How the trees may change. -/
structure Forest.Moves (le : Forest → Forest → Prop) : Prop where
  refl : ∀ t, le t t
  trans : ∀ {r s t}, le r s → le s t → le r t

/-- Making nodes takes the trees only as far as `le` allows. -/
structure Forest.Makes (le : Forest → Forest → Prop) : Prop where
  element : ∀ t name content, le t (((Construction.start t name).appendContent [] content).finish).2
  text : ∀ t s, le t (t.addText s).2

namespace Regime

/-- The trees go only as far as `le` allows; of anything else nothing is said. -/
def keeping (h : Forest.Moves le) : Regime where
  Stage := Forest
  le := le
  refl := h.refl
  trans := h.trans
  good t w := w.forest = t
  reordered _ hw := hw

variable {h : Forest.Moves le} {P : (keeping h).Known α}

theorem Gives.keeps {least : ℕ} {most : ℕ∞} {t : (keeping h).Stage} {p : Pull World Failure α}
    (hp : Gives P least most t p) : p.Keeps le t := by
  induction hp with
  | done hk hw =>
    subst hw
    exact .done hk
  | ok hk hw _ _ _ _ ih =>
    subst hw
    exact .item hk fun w' hw' => ih w'.forest w' hw' rfl
  | error hk hw _ ih =>
    subst hw
    exact .item hk fun w' hw' => ih w'.forest w' hw' rfl

theorem keeping_keepsNodes (hm : Forest.Makes le) : (keeping h).KeepsNodes where
  element {_ w} name content hw := ⟨_, hw ▸ hm.element w.forest name content, rfl⟩
  text {_ w} s hw := ⟨_, hw ▸ hm.text w.forest s, rfl⟩

theorem gives_of_keeps {t : Forest} {p : Pull World Failure α} (hp : p.Keeps le t) :
    Gives (.any (keeping h) α) 0 ⊤ t p := by
  induction hp with
  | done ht => exact .done ht rfl
  | @item t r w rest ht _ ih =>
    cases r with
    | ok x =>
      exact .ok (j := ⊤) ht rfl trivial (Nat.zero_le _) le_top fun m w' hm hw' => by
        subst hw'
        exact ih w' hm
    | error e =>
      exact .error ht rfl fun m w' hm hw' => by
        subst hw'
        exact ih w' hm

theorem Runs.keeps {p : Eval α} {Q : Forest → α → Prop}
    (hp : ∀ t, Runs (R := keeping h) t p Q) : Eval.Keeps le p := by
  intro w
  obtain ⟨t, ht, hw, _⟩ := hp w.forest w.forest w (h.refl _) rfl
  exact (show _ = t from hw) ▸ ht

/-- Whatever is known, the items are asked for in a world that is good. -/
theorem yields_of_keeps {src : Source World Failure α} (hsrc : Source.Keeps le src) (t : Forest) :
    Yields (.any (keeping h) α) 0 ⊤ t src := fun l w _ hw => by
  subst hw
  exact gives_of_keeps (hsrc w)

theorem runs_of_keeps {p : Eval α} (hp : Eval.Keeps le p) (t : Forest) :
    Runs (R := keeping h) t p fun _ _ => True := fun l w _ hw => by
  subst hw
  exact ⟨_, hp w, rfl, fun _ _ => trivial⟩

theorem fitsType_nothing {R : Regime} {k : R.Stage} (xs : List Item) : FitsType .any k xs :=
  fitsType_any rfl rfl rfl xs

theorem keeping_defers : (keeping h).Defers .any := by
  intro k src keeps hsrc l w hl hw
  refine ⟨l, h.refl l, hw, fun d hd => ?_⟩
  cases hd
  exact .of_cells (hsrc.later hl) (fun _ hw' => hw') (fun _ _ _ => fitsType_nothing _) fun _ hw' _ => hw'

theorem keeping_keepsIndexes (base : Expr) : (keeping h).KeepsIndexes base .any where
  found _ _ _ := ⟨fun _ _ => nofun, le_top⟩
  stored hw _ _ := ⟨_, h.refl _, hw⟩

end Regime

/-- Nothing is claimed of any value. -/
def Claims.nothing : Claims where
  info e := { e.info with cardinality := .zeroOrMore, item := .item }
  dependencies _ := rfl
  ranges _ := .any
  globals _ := .any

namespace Expr
open Regime

theorem creates_unary {n : Note} {op : UnaryOp} {a : Expr} (h : (unary n op a).effects.creates = false) :
    (op.effects {}).creates = false ∧ a.effects.creates = false := by
  cases op <;> first | exact ⟨rfl, h⟩ | cases h

theorem creates_nary {n : Note} {op : NaryOp} {args : List Expr}
    (h : (nary n op args).effects.creates = false) : ∀ a ∈ args, a.effects.creates = false := by
  intro a ha
  rw [effects_nary] at h
  have hw := within_nary op (List.mem_map_of_mem (f := effects) ha)
  cases hc : a.effects.creates with
  | false => rfl
  | true => exact absurd (hw.creates hc) (by simp [h])

variable {le : Forest → Forest → Prop} {h : Forest.Moves le}

/-- Where nothing is claimed everything follows. -/
theorem follows_nothing (e : Expr) : Claims.nothing.Follows e := by
  cases e with
  | leaf n op => exact .any _
  | unary n op a => exact .any _
  | binary n op a b =>
    refine ⟨.any _, ?_⟩
    cases op with
    | «for» slot => exact .inl (.any _)
    | quantified q slot => exact .inl (.any _)
    | «let» slot => exact .inl (.any _)
    | filter positional => exact nofun
    | _ => trivial
  | ternary n op a b d => exact .any _
  | nary n op args => exact ⟨.any _, fun _ _ _ _ _ _ => le_top⟩

theorem keeping_supports {e : Expr} (he : e.effects.creates → Forest.Makes le) :
    (keeping h).Supports .nothing e where
  defers := keeping_defers
  distinct _ _ _ := .inr rfl
  makes n op a heq hmakes := by
    subst heq
    refine keeping_keepsNodes (he ?_)
    cases hc : (unary n op a).effects.creates with
    | true => rfl
    | false => exact absurd hmakes (by simp [(creates_unary hc).1])
  indexes _ a _ _ _ := keeping_keepsIndexes a

/-- Where nothing is made, nothing is made in any part. -/
theorem all_not_creates (e : Expr) (he : e.effects.creates = false) :
    e.All fun x => x.effects.creates = false := by
  match e with
  | leaf n op => exact all_leaf.2 he
  | unary n op a => exact all_unary.2 ⟨he, all_not_creates a (creates_unary he).2⟩
  | binary n op a b =>
    have hab : a.effects.creates = false ∧ b.effects.creates = false := by
      rw [effects_binary] at he
      cases op <;> exact Bool.or_eq_false_iff.1 he
    exact all_binary.2 ⟨he, all_not_creates a hab.1, all_not_creates b hab.2⟩
  | ternary n op a b d =>
    obtain ⟨hab, hd⟩ := Bool.or_eq_false_iff.1 he
    obtain ⟨ha, hb⟩ := Bool.or_eq_false_iff.1 hab
    exact all_ternary.2 ⟨he, all_not_creates a ha, all_not_creates b hb, all_not_creates d hd⟩
  | nary n op args =>
    exact all_nary.2 ⟨he, fun a ha => all_not_creates a (creates_nary he a ha)⟩

theorem soundValue_of_keeps {v : Value} (hv : v.Keeps le) (t : Forest) :
    SoundValue (R := keeping h) t v .any := by
  cases v with
  | items xs => exact fitsType_nothing xs
  | deferred d skip =>
    have hsrc : Yields (R := keeping h) ((keeping h).ofType .item) 0 ⊤ t d.items :=
      (yields_of_keeps hv t).imp (fun _ _ _ _ => nofun) le_rfl le_rfl
    have hd : SoundDeferred (R := keeping h) t d .any :=
      .of_cells hsrc (fun _ hw => hw) (fun _ _ _ => fitsType_nothing _) fun _ hw _ => hw
    exact ⟨.any, hd, fun _ => id, le_rfl, .inr rfl⟩

/-- An evaluation takes the trees only as far as the nodes do that it makes and the values that were put off
before. -/
theorem keeps_of_makes (h : Forest.Moves le) (c : DynamicContext) {e : Expr} {f : Frame}
    (he : e.All fun x => x.effects.creates → Forest.Makes le)
    (hf : ∀ s v, f.slots s = some v → v.Keeps le) : (e.meaning c).Keeps le f := by
  have hjustified : e.Justified (keeping h) .nothing := fun x hx =>
    ⟨follows_nothing x, fun _ _ _ _ _ _ => rfl, keeping_supports (he x hx)⟩
  have hsound (t : Forest) := sound c e hjustified t f
    (fun s v hv => soundValue_of_keeps (hf s v hv) t) fun _ xs _ => fitsType_nothing xs
  exact ⟨Runs.keeps fun t => (hsound t).1.item,
    fun w => ((hsound w.forest).1.items w.forest w (h.refl _) rfl).keeps,
    Runs.keeps fun t => (hsound t).1.push, Runs.keeps fun t => (hsound t).2 fun _ => rfl⟩

/-- An evaluation that makes no nodes leaves the trees to the values that were put off before. -/
theorem keeps_of_pure (h : Forest.Moves le) (c : DynamicContext) {e : Expr} {f : Frame}
    (he : e.effects.creates = false) (hf : ∀ s v, f.slots s = some v → v.Keeps le) : (e.meaning c).Keeps le f :=
  keeps_of_makes h c (fun x hx hmakes => absurd hmakes (by simp [all_not_creates e he x hx])) hf

/-- Only the variables that are free need not make nodes. -/
theorem keeps_of_free (h : Forest.Moves le) (c : DynamicContext) {e : Expr} {f : Frame}
    (hd : e.Determined c) (hs : e.IsScoped) (he : e.effects.creates = false)
    (hf : ∀ s ∈ e.freeSlots, ∀ v, f.slots s = some v → v.Keeps le) : (e.meaning c).Keeps le f := by
  let g : Frame := { f with slots := fun s => if s ∈ e.freeSlots then f.slots s else none }
  have hfree : ∀ s v, g.slots s = some v → v.Keeps le := by
    intro s v hv
    simp only [g] at hv
    split at hv
    · next hmem => exact hf s hmem v hv
    · cases hv
  have hagree : Frame.Agree (fun s => e.needs s) e.effects.reads g f :=
    ⟨fun s hneeds => if_pos (hs.mem_freeSlots hneeds), fun _ => rfl, fun _ => rfl, fun _ => rfl⟩
  obtain ⟨hsame, hbound⟩ := hd g f hagree
  obtain ⟨hitem, hitems, hpush, hvalue⟩ := keeps_of_pure h c he hfree
  exact ⟨hsame.item ▸ hitem, hsame.items ▸ hitems, hsame.push ▸ hpush, hbound ▸ hvalue⟩

end Expr

namespace Typing
open XPath.Expr

/-- A checked expression, with whatever modes, evaluates in the same way in frames that agree on its free
variables and on the parts of the focus that its note names. If its note says that it makes no nodes, its
evaluation takes the trees only as far as the values do that were put off before; where those leave the
trees alone, it adds none. -/
theorem check_noninterference {context : StaticContext} {unit unit' : CompileUnit} {source e : Expr}
    (hcheck : (check source).run context unit = (.ok e, unit')) (hformed : source.All IsFormed)
    (hscoped : source.IsScoped) (modes : CompileUnit) (c : DynamicContext) :
    (∀ f g, Frame.Agree (· ∈ e.freeSlots) e.info.dependencies f g →
      ((Modes.assign modes e).meaning c).Same f g ∧
      ((Modes.assign modes e).meaning c).bound f = ((Modes.assign modes e).meaning c).bound g) ∧
    (e.info.createsNodes = false → ∀ le, Forest.Moves le → ∀ f,
      (∀ s ∈ e.freeSlots, ∀ v, f.slots s = some v → v.Keeps le) →
      ((Modes.assign modes e).meaning c).Keeps le f) := by
  have hrec := check_recorded source hcheck
  have hres := check_resembles source hcheck
  have hmodes := Modes.assign_resembles modes e
  have hscoped' : e.IsScoped := hres.isScoped hscoped
  have hdet : (Modes.assign modes e).Determined c :=
    determined c _ (Modes.assign_recorded modes e hrec) (hmodes.formed (hres.formed hformed))
  have heff : e.info.effects = (Modes.assign modes e).effects := hrec.self.trans hmodes.effects.symm
  refine ⟨fun f g hagree => hdet f g ?_, fun hno le h f hf => ?_⟩
  · refine ⟨fun s hs => hagree.slots s (hscoped'.mem_freeSlots (hmodes.needs s ▸ hs)), ?_, ?_, ?_⟩
    all_goals rw [← heff]
    · exact hagree.item
    · exact hagree.position
    · exact hagree.last
  · have hfree {s : Slot} (hs : s ∈ (Modes.assign modes e).freeSlots) : s ∈ e.freeSlots :=
      hscoped'.mem_freeSlots (hmodes.needs s ▸ needs_of_free hs)
    have hpure : (Modes.assign modes e).effects.creates = false := heff ▸ hno
    exact keeps_of_free h c hdet (hmodes.isScoped hscoped') hpure fun s hs => hf s (hfree hs)

/-- `$v[. = $w]`, of which `$v` is slot 0 and `$w` slot 1. -/
def itemsEqualTo : Expr :=
  .mkBinary (.filter false) (.mkLeaf (.variable (.range 0)) 0)
    (.mkBinary (.generalComparison .eq) (.mkLeaf .contextItem 0) (.mkLeaf (.variable (.range 1)) 0) 0) 0

/-- `1 to 3`, and `2` -/
def oneToThree : Expr := .mkBinary .range (.constantAt (.integer 1) 0) (.constantAt (.integer 3) 0) 0

def two : Expr := .constantAt (.integer 2) 0

/-- Neither has been evaluated. The items of the first are to be kept. -/
def twoVariables : Frame where
  slots s := match s with
    | 0 => some (.deferred ⟨0, true, (oneToThree.meaning {}).items {}⟩ 0)
    | 1 => some (.deferred ⟨1, false, (two.meaning {}).items {}⟩ 0)
    | _ => none

theorem twoVariables_keeps {le : Forest → Forest → Prop} (h : Forest.Moves le) {s : Slot} {v : Value}
    (hv : twoVariables.slots s = some v) : v.Keeps le := by
  have hnone (s : Slot) (v : Value) (hv : ({} : Frame).slots s = some v) : v.Keeps le := by cases hv
  unfold twoVariables at hv
  dsimp only at hv
  split at hv
  · cases hv
    exact (keeps_of_pure (e := oneToThree) h {} rfl hnone).items
  · cases hv
    exact (keeps_of_pure (e := two) h {} rfl hnone).items
  · cases hv

/-- The item that the filter is evaluated for does not matter, and it makes no nodes. -/
theorem check_items_equal : ∃ e unit', (check itemsEqualTo).run {} {} = (.ok e, unit') ∧
    ((Modes.assign {} e).meaning {}).Same twoVariables
      (twoVariables.withFocus (.atomic (.ofInt 7)) 1 none) ∧
    ((Modes.assign {} e).meaning {}).Keeps (· = ·) twoVariables := by
  have hformed : itemsEqualTo.All IsFormed := by simp [itemsEqualTo, mkBinary, mkLeaf, IsFormed]
  obtain ⟨hsame, hkeeps⟩ :=
    @check_noninterference {} {} _ itemsEqualTo _ rfl hformed (by rintro _ _ ⟨⟩) {} {}
  have hagree {slots : Slot → Prop} : Frame.Agree slots {} twoVariables
      (twoVariables.withFocus (.atomic (.ofInt 7)) 1 none) := ⟨fun _ _ => rfl, by rintro ⟨⟩, by rintro ⟨⟩, by rintro ⟨⟩⟩
  have hmoves : Forest.Moves (· = ·) := ⟨fun _ => rfl, Eq.trans⟩
  exact ⟨_, _, rfl, (hsame _ _ hagree).1, hkeeps rfl _ hmoves _ fun _ _ _ hv => twoVariables_keeps hmoves hv⟩

/-- Whether the note of a let's body says that it makes no nodes, and there are more trees when it has been evaluated
than there were when the variable was bound. -/
def bodyAddsTrees : Expr → Bool
  | .binary _ (.let slot) a b => match ((a.meaning {}).bound {}).perform { forest := {} } with
    | (.ok v, w) => !b.info.createsNodes &&
      w.forest.trees.length < (((b.meaning {}).toList (({} : Frame).bind slot v)).perform w).2.forest.trees.length
    | _ => false
  | _ => false

/-- What is hoisted out of a loop is put off, even if it makes nodes. Then a body that only refers to it has the note
that it makes none, and its evaluation makes two. -/
theorem check_noninterference_hoisted : ∃ p, (Program.compile
    "for $i in (1, 2) return count(for $k in (1, 2) return (element e \x7b\x7d, string-length('aa')))" {} {}).1 = .ok p ∧
    bodyAddsTrees p.expr := by
  have hadds : (Program.compile
      "for $i in (1, 2) return count(for $k in (1, 2) return (element e \x7b\x7d, string-length('aa')))" {} {}).1.toOption.any
      (bodyAddsTrees ·.expr) := by decide +kernel
  cases hcompile : (Program.compile
      "for $i in (1, 2) return count(for $k in (1, 2) return (element e \x7b\x7d, string-length('aa')))" {} {}).1 with
  | error e =>
    rw [hcompile] at hadds
    cases hadds
  | ok p =>
    rw [hcompile] at hadds
    exact ⟨p, rfl, hadds⟩

end Typing
end XPath
