import XPath.Proofs.Acceptance
import XPath.Proofs.Evaluation
import XPath.Proofs.Subtypes

/-!
What a requirement that is not met says of an operand: where the operand has a value at all, the operation
that asks for it fails. Nothing is said of an empty operand, with which the operation gives nothing instead;
the requirements look at the type of the items only, and reject it as well.
-/
namespace XPath

/-- These items and no failure are given, whatever becomes of the state in between. -/
inductive Pull.Delivers {σ ε α : Type} : List α → Pull σ ε α → Prop where
  | done (s : σ) : Delivers [] (.done s)
  | item (x : α) {xs : List α} (s : σ) {rest : σ → Pull σ ε α} :
    (∀ s, Delivers xs (rest s)) → Delivers (x :: xs) (.item (.ok x) s rest)

/-- An evaluation that succeeds gives such a result. -/
def Eval.Only {α : Type} (a : Eval α) (p : α → Prop) : Prop := ∀ w x w', a.perform w = (.ok x, w') → p x

namespace Ways

/-- The value of an expression in a frame. -/
structure Delivers (a : Ways) (f : Frame) (xs : List Item) : Prop where
  item : (a.item f).Only fun o => o.toList = xs
  items : ∀ w, (a.items f w).Delivers xs

/-- Every way of evaluating fails. -/
structure Fails (a : Ways) (f : Frame) : Prop where
  item : (a.item f).Only fun _ => False
  items : (a.toList f).Only fun _ => False
  push : (a.push f).Only fun _ => False

end Ways

namespace Regime

/-- Nothing is said of worlds. -/
def free : Regime where
  Stage := Unit
  le _ _ := True
  refl _ := trivial
  trans _ _ := trivial
  good _ _ := True
  reordered _ _ := trivial

theorem runs_free {α : Type} {a : Eval α} {p : α → Prop} : Runs (R := free) () a (fun _ => p) ↔ a.Only p := by
  constructor
  · intro h w x w' hx
    obtain ⟨_, _, _, hp⟩ := h () w trivial trivial
    exact hp x (by rw [hx])
  · intro h _ w _ _
    exact ⟨(), trivial, trivial, fun x hx => h w x (a.perform w).2 (Prod.ext hx rfl)⟩

/-- Items that there cannot be. -/
abbrev never (α : Type) : free.Known α := .always free fun _ => False

theorem gives_of_delivers {p : Pull World Failure Item} {xs : List Item} (h : p.Delivers xs)
    {q : Item → Prop} (hq : ∀ x ∈ xs, q x) : Gives (.always free q) xs.length xs.length () p := by
  induction h with
  | done w => exact .done (l := ()) trivial trivial
  | @item x xs w _ _ ih =>
    have hmost : (xs.length : ℕ∞) + 1 ≤ (x :: xs).length := by simp
    refine .ok (l := ()) trivial trivial (hq x List.mem_cons_self) le_rfl hmost fun m w' _ _ => ?_
    exact ih w' fun y hy => hq y (List.mem_cons_of_mem x hy)

theorem not_fits_never {α : Type} {most : ℕ∞} {k : free.Stage} {xs : List α} {n : ℕ} (hn : 1 ≤ n)
    (h : Fits (never α) n most k xs) : False := by
  cases xs with
  | nil => exact absurd (hn.trans h.least) (by simp)
  | cons x xs => exact h.each x List.mem_cons_self

/-- An operator that gives items one by one fails if the first one cannot be given. -/
theorem fails_ofItems (n : Note) {x : Frame → Items} {f : Frame} {least : ℕ} {most : ℕ∞}
    (hleast : 1 ≤ least) (h : Yields (never Item) least most () (x f)) : (Ways.ofItems n x).Fails f where
  item := runs_free.1 (((h.mapError (Failure.orAt n.location)).only? _).imp
    fun _ _ _ hfit => not_fits_never hleast hfit)
  items := runs_free.1 (((h.mapError (Failure.orAt n.location)).toList).imp
    fun _ _ _ hfit => not_fits_never hleast hfit)
  push := runs_free.1 ((h.toList.orAt n.location).imp fun _ _ _ hfit => not_fits_never hleast hfit)

theorem yields_of_fails {a : Eval Items} (h : a.Only fun _ => False) :
    Yields (never Item) 1 ⊤ () (.after a) :=
  yields_after ((runs_free.2 h).imp fun _ _ _ hfalse => hfalse.elim)

theorem fails_ofItem (n : Note) {x : Frame → Eval (Option Item)} {f : Frame}
    (h : (x f).Only fun _ => False) : (Ways.ofItem n x).Fails f := by
  have hitem := (runs_free.2 h).orAt n.location
  have hitems : Runs (R := free) () ((Ways.ofItem n x).toList f) fun _ _ => False := by
    have hyields : Yields (never Item) 1 ⊤ () ((Ways.ofItem n x).items f) :=
      yields_after (hitem.bind fun _ _ _ hfalse => hfalse.elim)
    exact hyields.toList.imp fun _ _ _ hfit => not_fits_never le_rfl hfit
  exact ⟨runs_free.1 hitem, runs_free.1 hitems, runs_free.1 hitems⟩

end Regime
/-! Evaluations that succeed only with some results. -/

namespace Eval.Only
open Regime
variable {α β : Type} {a : Eval α} {p : α → Prop} {q : β → Prop}

theorem imp {p' : α → Prop} (h : a.Only p) (hp : ∀ x, p x → p' x) : a.Only p' :=
  fun w x w' hx => hp x (h w x w' hx)

theorem bind {f : α → Eval β} (ha : a.Only p) (hf : ∀ x, p x → (f x).Only q) : Eval.Only (a >>= f) q :=
  runs_free.1 ((runs_free.2 ha).bind fun _ x _ hx => runs_free.2 (hf x hx))

/-- What comes after a failure does not matter. -/
theorem never_bind (ha : a.Only fun _ => False) (f : α → Eval β) : Eval.Only (a >>= f) q :=
  ha.bind fun _ hfalse => hfalse.elim

theorem any (a : Eval α) : a.Only fun _ => True := fun _ _ _ _ => trivial

theorem pure {x : α} (h : p x) : Eval.Only (Pure.pure x) p := runs_free.1 (runs_pure fun _ _ => h)

theorem fail (code : ErrorCode) : Eval.Only (Eval.fail code) p := runs_free.1 (runs_fail code)

theorem ofExcept {r : Except ErrorCode α} (h : ∀ x, r = .ok x → p x) : (Eval.ofExcept r).Only p :=
  runs_free.1 (runs_ofExcept fun _ x _ hx => h x hx)

end Eval.Only

namespace Atomic

/-- A text or a truth: it is no number, and it is not untyped. -/
def IsWord : Atomic → Prop
  | string _ | boolean _ => True
  | _ => False

variable {a b v : Atomic}

theorem IsWord.untypedToDouble (h : a.IsWord) : a.untypedToDouble = .ok a := by
  cases a <;> first | rfl | exact h.elim

theorem promote_of_isWord (h : a.IsWord ∨ b.IsWord) : promote a b = .ok (a, b) := by
  obtain ha | hb := h
  · cases a <;> first | exact ha.elim | cases b <;> rfl
  · cases b <;> first | exact hb.elim | cases a <;> rfl

/-- There is no arithmetic on words. -/
theorem arithmetic_of_isWord (op : ArithmeticOp) (h : a.IsWord ∨ b.IsWord) : arithmetic op a b ≠ .ok v := by
  intro hok
  obtain ⟨a', ha', hok⟩ := bind_ok hok
  obtain ⟨b', hb', hok⟩ := bind_ok hok
  have h' : a'.IsWord ∨ b'.IsWord := by
    refine h.imp (fun ha => ?_) fun hb => ?_
    · rw [ha.untypedToDouble] at ha'
      exact Except.ok.inj ha' ▸ ha
    · rw [hb.untypedToDouble] at hb'
      exact Except.ok.inj hb' ▸ hb
  rw [promote_of_isWord h'] at hok
  obtain ⟨c, hc, hok⟩ := bind_ok hok
  obtain rfl := Except.ok.inj hc
  split at hok
  case h_5 => cases hok
  all_goals
    next heq =>
      cases heq
      exact h'.elim id id

theorem IsWord.negate (h : a.IsWord) : a.negate ≠ .ok v := by
  rw [Atomic.negate, h.untypedToDouble]
  cases a <;> first | exact h.elim | exact nofun

theorem IsWord.plus (h : a.IsWord) : a.plus ≠ .ok v := by
  rw [Atomic.plus, h.untypedToDouble]
  cases a <;> first | exact h.elim | exact nofun

end Atomic
/-! What the items of a type that is rejected are. -/

namespace AtomicType

/-- The types of which it is known that a value is neither a number nor untyped. -/
theorem word_all : ∀ a ∈ all, ∀ b ∈ a.ancestors, b.isAtomic →
    (ItemType.atomic b).mayAtomizeToNumeric = false ∨ (ItemType.atomic b).mayAtomizeTo .integer = false →
    a = string ∨ a = boolean ∨ a = notationType := by
  decide +kernel

end AtomicType

namespace Atomic
variable {v u : Atomic} {target : AtomicType}

theorem isWord_of_type (hv : v.IsProper) (h : v.type = .string ∨ v.type = .boolean ∨ v.type = .notationType) :
    v.IsWord := by
  cases v with
  | string s => trivial
  | boolean b => trivial
  | integer t i =>
    obtain rfl | rfl | rfl : t = .string ∨ t = .boolean ∨ t = .notationType := h
    all_goals cases hv
  | _ => simp [type] at h

/-- No value is cast to a type that the casting table does not have. -/
theorem cast_of_unsupported (hv : v.IsProper) (h : ItemType.item.mayCastTo target = false) :
    v.cast target ≠ .ok u := by
  have hne : v.type ≠ target := by
    rintro rfl
    cases v with
    | integer t i =>
      have hdecimal : t.derivesFrom .decimal := AtomicType.derivesFrom_trans hv rfl
      simp [ItemType.mayCastTo, type, hdecimal] at h
    | _ => cases h
  intro hok
  unfold cast at hok
  rw [if_neg hne] at hok
  cases target <;> first | exact absurd h (by decide) | cases hok

end Atomic

namespace ItemType
variable {t : ItemType} {g : Forest} {x : Item} {v : Atomic} {target : AtomicType}

/-- An atomic type is one that a query can name. -/
def IsNameable (t : ItemType) : Prop := ∀ a, t = .atomic a → a.isAtomic

/-- An item of a type other than the most general one and those of nodes is an atomic value. -/
theorem atomic_of_holds (hitem : t ≠ .item) (hnode : t.isNode = false) (h : t.holds g x) :
    ∃ v a, x = .atomic v ∧ t = .atomic a ∧ v.type.derivesFrom a := by
  cases t with
  | item => exact absurd rfl hitem
  | node k => cases hnode
  | atomic a =>
    cases x with
    | atomic v => exact ⟨v, a, rfl, rfl, h⟩
    | node i => cases h
  | foreign n => cases x <;> cases h
  | imported n => cases x <;> cases h

/-- An item that cannot be computed with is a word. -/
theorem isWord_of_rejected (ht : t.IsNameable) (hx : ∀ v, x = .atomic v → v.IsProper)
    (hrejected : t.mayAtomizeToNumeric = false ∨ t.mayAtomizeTo .integer = false) (h : t.holds g x) :
    ∃ v, x = .atomic v ∧ v.IsWord := by
  have hitem : t ≠ .item := by
    rintro rfl
    exact hrejected.elim nofun nofun
  have hnode : t.isNode = false := by
    cases t with
    | node k => exact hrejected.elim nofun nofun
    | _ => rfl
  obtain ⟨v, a, rfl, rfl, hv⟩ := atomic_of_holds hitem hnode h
  refine ⟨v, rfl, Atomic.isWord_of_type (hx v rfl) ?_⟩
  exact AtomicType.word_all _ (AtomicType.mem_all _) a (List.contains_iff_mem.1 hv) (ht a rfl) hrejected

/-- An item that cannot be a node is an atomic value. -/
theorem atomic_of_not_overlaps (hrejected : t.overlaps .anyNode = false) (h : t.holds g x) :
    ∃ v, x = .atomic v := by
  have hitem : t ≠ .item := by
    rintro rfl
    cases hrejected
  have hnode : t.isNode = false := by
    cases t with
    | node k => cases k <;> cases hrejected
    | _ => rfl
  obtain ⟨v, _, rfl, -⟩ := atomic_of_holds hitem hnode h
  exact ⟨v, rfl⟩

/-- What cannot be cast has no value, or the casting table does not have the target. -/
theorem unsupported_of_rejected (hrejected : t.mayCastTo target = false) (h : t.holds g x) :
    item.mayCastTo target = false := by
  cases t with
  | foreign n => cases x <;> cases h
  | atomic a => exact (Bool.or_eq_false_iff.1 hrejected).2
  | _ => exact hrejected

end ItemType

/-! The operations, given an operand of such items. -/

namespace Ways
variable {a b : Ways} {f : Frame} {xs : List Item} {p q : Atomic → Prop}

theorem Delivers.value? (h : a.Delivers f xs) (hne : xs ≠ []) (hp : ∀ g, ∀ x ∈ xs, p (x.value g)) :
    (a.value? f).Only fun o => ∃ v, o = some v ∧ p v := by
  refine h.item.bind fun o ho => ?_
  cases o with
  | none => exact absurd ho.symm hne
  | some x =>
    have hx : x ∈ xs := ho ▸ List.mem_singleton_self x
    have hvalue : (Eval.value x).Only p := (Eval.Only.any _).bind fun g _ => .pure (hp g x hx)
    exact hvalue.bind fun v hv => .pure ⟨v, rfl, hv⟩

theorem value?_of_item (h : (b.item f).Only (· ≠ none)) :
    (b.value? f).Only fun o => ∃ v, o = some v ∧ True := by
  refine h.bind fun o ho => ?_
  cases o with
  | none => exact absurd rfl ho
  | some x => exact (Eval.Only.any (Eval.value x)).bind fun v _ => .pure ⟨v, rfl, trivial⟩

/-- The only item, where it is an atomic value. -/
theorem Delivers.item_atomic (h : a.Delivers f xs) (hne : xs ≠ []) (hx : ∀ x ∈ xs, ∃ v, x = .atomic v) :
    (a.item f).Only fun o => ∃ v, o = some (.atomic v) := by
  refine h.item.imp fun o ho => ?_
  cases o with
  | none => exact absurd ho.symm hne
  | some x =>
    obtain ⟨v, rfl⟩ := hx x (ho ▸ List.mem_singleton_self x)
    exact ⟨v, rfl⟩

open Regime in
theorem Delivers.yields (h : a.Delivers f xs) {q : Item → Prop} (hq : ∀ x ∈ xs, q x) :
    Yields (.always free q) xs.length xs.length () (a.items f) :=
  fun _ w _ _ => gives_of_delivers (h.items w) hq

open Regime in
/-- Atomic values are not sorted as nodes. -/
theorem Delivers.nodes (h : a.Delivers f xs) (hne : xs ≠ []) (hx : ∀ x ∈ xs, ∃ v, x = .atomic v) :
    (a.nodes f).Only fun _ => False := by
  have hnodes : Yields (never NodeId) xs.length xs.length ()
      ((a.items f).mapM fun x => Eval.require .typeMismatch x.node?) := by
    refine (h.yields hx).mapM fun _ x _ hatomic => ?_
    obtain ⟨v, rfl⟩ := hatomic
    exact runs_require nofun
  have hnever : Eval.Only (((a.items f).mapM fun x => Eval.require .typeMismatch x.node?).toList)
      fun _ => False :=
    runs_free.1 (hnodes.toList.imp fun _ _ _ hfit => not_fits_never (List.length_pos_of_ne_nil hne) hfit)
  exact hnever.never_bind _

open Regime in
theorem Delivers.counted (h : a.Delivers f xs) (b : Ways) {q : Item → Prop} (hq : ∀ x ∈ xs, q x) :
    Runs (R := free) () (a.counted b f) fun _ r => Yields (.always free q) xs.length xs.length () r.1 := by
  unfold Ways.counted
  split
  · exact (h.yields hq).toList.bind fun _ _ _ hfit => runs_pure fun _ _ => yields_ofList hfit
  · exact runs_pure fun _ _ => h.yields hq

open Regime in
/-- There is no path from an atomic value. -/
theorem Delivers.path (h : a.Delivers f xs) (b : Ways) (hx : ∀ x ∈ xs, ∃ v, x = .atomic v) :
    Yields (never Item) (xs.length * 1) (xs.length * 1) () (a.path b f) := by
  refine yields_after ((h.counted b hx).bind fun _ r _ hr => runs_pure fun _ _ => hr.bind ?_)
  intro _ n x _ hatomic
  obtain ⟨v, rfl⟩ := hatomic
  exact yields_fail _

end Ways

section Operators
open Regime
variable {a b : Ways} {f : Frame} {p q : Atomic → Prop}

theorem UnaryOp.fails_lift {g : Atomic → Except ErrorCode Atomic}
    (ha : (a.value? f).Only fun o => ∃ v, o = some v ∧ p v) (hg : ∀ v u, p v → g v ≠ .ok u) :
    (lift g a f).Only fun _ => False := by
  refine ha.bind fun o ho => ?_
  obtain ⟨v, rfl, hv⟩ := ho
  have hfails : (Eval.ofExcept (g v)).Only fun _ => False := .ofExcept fun u hu => hg v u hv hu
  exact (hfails.never_bind _).never_bind _

theorem UnaryOp.fails_cast (n : Note) {target : AtomicType} (allowsEmpty : Bool)
    (ha : (a.value? f).Only fun o => ∃ v, o = some v ∧ p v) (hcast : ∀ v u, p v → v.cast target ≠ .ok u) :
    ((cast target allowsEmpty).ways n a).Fails f := by
  refine fails_ofItem n (ha.bind fun o ho => ?_)
  obtain ⟨v, rfl, hv⟩ := ho
  have hfails : (Eval.ofExcept (v.cast target)).Only fun _ => False := .ofExcept fun u hu => hcast v u hv hu
  exact hfails.never_bind _

namespace BinaryOp

theorem fails_lift {g : Atomic → Atomic → Except ErrorCode Atomic}
    (ha : (a.value? f).Only fun o => ∃ v, o = some v ∧ p v)
    (hb : (b.value? f).Only fun o => ∃ v, o = some v ∧ q v) (hg : ∀ v w u, p v → q w → g v w ≠ .ok u) :
    (lift g a b f).Only fun _ => False := by
  refine ha.bind fun o ho => hb.bind fun o' ho' => ?_
  obtain ⟨v, rfl, hv⟩ := ho
  obtain ⟨w, rfl, hw⟩ := ho'
  have hfails : (Eval.ofExcept (g v w)).Only fun _ => False := .ofExcept fun u hu => hg v w u hv hw hu
  exact hfails.never_bind _

theorem fails_rangeEnd (ha : (a.value? f).Only fun o => ∃ v, o = some v ∧ v.IsWord) :
    (rangeEnd a f).Only fun _ => False := by
  refine ha.bind fun o ho => ?_
  obtain ⟨v, rfl, hv⟩ := ho
  cases v with
  | string s => exact .fail _
  | boolean c => exact .fail _
  | _ => exact hv.elim

/-- A range evaluates both its ends. -/
theorem fails_range (n : Note) (x y : Meaning)
    (h : (rangeEnd x.toWays f).Only (fun _ => False) ∨ (rangeEnd y.toWays f).Only fun _ => False) :
    (range.ways n x y).Fails f := by
  refine fails_ofItems n le_rfl (yields_of_fails ?_)
  obtain hx | hy := h
  · exact hx.never_bind _
  · exact (Eval.Only.any _).bind fun _ _ => hy.never_bind _

/-- So does a set operation. -/
theorem fails_set (n : Note) (op : SetOp) (x y : Meaning)
    (h : (x.toWays.nodes f).Only (fun _ => False) ∨ (y.toWays.nodes f).Only fun _ => False) :
    ((set op).ways n x y).Fails f := by
  refine fails_ofItems n le_rfl (yields_of_fails ?_)
  have hcombine : (combine op x.toWays y.toWays f).Only fun _ => False := by
    obtain hx | hy := h
    · exact hx.never_bind _
    · exact (Eval.Only.any _).bind fun _ _ => hy.never_bind _
  exact hcombine.never_bind _

/-- Nodes are compared with nodes only. -/
theorem fails_compareNodes (n : Note) (op : NodeComparisonOp) (x y : Meaning)
    (hx : (x.item f).Only (· ≠ none)) (hy : (y.item f).Only (· ≠ none))
    (h : (x.item f).Only (fun o => ∃ v, o = some (.atomic v)) ∨
      (y.item f).Only fun o => ∃ v, o = some (.atomic v)) : ((nodeComparison op).ways n x y).Fails f := by
  refine fails_ofItem n ?_
  obtain h | h := h
  · refine h.bind fun o ho => hy.bind fun o' ho' => ?_
    obtain ⟨v, rfl⟩ := ho
    obtain ⟨z, rfl⟩ := Option.ne_none_iff_exists'.1 ho'
    exact .fail _
  · refine hx.bind fun o ho => h.bind fun o' ho' => ?_
    obtain ⟨z, rfl⟩ := Option.ne_none_iff_exists'.1 ho
    obtain ⟨v, rfl⟩ := ho'
    cases z <;> exact .fail _

end BinaryOp
end Operators
namespace Typing
open XPath.Expr
variable {context : StaticContext} {unit : CompileUnit} {e : Expr} {p : Pass Unit} {g : Forest}
  {xs : List Item} {a : Meaning} {f : Frame}

/-- A requirement is not met. -/
def Rejects (p : Pass Unit) (context : StaticContext) (unit : CompileUnit) : Prop :=
  (p.run context unit).1.isOk = false

theorem Rejects.false_of_run (h : Rejects p context unit) (hrun : p.run context unit = (.ok (), unit)) :
    False := by
  rw [Rejects, hrun] at h
  cases h

theorem Rejects.numeric (h : Rejects (requireNumeric e) context unit) :
    e.itemType.mayAtomizeToNumeric = false := by
  refine Bool.eq_false_iff.2 fun hnumeric => h.false_of_run (run_requireNumeric ?_)
  exact Bool.or_eq_true_iff.2 (.inr hnumeric)

theorem Rejects.atomizable {t : AtomicType} (h : Rejects (requireAtomizable e t) context unit) :
    e.itemType.mayAtomizeTo t = false :=
  Bool.eq_false_iff.2 fun ht => h.false_of_run (run_requireAtomizable ht)

theorem Rejects.castable {t : AtomicType} (h : Rejects (requireCastable e t) context unit) :
    e.itemType.mayCastTo t = false :=
  Bool.eq_false_iff.2 fun ht => h.false_of_run (run_requireCastable ht)

theorem Rejects.node {code : ErrorCode} (h : Rejects (requireNode e code) context unit) :
    e.itemType.overlaps .anyNode = false := by
  refine Bool.eq_false_iff.2 fun hnode => h.false_of_run (run_requireNode ?_ code)
  exact Bool.or_eq_true_iff.2 (.inr hnode)

/-- An item of a value, as an atomic value. -/
theorem proper_value {x : Item} (hproper : ∀ v, .atomic v ∈ xs → v.IsProper) (hx : x ∈ xs) (g : Forest) :
    (x.value g).IsProper := by
  cases x with
  | atomic v => exact hproper v hx
  | node i =>
    unfold Item.value
    dsimp only
    split <;> trivial

/-- If the type of an operand is rejected, then the operation fails for every value of the type that is not
empty. Arithmetic and node comparison fail with it as soon as the other operand has a value as well. -/
theorem rejected_value_fails (htype : e.itemType.IsNameable) (hxs : e.type.holds g xs)
    (hproper : ∀ v, .atomic v ∈ xs → v.IsProper) (hne : xs ≠ []) (ha : a.Delivers f xs) (n : Note)
    (b : Meaning) :
    (Rejects (requireNumeric e) context unit →
      (UnaryOp.negate.ways n a.toWays).Fails f ∧ (UnaryOp.plus.ways n a.toWays).Fails f ∧
      ((b.item f).Only (· ≠ none) → ∀ op,
        ((BinaryOp.arithmetic op).ways n a b).Fails f ∧ ((BinaryOp.arithmetic op).ways n b a).Fails f)) ∧
    (Rejects (requireAtomizable e .integer) context unit →
      (BinaryOp.range.ways n a b).Fails f ∧ (BinaryOp.range.ways n b a).Fails f) ∧
    (∀ target allowsEmpty, Rejects (requireCastable e target) context unit →
      ((UnaryOp.cast target allowsEmpty).ways n a.toWays).Fails f) ∧
    ∀ code, Rejects (requireNode e code) context unit →
      (∀ op, ((BinaryOp.set op).ways n a b).Fails f ∧ ((BinaryOp.set op).ways n b a).Fails f) ∧
      ((b.item f).Only (· ≠ none) → ∀ op,
        ((BinaryOp.nodeComparison op).ways n a b).Fails f ∧ ((BinaryOp.nodeComparison op).ways n b a).Fails f) ∧
      (BinaryOp.path.ways n a b).Fails f := by
  have hholds : ∀ x ∈ xs, e.itemType.holds g x := List.all_eq_true.1 (Bool.and_eq_true_iff.1 hxs).2
  have hword (hrejected : e.itemType.mayAtomizeToNumeric = false ∨ e.itemType.mayAtomizeTo .integer = false) :
      (a.value? f).Only fun o => ∃ v, o = some v ∧ v.IsWord := by
    refine ha.value? hne fun g' x hx => ?_
    obtain ⟨v, rfl, hv⟩ := ItemType.isWord_of_rejected htype
      (fun v hv => hproper v (hv ▸ hx)) hrejected (hholds x hx)
    exact hv
  refine ⟨fun h => ?_, fun h => ?_, fun target allowsEmpty h => ?_, fun code h => ?_⟩
  · have hvalue := hword (.inl h.numeric)
    refine ⟨Regime.fails_ofItem n (UnaryOp.fails_lift hvalue fun v u hv => hv.negate),
      Regime.fails_ofItem n (UnaryOp.fails_lift hvalue fun v u hv => hv.plus), fun hb op => ⟨?_, ?_⟩⟩
    · exact Regime.fails_ofItem n (BinaryOp.fails_lift hvalue (Ways.value?_of_item hb)
        fun v w u hv _ => Atomic.arithmetic_of_isWord op (.inl hv))
    · exact Regime.fails_ofItem n (BinaryOp.fails_lift (Ways.value?_of_item hb) hvalue
        fun v w u _ hw => Atomic.arithmetic_of_isWord op (.inr hw))
  · have hend := BinaryOp.fails_rangeEnd (hword (.inr h.atomizable))
    exact ⟨BinaryOp.fails_range n a b (.inl hend), BinaryOp.fails_range n b a (.inr hend)⟩
  · obtain ⟨x, hx⟩ := List.exists_mem_of_ne_nil xs hne
    have hunsupported := ItemType.unsupported_of_rejected h.castable (hholds x hx)
    have hvalue := ha.value? hne fun g x hx => proper_value hproper hx g
    exact UnaryOp.fails_cast n allowsEmpty hvalue fun v u hv => Atomic.cast_of_unsupported hv hunsupported
  · have hatomic : ∀ x ∈ xs, ∃ v, x = .atomic v := fun x hx =>
      ItemType.atomic_of_not_overlaps h.node (hholds x hx)
    have hnodes := ha.nodes hne hatomic
    have hitem := ha.item_atomic hne hatomic
    have hsome : (a.item f).Only (· ≠ none) := hitem.imp fun o ho => by
      obtain ⟨v, rfl⟩ := ho
      exact Option.some_ne_none _
    refine ⟨fun op => ⟨BinaryOp.fails_set n op a b (.inl hnodes), BinaryOp.fails_set n op b a (.inr hnodes)⟩,
      fun hb op => ⟨BinaryOp.fails_compareNodes n op a b hsome hb (.inl hitem),
        BinaryOp.fails_compareNodes n op b a hb hsome (.inr hitem)⟩, ?_⟩
    have hlength : 1 ≤ xs.length * 1 := by
      rw [Nat.mul_one]
      exact List.length_pos_of_ne_nil hne
    exact Regime.fails_ofItems n hlength (ha.path b.toWays hatomic)

end Typing

/-! Operands that have a value. -/

namespace Pull.Delivers
variable {xs : List Item} {p : Pull World Failure Item}

theorem ofList (xs : List Item) (w : World) : (Source.ofList xs w : Pull World Failure Item).Delivers xs := by
  induction xs generalizing w with
  | nil => exact .done w
  | cons x xs ih => exact .item x w ih

theorem mapError (h : p.Delivers xs) (g : Failure → Failure) : (p.mapError g).Delivers xs := by
  induction h with
  | done w => exact .done w
  | item x w _ ih => exact .item x w ih

/-- Of several items none is the only one. -/
theorem only? (h : p.Delivers xs) {many : Failure} {o : Option Item} {w : World}
    (hok : p.only? many = (.ok o, w)) : o.toList = xs := by
  cases h with
  | done w => cases hok; rfl
  | @item x ys w rest hrest =>
    have hnext := hrest w
    unfold Pull.only? at hok
    dsimp only at hok
    generalize rest w = p at hnext hok
    cases hnext with
    | done w => cases hok; rfl
    | item y w _ => cases hok

end Pull.Delivers

/-- A variable has the items that it is bound to. -/
theorem LeafOp.delivers_variable (c : DynamicContext) (n : Note) {f : Frame} {slot : Slot} {xs : List Item}
    (h : f.slots slot = some (.items xs)) : ((LeafOp.variable (.range slot)).ways c n).Delivers f xs := by
  have hsource (w : World) : Source.after (do return (← f.valueOf c (.range slot)).source) w =
      (Source.ofList xs w : Pull World Failure Item) := by
    unfold Frame.valueOf
    dsimp only
    rw [h]
    rfl
  have hitems (w : World) : (((LeafOp.variable (.range slot)).ways c n).items f w).Delivers xs := by
    have := (Pull.Delivers.ofList xs w).mapError (Failure.orAt n.location)
    rwa [← hsource w] at this
  exact ⟨fun w _ _ hok => (hitems w).only? hok, hitems⟩

namespace Typing

/-- A variable that is declared to have at most one text. -/
def textVariable : Expr := .leaf ⟨0, ⟨.zeroOrOne, .atomic .string, {}, false⟩, .evaluateVariable⟩ (.variable (.range 0))

/-- Its value in a frame. -/
def textFrame (xs : List Item) : Frame := ({} : Frame).bind 0 (.items xs)

/-- The sign of a text. -/
theorem rejected_value_fails_text :
    (Rejects (requireNumeric textVariable) {} {} ∧ textVariable.type.holds {} [.atomic (.string "a")]) ∧
    (UnaryOp.negate.ways ⟨0, {}, .alreadyValue⟩ (textVariable.meaning {}).toWays).Fails
      (textFrame [.atomic (.string "a")]) := by
  have hrejects : Rejects (requireNumeric textVariable) {} {} := rfl
  have hholds : textVariable.type.holds {} [.atomic (.string "a")] := by decide
  refine ⟨⟨hrejects, hholds⟩, ((rejected_value_fails ?_ hholds ?_ (List.cons_ne_nil _ _)
    (LeafOp.delivers_variable {} _ rfl) _ (textVariable.meaning {})).1 hrejects).1⟩
  · rintro a ⟨⟩
    decide
  · simp [Atomic.IsProper]

/-- The empty sequence is of the type that is rejected, and its sign is empty, as is the sum of a text and
the empty sequence. -/
theorem rejects_empty_value :
    Rejects (requireNumeric textVariable) {} {} ∧
    (textVariable.type.holds {} [] ∧ ∀ w, ((UnaryOp.negate.ways ⟨0, {}, .alreadyValue⟩
      (textVariable.meaning {}).toWays).toList (textFrame [])).perform w = (.ok [], w)) ∧
    textVariable.type.holds {} [.atomic (.string "a")] ∧
    ∀ w, (((BinaryOp.arithmetic .add).ways ⟨0, {}, .alreadyValue⟩ (textVariable.meaning {})
      ((Expr.leaf ⟨0, {}, .alreadyValue⟩ (.literal [])).meaning {})).toList
        (textFrame [.atomic (.string "a")])).perform w = (.ok [], w) :=
  ⟨rfl, ⟨by decide, fun _ => rfl⟩, by decide, fun _ => rfl⟩

end Typing
end XPath
