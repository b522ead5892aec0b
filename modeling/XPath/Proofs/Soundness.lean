import XPath.Proofs.Calls
import XPath.Proofs.Noninterference

/-!
What is claimed of an expression and of its variables holds of every evaluation, if the claim at every
node follows from the claims at its operands.
-/
namespace XPath

/-- What is claimed of expressions and of variables. What an expression reads is not at issue. -/
structure Claims where
  info : Expr → StaticInfo
  dependencies : ∀ e, (info e).dependencies = e.info.dependencies
  ranges : Slot → SequenceType
  globals : QName → SequenceType

namespace Claims

/-- What is claimed of the value of an expression. -/
def type (T : Claims) (e : Expr) : SequenceType := (T.info e).type

/-- The mode of a value asks for no more than what is claimed of it. -/
def AllowsMode (T : Claims) (e : Expr) : Prop :=
  e.mode = .returnEmpty → (T.type e).cardinality.least = 0

/-- The value of every let is obtained in a mode that asks for no more than what is claimed of it. -/
def Obtains (T : Claims) (e : Expr) : Prop := ∀ n slot a b, e = .binary n (.let slot) a b → T.AllowsMode a

/-- The variable of a loop has one item at a time, and that of a let has its value. A predicate that is a
number for every item of several could pick more than one. -/
def FollowsBinary (T : Claims) (op : BinaryOp) (a b : StaticInfo) : Prop :=
  match op with
  | .for slot | .quantified _ slot =>
    Regime.Narrower (.one a.item) (T.ranges slot) ∨ a.cardinality.most = 0
  | .let slot => Regime.Passes a.type (T.ranges slot)
  | .filter _ => b.dependencies.focus → b.item.isNumeric → a.cardinality.most ≤ 1
  | _ => True

/-- The second argument of a sum stands for it if there is nothing to add up. -/
def FollowsNary (op : NaryOp) (args : List StaticInfo) (t : SequenceType) : Prop :=
  ∀ a b rest, op = .call (.builtin .sum) → args = a :: b :: rest →
    a.cardinality.least = 0 → b.cardinality.most ≤ t.cardinality.most

/-- What is claimed of a node follows from what is claimed of its operands. -/
def Follows (T : Claims) (e : Expr) : Prop :=
  match e with
  | .leaf _ op => Regime.Narrower (op.typeWith T.ranges T.globals) (T.type e)
  | .unary _ op a => Regime.Narrower (op.typeOf (T.info a)) (T.type e)
  | .binary _ op a b =>
    Regime.Narrower (op.typeOf (T.info a) (T.info b)) (T.type e) ∧ T.FollowsBinary op (T.info a) (T.info b)
  | .ternary _ op a b d => Regime.Narrower (op.typeOf (T.info a) (T.info b) (T.info d)) (T.type e)
  | .nary _ op args =>
    Regime.Narrower (op.typeOf (args.map T.info)) (T.type e) ∧ FollowsNary op (args.map T.info) (T.type e)

end Claims

/-- A regime keeps what the claims at a node need. -/
structure Regime.Supports (R : Regime) (T : Claims) (e : Expr) : Prop where
  defers : R.Defers (T.type e)
  distinct : ∀ n m, e = .leaf n (.step .attr (.name (.name m))) →
    R.HasDistinctAttributes ∨ (T.type e).cardinality.most = ⊤
  makes : ∀ n op a, e = .unary n op a → (op.effects {}).creates → R.KeepsNodes
  indexes : ∀ n a b d, e = .ternary n .indexedFilter a b d → R.KeepsIndexes a (T.type a)

namespace Expr
open Regime

variable {R : Regime} {T : Claims} {c : DynamicContext}

/-- The claims follow and are supported throughout an expression. -/
abbrev Justified (R : Regime) (T : Claims) (e : Expr) : Prop :=
  e.All fun x => T.Follows x ∧ T.Obtains x ∧ R.Supports T x

/-- In frames and contexts that are as claimed, the value is as claimed, whatever way it is obtained. -/
def SoundIn (R : Regime) (T : Claims) (c : DynamicContext) (e : Expr) : Prop :=
  ∀ (k : R.Stage) f, Conforms T.ranges k f → GlobalsConform T.globals k c →
    Sound k (e.meaning c).toWays f (T.type e) ∧
      (T.AllowsMode e → Runs k ((e.meaning c).bound f) fun l v => SoundValue l v (T.type e))

namespace SoundIn
variable {e a b d : Expr} {k l : R.Stage} {f : Frame}

theorem ways (h : e.SoundIn R T c) (hf : Conforms T.ranges k f) (hc : GlobalsConform T.globals k c) :
    Sound k (e.meaning c).toWays f (T.type e) := (h k f hf hc).1

theorem underFocus (h : e.SoundIn R T c) (hf : Conforms T.ranges k f)
    (hc : GlobalsConform T.globals k c) : SoundUnderFocus k (e.meaning c).toWays f (T.type e) :=
  fun l x n size hl => (h l (f.withFocus x n size) (hf.later hl) (hc.later hl)).1

/-- Every item of a loop is a value for its variable; a loop over nothing takes no item. -/
theorem loop (h : a.SoundIn R T c) (hf : Conforms T.ranges k f) (hc : GlobalsConform T.globals k c)
    {slot : Slot} (hslot : Narrower (.one (T.info a).item) (T.ranges slot) ∨
      (T.info a).cardinality.most = 0) :
    Yields (R.valuesFor (T.ranges slot)) (T.info a).cardinality.least (T.info a).cardinality.most k
      ((a.meaning c).items f) := by
  have hitems := (h.ways hf hc).items
  obtain hslot | hnone := hslot
  · refine hitems.imp (fun l x _ hx => ?_) le_rfl le_rfl
    have hone : FitsType (.one (T.info a).item) l [x] := fitsType_single hx le_rfl le_rfl
    exact hone.narrower hslot
  · rw [Claims.type, StaticInfo.type, hnone] at hitems
    rw [hnone]
    exact hitems.of_none _

/-- The value of a let. -/
theorem value (h : a.SoundIn R T c) (hf : Conforms T.ranges k f) (hc : GlobalsConform T.globals k c)
    {slot : Slot} (hslot : Passes (T.type a) (T.ranges slot)) (hmode : T.AllowsMode a) :
    Runs k ((a.meaning c).bound f) fun l v => SoundValue l v (T.ranges slot) :=
  ((h k f hf hc).2 hmode).imp fun _ _ _ hv => hv.passes hslot

/-- With a value for a variable. -/
theorem bind (h : e.SoundIn R T c) (hf : Conforms T.ranges k f) (hc : GlobalsConform T.globals k c)
    {slot : Slot} {v : Value} (hl : R.le k l) (hv : SoundValue l v (T.ranges slot)) :
    Sound l (e.meaning c).toWays (f.bind slot v) (T.type e) :=
  (h l _ ((hf.later hl).bind hv) (hc.later hl)).1

end SoundIn

variable {k : R.Stage} {f : Frame}

theorem runs_reference {e : Expr} (hj : T.Follows e) (hf : Conforms T.ranges k f)
    (hc : GlobalsConform T.globals k c) {r : VariableRef} (hr : e.reference? = some r) :
    Runs k (f.valueOf c r) fun l v => SoundValue l v (T.type e) := by
  cases e with
  | leaf n op =>
    cases op with
    | «variable» r' =>
      cases hr
      exact (runs_valueOf hf hc r).imp fun _ _ _ hv => hv.narrower hj
    | _ => cases hr
  | _ => cases hr

/-- Without its first items a variable still has the type of the expression that drops them. -/
theorem runs_tail {e : Expr} (he : e.Justified R T) (hf : Conforms T.ranges k f)
    (hc : GlobalsConform T.globals k c) {r : VariableRef} {n : ℕ} (hr : e.tail? = some (r, n)) :
    Runs k (do (← f.valueOf c r).tail n) fun l v => SoundValue l v (T.type e) := by
  have hdrop {a : Expr} (ha : T.Follows a) (hra : a.reference? = some r)
      (hn : Narrower ⟨(T.type a).item, (T.type a).cardinality.orEmpty⟩ (T.type e)) :
      Runs k (do (← f.valueOf c r).tail n) fun l v => SoundValue l v (T.type e) :=
    (runs_reference ha hf hc hra).bind fun _ _ _ hv => (hv.tail n).imp fun _ _ _ hu => hu.narrower hn
  unfold tail? at hr
  split at hr
  · obtain ⟨r', hr', heq⟩ := Option.map_eq_some_iff.1 hr
    cases heq
    exact hdrop (all_unary.1 he).2.self.1 hr' he.self.1
  · next m a =>
    obtain ⟨r', hr', heq⟩ := Option.map_eq_some_iff.1 hr
    cases heq
    obtain ⟨hsuits, hleast, hmost⟩ := he.self.1.1
    exact hdrop ((all_nary.1 he).2 a List.mem_cons_self).self.1 hr'
      ⟨hsuits, hleast.trans (Nat.zero_le _), le_top.trans hmost⟩
  · cases hr

theorem runs_append {i j : StaticInfo} {p q : Eval (List Item)}
    (hp : Runs k p fun l xs => FitsType i.type l xs)
    (hq : ∀ l, R.le k l → Runs l q fun m xs => FitsType j.type m xs) :
    Runs k (do
      let xs ← p
      return Value.items (xs ++ (← q))) fun l v => SoundValue l v (NaryOp.block.typeOf [i, j]) := by
  obtain ⟨hl, hm⟩ := Cardinality.foldl_concat [i, j] .empty
  apply (fits_commonType [i, j] (by simp) hp).bind
  intro m xs hkm hxs
  apply (fits_commonType [i, j] (by simp) (hq m hkm)).bind
  intro m' ys hmm' hys
  refine runs_pure fun m'' hm'' => ((hxs.later hmm').append hys |>.later hm'').imp (fun _ => id) ?_ ?_
  · simpa [NaryOp.typeOf] using hl
  · simpa [NaryOp.typeOf] using hm

/-- It suffices to look at the ways of the operator. -/
theorem soundIn_of_own {e : Expr} {own : Ways} {parts : List Ways}
    (hm : e.meaning c = meaningOf c e parts own) (he : e.Justified R T)
    (hown : ∀ (k : R.Stage) f, Conforms T.ranges k f → GlobalsConform T.globals k c →
      Sound k own f (T.type e))
    (happend : ∀ (k : R.Stage) f, Conforms T.ranges k f → GlobalsConform T.globals k c →
      ∀ r x rest, e.head? = some r → parts = [x, rest] →
        Runs k (do
          let xs ← (← f.valueOf c r).toList
          return Value.items (xs ++ (← rest.toList f))) fun l v => SoundValue l v (T.type e)) :
    e.SoundIn R T c := by
  intro k f hf hc
  rw [hm]
  refine ⟨hown k f hf hc, fun hmode => runs_bound he.self.2.2.defers (hown k f hf hc)
    (fun slots l hl => ?_) hmode (fun r hr => runs_reference he.self.1 hf hc hr)
    (fun r n hr => runs_tail he hf hc hr) (happend k f hf hc)⟩
  exact hown l _ ((hf.later hl).capture slots) (hc.later hl)

private theorem sound_leaf (n : Note) (op : LeafOp) (hj : T.Follows (leaf n op))
    (hs : R.Supports T (leaf n op)) (hf : Conforms T.ranges k f) (hc : GlobalsConform T.globals k c) :
    Sound k (op.ways c n) f (T.type (leaf n op)) := by
  cases op with
  | literal cs => exact (sound_literal n c cs).narrower hj
  | «variable» r => exact (sound_variable n (runs_valueOf hf hc r)).narrower hj
  | contextItem => exact (sound_contextItem n c).narrower hj
  | root => exact (sound_root n c).narrower hj
  | step axis test =>
    obtain ⟨hsuits, hleast, hmost⟩ := hj
    refine sound_step n c axis test ⟨hsuits, le_rfl, le_rfl⟩
      (Nat.le_zero.1 (hleast.trans_eq (least_stepCardinality axis test))) fun l w i hw => ?_
    by_cases hany : (T.type (leaf n (.step axis test))).cardinality.most = ⊤
    · rw [hany]
      exact le_top
    · refine (most_stepCardinality axis test fun haxis ⟨m, htest⟩ t rest hchain => ?_).trans hmost
      obtain hR | htop := hs.distinct n m (by rw [haxis, htest])
      · exact hR hw i t (by rw [Forest.node?, hchain, List.head?_cons])
      · exact absurd htop hany

private theorem sound_binary (n : Note) (op : BinaryOp) (a b : Expr)
    (hj : T.Follows (binary n op a b)) (hmode : T.Obtains (binary n op a b)) (ia : a.SoundIn R T c) (ib : b.SoundIn R T c)
    (hf : Conforms T.ranges k f) (hc : GlobalsConform T.globals k c) :
    Sound k (op.ways n (a.meaning c) (b.meaning c)) f (T.type (binary n op a b)) := by
  obtain ⟨hn, hop⟩ := hj
  have ha := ia.ways hf hc
  refine Sound.narrower ?_ hn
  cases op with
  | path => exact .ofItems n (yields_path ha (ib.underFocus hf hc))
  | filter positional =>
    refine .ofItems n (yields_select ha ?_ (fun _ => ib.underFocus hf hc) fun _ => ib.ways hf hc)
    rw [meaning_note, ← T.dependencies b]
    exact hop
  | «for» slot =>
    exact sound_for n slot _ _ (ia.loop hf hc hop) fun l v hl hv => ib.bind hf hc hl hv
  | «let» slot =>
    apply sound_let n slot _ _ (ia.value hf hc hop (hmode n slot a b rfl))
    intro l v hl hv m hm
    exact ib.bind hf hc (R.trans hl hm) (hv.later hm)
  | quantified q slot =>
    exact sound_quantified n q slot _ _ (ia.loop hf hc hop) fun l v hl hv => ib.bind hf hc hl hv
  | _ => exact sound_plain n _ _ _ rfl ha (ib.ways hf hc)

private theorem sound_ternary (n : Note) (op : TernaryOp) (a b d : Expr)
    (hj : T.Follows (ternary n op a b d)) (hs : R.Supports T (ternary n op a b d))
    (ia : a.SoundIn R T c) (ib : b.SoundIn R T c) (id : d.SoundIn R T c)
    (hf : Conforms T.ranges k f) (hc : GlobalsConform T.globals k c) :
    Sound k (op.ways n (a, b) (a.meaning c).toWays (b.meaning c).toWays (d.meaning c).toWays) f
      (T.type (ternary n op a b d)) := by
  refine Sound.narrower ?_ hj
  cases op with
  | «if» => exact sound_if n (a, b) (ia.ways hf hc) (ib.ways hf hc) (id.ways hf hc)
  | indexedFilter =>
    have hkeep := hs.indexes n a b d rfl
    exact sound_indexedFilter n hkeep (ia.ways hf hc) (ib.underFocus hf hc) (id.ways hf hc)

private theorem sound_nary (n : Note) (op : NaryOp) (args : List Expr)
    (hj : T.Follows (nary n op args)) (ih : ∀ a ∈ args, a.SoundIn R T c)
    (hf : Conforms T.ranges k f) (hc : GlobalsConform T.globals k c) :
    Sound k (op.ways c n (operandWays c args)) f (T.type (nary n op args)) := by
  obtain ⟨hn, hsum⟩ := hj
  cases op with
  | block =>
    have hblock := sound_block n c (args.map fun a => ((a.meaning c).toWays, T.info a))
      (k := k) (f := f) fun p hp => by
        obtain ⟨a, ha, rfl⟩ := List.mem_map.1 hp
        exact (ih a ha).ways hf hc
    rw [List.map_map, List.map_map] at hblock
    exact hblock.narrower hn
  | call r =>
    cases r with
    | unresolved name => exact .ofItems n (yields_fail _)
    | builtin g =>
      refine .ofList n (Call.Site.Sound.call ⟨?_⟩ c g hn fun hg hlen => ?_)
      · refine List.forall₂_map_left_iff.2 (List.forall₂_map_right_iff.2 ?_)
        exact List.forall₂_same.2 fun a ha => (ih a ha).ways hf hc
      · match args, hlen with
        | a :: b :: rest, _ => exact hsum (T.info a) (T.info b) _ (by rw [hg]) rfl

/-- The claims hold of every evaluation. -/
theorem sound (c : DynamicContext) (e : Expr) (he : e.Justified R T) : e.SoundIn R T c := by
  match e with
  | leaf n op =>
    refine soundIn_of_own (meaning_leaf c n op) he
      (fun k f hf hc => sound_leaf n op he.self.1 he.self.2.2 hf hc) ?_
    intro k f _ _ r x rest hhead
    exact nomatch hhead
  | unary n op a =>
    have ih := sound c a (all_unary.1 he).2
    refine soundIn_of_own (meaning_unary c n op a) he (fun k f hf hc => ?_) ?_
    · exact (sound_unary n op (ih.ways hf hc) (he.self.2.2.makes n op a rfl)).narrower he.self.1
    · intro k f _ _ r x rest hhead
      exact nomatch hhead
  | binary n op a b =>
    obtain ⟨hj, hea, heb⟩ := all_binary.1 he
    have ia := sound c a hea
    have ib := sound c b heb
    refine soundIn_of_own (meaning_binary c n op a b) he
      (fun k f hf hc => sound_binary n op a b hj.1 hj.2.1 ia ib hf hc) ?_
    intro k f _ _ r x rest hhead
    exact nomatch hhead
  | ternary n op a b d =>
    obtain ⟨hj, hea, heb, hed⟩ := all_ternary.1 he
    have ia := sound c a hea
    have ib := sound c b heb
    have id := sound c d hed
    refine soundIn_of_own (meaning_ternary c n op a b d) he
      (fun k f hf hc => sound_ternary n op a b d hj.1 hj.2.2 ia ib id hf hc) ?_
    intro k f _ _ r x rest hhead
    exact nomatch hhead
  | nary n op args =>
    obtain ⟨hj, heargs⟩ := all_nary.1 he
    have ih : ∀ a ∈ args, a.SoundIn R T c := fun a ha => sound c a (heargs a ha)
    refine soundIn_of_own (meaning_nary c n op args) he
      (fun k f hf hc => sound_nary n op args hj.1 ih hf hc) fun k f hf hc r x rest hhead hparts => ?_
    unfold head? at hhead
    split at hhead
    · next a b heq =>
      cases heq
      cases hparts
      apply (runs_reference (heargs a (by simp)).self.1 hf hc hhead).bind
      intro l v hl hv
      refine (runs_append hv.toList fun m hm => ?_).imp fun _ _ _ hv => hv.narrower hj.1.1
      exact ((ih b (by simp)).ways (hf.later (R.trans hl hm)) (hc.later (R.trans hl hm))).toList
    · cases hhead

end Expr
end XPath
