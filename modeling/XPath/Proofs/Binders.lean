import XPath.Optimize.Rewrite
import XPath.Proofs.Scope

/-! How often an expression binds a variable, and that a rewrite neither binds a variable more often nor
uses one that was not used before. -/
namespace XPath.Expr

/-- How often an expression binds a variable. -/
def binders (e : Expr) (s : Slot) : ℕ := e.boundSlots.count s

section
variable (n : Note) (s : Slot)

@[simp] theorem binders_leaf (op : LeafOp) : (leaf n op).binders s = 0 := rfl

@[simp] theorem binders_unary (op : UnaryOp) (a : Expr) : (unary n op a).binders s = a.binders s := rfl

@[simp] theorem binders_binary (op : BinaryOp) (a b : Expr) : (binary n op a b).binders s =
    (if op.slot? = some s then 1 else 0) + (a.binders s + b.binders s) := by
  unfold binders
  rw [boundSlots_binary, List.count_append, List.count_append]
  cases op.slot? with
  | none => simp
  | some t => simp [List.count_singleton]

@[simp] theorem binders_ternary (op : TernaryOp) (a b d : Expr) :
    (ternary n op a b d).binders s = a.binders s + (b.binders s + d.binders s) := by
  unfold binders
  rw [boundSlots_ternary, List.count_append, List.count_append]

@[simp] theorem binders_nary (op : NaryOp) (args : List Expr) :
    (nary n op args).binders s = (args.map (binders · s)).sum := by
  unfold binders
  rw [boundSlots_nary, List.count_flatMap]
  rfl

end

theorem mem_boundSlots {e : Expr} {s : Slot} : s ∈ e.boundSlots ↔ 0 < e.binders s :=
  List.count_pos_iff.symm

/-- No variable is bound twice, or used outside its scope. -/
theorem wellBound_iff {e : Expr} :
    WellBound [e] ↔ (∀ s, e.needs s → e.binders s = 0) ∧ ∀ s, e.binders s ≤ 1 := by
  constructor
  · intro h
    refine ⟨fun s hs => ?_, fun s => ?_⟩
    · have := h.inScope e List.mem_cons_self s hs
      rw [List.flatMap_singleton] at this
      exact List.count_eq_zero.2 this
    · have := h.once
      rw [List.flatMap_singleton, List.nodup_iff_count_le_one] at this
      exact this s
  · intro ⟨hneeds, honce⟩
    refine ⟨fun a ha s hs => ?_, ?_⟩
    · obtain rfl := List.mem_singleton.1 ha
      rw [List.flatMap_singleton]
      exact List.count_eq_zero.1 (hneeds s hs)
    · rw [List.flatMap_singleton, List.nodup_iff_count_le_one]
      exact honce

/-- Nothing is used or bound that was not, nor bound more often. -/
structure Shrinks (e e' : Expr) : Prop where
  needs : ∀ s, e'.needs s → e.needs s
  binders : ∀ s, e'.binders s ≤ e.binders s

namespace Shrinks
variable {a a' b b' d d' e e' : Expr} {n n' : Note}

theorem refl (e : Expr) : e.Shrinks e := ⟨fun _ => id, fun _ => Nat.le_refl _⟩

theorem trans {e'' : Expr} (h : e.Shrinks e') (k : e'.Shrinks e'') : e.Shrinks e'' :=
  ⟨fun s hs => h.needs s (k.needs s hs), fun s => Nat.le_trans (k.binders s) (h.binders s)⟩

theorem of_resembles (h : e.Resembles e') : e.Shrinks e' where
  needs s hs := by rwa [← h.needs]
  binders s := by simp [Expr.binders, h.bound]

theorem unary {op op' : UnaryOp} (h : a.Shrinks a') : (Expr.unary n op a).Shrinks (.unary n' op' a') :=
  ⟨fun s hs => h.needs s (by simpa [Expr.needs] using hs), fun s => h.binders s⟩

theorem binary {op op' : BinaryOp} (hop : op'.slot? = op.slot?) (ha : a.Shrinks a') (hb : b.Shrinks b') :
    (Expr.binary n op a b).Shrinks (.binary n' op' a' b') where
  needs s hs := by
    simp only [Expr.needs, hop, Bool.or_eq_true, Bool.and_eq_true] at hs ⊢
    exact hs.imp (ha.needs s) (And.imp_left (hb.needs s))
  binders s := by
    have := ha.binders s
    have := hb.binders s
    simp only [binders_binary, hop]
    omega

theorem ternary {op op' : TernaryOp} (ha : a.Shrinks a') (hb : b.Shrinks b') (hd : d.Shrinks d') :
    (Expr.ternary n op a b d).Shrinks (.ternary n' op' a' b' d') where
  needs s hs := by
    simp only [Expr.needs, Bool.or_eq_true] at hs ⊢
    exact hs.imp (.imp (ha.needs s) (hb.needs s)) (hd.needs s)
  binders s := by
    have := ha.binders s
    have := hb.binders s
    have := hd.binders s
    simp only [binders_ternary]
    omega

theorem nary {op op' : NaryOp} {args args' : List Expr} (h : List.Forall₂ Shrinks args args') :
    (Expr.nary n op args).Shrinks (.nary n' op' args') where
  needs s hs := by
    simp only [Expr.needs] at hs ⊢
    induction h with
    | nil => exact hs
    | cons ha _ ih =>
      simp only [needsList, Bool.or_eq_true] at hs ⊢
      exact hs.imp (ha.needs s) ih
  binders s := by
    simp only [binders_nary]
    induction h with
    | nil => exact Nat.le_refl _
    | cons ha _ ih =>
      have := ha.binders s
      simp only [List.map_cons, List.sum_cons]
      omega

theorem left (n : Note) {op : BinaryOp} (a b : Expr) : (Expr.binary n op a b).Shrinks a where
  needs s hs := by simp [Expr.needs, hs]
  binders s := by
    simp only [binders_binary]
    omega

theorem unordered (a : Expr) : a.Shrinks a.unordered := by
  unfold Expr.unordered
  split
  · split
    · exact ⟨fun s hs => by simpa [Expr.needs] using hs, fun s => Nat.le_refl _⟩
    · exact .refl _
  · exact .refl _

theorem unorderedList (args : List Expr) : List.Forall₂ Shrinks args (args.map Expr.unordered) := by
  induction args with
  | nil => exact .nil
  | cons a args ih => exact .cons (.unordered a) ih

end Shrinks

/-! What the special forms of a filter use and bind. -/

variable {n : Note} {p : Bool} {base b : Expr}

theorem select_shrinks (base : Expr) (p : Positions) (at' : LocationId) :
    base.Shrinks (base.select p at') := by
  have hmore {op : BinaryOp} (hop : op.slot? = none) (c : Constant) :
      base.Shrinks (mkBinary op base (constantAt c at') at') :=
    ⟨fun s hs => by simpa [Expr.needs, mkBinary, constantAt, mkLeaf] using hs, fun s => by
      simp [mkBinary, constantAt, mkLeaf, hop]⟩
  have hunary (op : UnaryOp) : base.Shrinks (mkUnary op base at') :=
    ⟨fun s hs => by simpa [Expr.needs, mkUnary] using hs, fun s => Nat.le_refl _⟩
  unfold select
  split
  · exact ⟨fun s hs => by simp [emptyAt, mkLeaf, Expr.needs] at hs, fun s => by simp [emptyAt, mkLeaf]⟩
  · split
    · exact .refl base
    · exact hunary .first
    · split
      · exact hmore rfl _
      · exact hunary _

theorem selectConstant_shrinks {c : Constant} {at' : LocationId} {e : Expr}
    (he : base.selectConstant? at' c = some e) : base.Shrinks e := by
  have hempty : base.Shrinks (emptyAt at') := select_shrinks base .none at'
  cases c with
  | integer i =>
    cases he
    exact select_shrinks base _ at'
  | boolean t =>
    cases he
    cases t with
    | false => exact hempty
    | true => exact .refl base
  | string s =>
    cases he
    split
    · exact hempty
    · exact .refl base
  | decimal d => cases he
  | double x => cases he

theorem selectWhole_shrinks {at' : LocationId} {e : Expr} (he : base.selectWhole? b at' = some e) :
    (binary n (.filter p) base b).Shrinks e := by
  have hbase : (binary n (.filter p) base b).Shrinks base := .left n base b
  unfold selectWhole? at he
  split at he
  · next hc =>
    cases he
    obtain ⟨c, _, hc⟩ := Option.bind_eq_some_iff.1 hc
    exact hbase.trans (selectConstant_shrinks hc)
  · split at he
    · cases he
      exact hbase.trans (select_shrinks base _ at')
    · split at he
      · cases he
        exact .binary rfl (.refl base) (.refl b)
      · cases he

theorem indexKey_shrinks {key value : Expr} (h : base.indexKey? b = some (key, value)) (at' : LocationId) :
    (binary n (.filter p) base b).Shrinks (mkTernary .indexedFilter base key value at') := by
  unfold indexKey? at h
  split at h
  · next m x y =>
    have hkey {u v : Expr} (huv : (u = x ∧ v = y) ∨ (u = y ∧ v = x)) :
        (binary n (.filter p) base (binary m (.generalComparison .eq) x y)).Shrinks
          (mkTernary .indexedFilter base u v at') := by
      constructor
      · intro s hs
        simp only [mkTernary, needs, Bool.or_eq_true] at hs
        obtain ⟨rfl, rfl⟩ | ⟨rfl, rfl⟩ := huv <;> obtain (hs | hs) | hs := hs <;>
          simp [needs, BinaryOp.slot?, hs]
      · intro s
        obtain ⟨rfl, rfl⟩ | ⟨rfl, rfl⟩ := huv <;> simp only [mkTernary, binders_ternary, binders_binary] <;>
          omega
    split at h
    · cases h
    · split at h
      · cases h
        exact hkey (.inl ⟨rfl, rfl⟩)
      · split at h
        · cases h
          exact hkey (.inr ⟨rfl, rfl⟩)
        · cases h
  · cases h

theorem filterPlainly_shrinks (n' : Note) (positional index : Bool) (base b : Expr) :
    (binary n (.filter p) base b).Shrinks (filterPlainly n' positional index base b).1 := by
  unfold filterPlainly
  split
  · exact .binary rfl (.refl base) (.refl b)
  · have hu : (binary n (.filter p) base b).Shrinks (binary n (.filter p) base b.unordered) :=
      .binary rfl (.refl base) (.unordered b)
    dsimp only
    split
    · next key value hkey =>
      split at hkey
      · exact hu.trans (indexKey_shrinks hkey _)
      · cases hkey
    · exact .binary rfl (.refl base) (.unordered b)

theorem selectOrFilter_shrinks (n n' : Note) (positional index : Bool) (base b : Expr) :
    (binary n (.filter p) base b).Shrinks (match base.selectWhole? b n'.location with
      | some e => (e, true)
      | none => filterPlainly n' positional index base b).1 := by
  split
  · next he => exact selectWhole_shrinks he
  · exact filterPlainly_shrinks n' positional index base b

theorem toBoolean_shrinks (a : Expr) : a.Shrinks a.toBoolean where
  needs s hs := by simpa [toBoolean, callAt, mkNary, needs, needsList] using hs
  binders s := by simp [toBoolean, callAt, mkNary]

/-- A conjunction may be asked for one side after the other. -/
theorem nested_shrinks (m : Note) (x y : Expr) {u v : Expr} (h : (u = x ∧ v = y) ∨ (u = y ∧ v = x)) :
    (binary n (.filter p) base (binary m .and x y)).Shrinks
      (binary n (.filter p) (binary n (.filter p) base u) v) := by
  constructor
  · intro s hs
    simp only [needs, BinaryOp.slot?, Bool.or_eq_true, Bool.and_eq_true] at hs ⊢
    obtain ⟨rfl, rfl⟩ | ⟨rfl, rfl⟩ := h <;> tauto
  · intro s
    obtain ⟨rfl, rfl⟩ | ⟨rfl, rfl⟩ := h <;> simp only [binders_binary, BinaryOp.slot?] <;> simp <;> omega

theorem specialize_shrinks (n' : Note) (positional index : Bool) (base b : Expr) :
    (binary n (.filter p) base b).Shrinks (specialize n' positional index base b).1 := by
  match b with
  | binary m op x y =>
    cases op with
    | and =>
      have hinner {u v : Expr} (huv : (u = x ∧ v = y) ∨ (u = y ∧ v = x)) {s : Expr × Bool}
          (hs : (binary n (.filter p) base u).Shrinks s.1) :
          (binary n (.filter p) base (binary m .and x y)).Shrinks
            (mkBinary (.filter false) s.1 v.toBoolean n'.location) := by
        have hfilter : (binary n (.filter p) (binary n (.filter p) base u) v).Shrinks
            (mkBinary (.filter false) s.1 v.toBoolean n'.location) := .binary rfl hs (toBoolean_shrinks v)
        exact (nested_shrinks m x y huv).trans hfilter
      have htruth (u : Expr) : (binary n (.filter p) base u).Shrinks
          (specialize.positionalFilter n'.location base u.toBoolean).1 := by
        have hfilter : (binary n (.filter p) base u).Shrinks (binary n (.filter p) base u.toBoolean) :=
          .binary rfl (.refl base) (toBoolean_shrinks u)
        exact hfilter.trans (selectOrFilter_shrinks n { location := n'.location } true false base _)
      unfold specialize
      dsimp only
      split
      · next he => exact selectWhole_shrinks he
      · split
        · refine hinner (.inl ⟨rfl, rfl⟩) ?_
          split
          · exact htruth x
          · exact specialize_shrinks _ _ _ base x
        · split
          · refine hinner (.inr ⟨rfl, rfl⟩) ?_
            split
            · exact htruth y
            · exact specialize_shrinks _ _ _ base y
          · exact filterPlainly_shrinks n' positional index base _
    | _ => exact selectOrFilter_shrinks n n' positional index base _
  | leaf m op => exact selectOrFilter_shrinks n n' positional index base _
  | unary m op x => exact selectOrFilter_shrinks n n' positional index base _
  | ternary m op x y z => exact selectOrFilter_shrinks n n' positional index base _
  | nary m op args => exact selectOrFilter_shrinks n n' positional index base _

theorem not_needs_of_references {e : Expr} {slot : Slot} (h : e.references slot = false) : ¬ e.needs slot := by
  intro hneeds
  have hmem : e.references slot = true := List.contains_iff_mem.2 (referenced_of_needs e hneeds)
  rw [h] at hmem
  cases hmem

/-- The steps from a variable do not mention it. -/
theorem stripHead_shrinks {slot : Slot} (b : Expr) (h : b.isStepOf slot) :
    b.Shrinks b.stripHead ∧ ¬ b.stripHead.needs slot := by
  match b with
  | binary n op head step =>
    cases op with
    | path =>
      unfold isStepOf at h
      simp only [Bool.and_eq_true, Bool.not_eq_true'] at h
      obtain ⟨⟨hhead, hstep⟩, _⟩ := h
      have hnot := not_needs_of_references hstep
      have hright : (binary n .path head step).Shrinks step := by
        constructor
        · intro s hs
          simp [needs, BinaryOp.slot?, hs]
        · intro s
          simp only [binders_binary]
          omega
      unfold stripHead
      split at hhead
      · exact ⟨hright, hnot⟩
      · obtain ⟨hs, hslot⟩ := stripHead_shrinks head hhead
        split
        · cases hhead
        · exact ⟨.binary rfl hs (.refl step), by simp [mkBinary, needs, hslot, hnot]⟩
    | _ => cases h
  | leaf n op => cases h
  | unary n op a => cases h
  | ternary n op a b d => cases h
  | nary n op args => cases h

theorem rewriteFor_shrinks {slot : Slot} {at' : LocationId} {a b e : Expr}
    (he : rewriteFor at' slot a b = some e) : (binary n (.for slot) a b).Shrinks e := by
  unfold rewriteFor at he
  split at he
  · cases he
    exact .binary rfl (.refl a) (.refl b)
  · split at he
    · next hstep =>
      cases he
      obtain ⟨hb, hslot⟩ := stripHead_shrinks b hstep
      constructor
      · intro s hs
        simp only [mkBinary, needs, BinaryOp.slot?, Bool.or_eq_true, Bool.and_eq_true, bne_iff_ne] at hs ⊢
        obtain hs | ⟨hs, _⟩ := hs
        · exact .inl hs
        · refine .inr ⟨hb.needs s hs, fun heq => ?_⟩
          cases heq
          exact hslot hs
      · intro s
        have := hb.binders s
        simp only [mkBinary, binders_binary, BinaryOp.slot?]
        simp
        omega
    · cases he

/-- What a rewrite of a node can do. -/
inductive Rewrites (index : Bool) : Expr → Expr → Prop where
  | sort {n a} : Rewrites index (unary n .sort a) a
  | filter {n p a b} : Rewrites index (binary n (.filter p) a b) (specialize n p index a b).1
  | loop {n slot a b e} : rewriteFor n.location slot a b = some e → Rewrites index (binary n (.for slot) a b) e
  | and {n a b} : Rewrites index (binary n .and a b) (binary n .and a.unordered b.unordered)
  | or {n a b} : Rewrites index (binary n .or a b) (binary n .or a.unordered b.unordered)
  | quantified {n q slot a b} :
    Rewrites index (binary n (.quantified q slot) a b) (binary n (.quantified q slot) a.unordered b)
  | if {n a b d} : Rewrites index (ternary n .if a b d) (ternary n .if a.unordered b d)
  | call {n f args} :
    Rewrites index (nary n (.call (.builtin f)) args) (nary n (.call (.builtin f)) (args.map unordered))

private theorem eq_of_ite {c : Bool} {e e' : Expr} (h : (if c then some e else none) = some e') : e = e' := by
  cases c with
  | true => exact Option.some.inj h
  | false => cases h

theorem rewrites_of_rewrite {index : Bool} {e e' : Expr} (h : e.rewrite? index = some e') :
    Rewrites index e e' := by
  cases e with
  | leaf n op => cases h
  | unary n op a =>
    cases op with
    | sort => exact eq_of_ite h ▸ .sort
    | _ => cases h
  | binary n op a b =>
    cases op with
    | filter p => exact eq_of_ite h ▸ .filter
    | «for» slot => exact .loop h
    | and => exact eq_of_ite h ▸ .and
    | or => exact eq_of_ite h ▸ .or
    | quantified q slot => exact eq_of_ite h ▸ .quantified
    | _ => cases h
  | ternary n op a b d =>
    cases op with
    | «if» => exact eq_of_ite h ▸ .if
    | indexedFilter => cases h
  | nary n op args =>
    cases op with
    | block => cases h
    | call f =>
      cases f with
      | unresolved m => cases h
      | builtin f => exact eq_of_ite h ▸ .call

theorem Rewrites.shrinks {index : Bool} {e e' : Expr} (h : Rewrites index e e') : e.Shrinks e' := by
  cases h with
  | sort => exact ⟨fun s hs => by simpa [needs] using hs, fun s => Nat.le_refl _⟩
  | filter => exact specialize_shrinks _ _ _ _ _
  | loop he => exact rewriteFor_shrinks he
  | and => exact .binary rfl (.unordered _) (.unordered _)
  | or => exact .binary rfl (.unordered _) (.unordered _)
  | quantified => exact .binary rfl (.unordered _) (.refl _)
  | «if» => exact .ternary (.unordered _) (.refl _) (.refl _)
  | call => exact .nary (Shrinks.unorderedList _)

end XPath.Expr
