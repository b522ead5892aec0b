import XPath.Optimize.Modes
import XPath.Proofs.Noninterference

/-!
Scopes. A variable is free where it is used outside its scope, and in a tree as it is parsed every binder
has a variable of its own. Checking a tree and choosing modes for it change neither its scopes nor its
effects.
-/
namespace XPath

namespace Expr

theorem mem_insertSlot {s t : Slot} {ts : List Slot} : s ∈ insertSlot t ts ↔ s = t ∨ s ∈ ts := by
  induction ts with
  | nil => simp [insertSlot]
  | cons u us ih =>
    unfold insertSlot
    split
    · simp
    · split
      · next heq => simp [heq]
      · simp only [List.mem_cons, ih]
        exact or_left_comm

/-- The slots that the expression itself binds somewhere, and those that it refers to. -/
def boundSlots (e : Expr) : List Slot := e.preorder.filterMap boundSlot?

def referencedSlots (e : Expr) : List Slot := e.preorder.filterMap referencedSlot?

theorem boundSlots_binary (n : Note) (op : BinaryOp) (a b : Expr) :
    (binary n op a b).boundSlots = op.slot?.toList ++ (a.boundSlots ++ b.boundSlots) := by
  unfold boundSlots
  rw [preorder, List.filterMap_cons, List.filterMap_append]
  cases op <;> rfl

theorem boundSlots_ternary (n : Note) (op : TernaryOp) (a b d : Expr) :
    (ternary n op a b d).boundSlots = a.boundSlots ++ (b.boundSlots ++ d.boundSlots) := by
  unfold boundSlots
  rw [preorder, List.filterMap_cons_none rfl, List.filterMap_append, List.filterMap_append]

theorem boundSlots_nary (n : Note) (op : NaryOp) (args : List Expr) :
    (nary n op args).boundSlots = args.flatMap boundSlots := by
  unfold boundSlots
  rw [preorder, List.filterMap_cons_none rfl]
  induction args with
  | nil => rfl
  | cons a args ih => rw [preorderList, List.filterMap_append, ih, List.flatMap_cons]

theorem referencedSlots_binary (n : Note) (op : BinaryOp) (a b : Expr) :
    (binary n op a b).referencedSlots = a.referencedSlots ++ b.referencedSlots := by
  unfold referencedSlots
  rw [preorder, List.filterMap_cons_none rfl, List.filterMap_append]

theorem referencedSlots_ternary (n : Note) (op : TernaryOp) (a b d : Expr) :
    (ternary n op a b d).referencedSlots = a.referencedSlots ++ (b.referencedSlots ++ d.referencedSlots) := by
  unfold referencedSlots
  rw [preorder, List.filterMap_cons_none rfl, List.filterMap_append, List.filterMap_append]

theorem referencedSlots_nary (n : Note) (op : NaryOp) (args : List Expr) :
    (nary n op args).referencedSlots = args.flatMap referencedSlots := by
  unfold referencedSlots
  rw [preorder, List.filterMap_cons_none rfl]
  induction args with
  | nil => rfl
  | cons a args ih => rw [preorderList, List.filterMap_append, ih, List.flatMap_cons]

theorem mem_freeSlots {s : Slot} {e : Expr} :
    s ∈ e.freeSlots ↔ s ∈ e.referencedSlots ∧ s ∉ e.boundSlots := by
  have hfold (ts : List Slot) : s ∈ ts.foldr insertSlot [] ↔ s ∈ ts := by
    induction ts with
    | nil => rfl
    | cons t ts ih => rw [List.foldr_cons, mem_insertSlot, ih, List.mem_cons]
  unfold freeSlots
  rw [hfold, List.mem_filter]
  simp [boundSlots, referencedSlots]

/-- A variable that the frame must give is referred to. -/
theorem referenced_of_needs {s : Slot} (e : Expr) (h : e.needs s) : s ∈ e.referencedSlots := by
  match e with
  | leaf n op =>
    cases op with
    | «variable» r =>
      cases r with
      | range t =>
        obtain rfl : t = s := eq_of_beq h
        exact List.mem_cons_self
      | global m => cases h
    | _ => cases h
  | unary n op a =>
    rw [needs] at h
    exact referenced_of_needs a h
  | binary n op a b =>
    rw [needs, Bool.or_eq_true, Bool.and_eq_true] at h
    rw [referencedSlots_binary, List.mem_append]
    exact h.imp (referenced_of_needs a) fun h => referenced_of_needs b h.1
  | ternary n op a b d =>
    rw [needs, Bool.or_eq_true, Bool.or_eq_true, or_assoc] at h
    rw [referencedSlots_ternary, List.mem_append, List.mem_append]
    exact h.imp (referenced_of_needs a) (.imp (referenced_of_needs b) (referenced_of_needs d))
  | nary n op args =>
    rw [needs] at h
    obtain ⟨a, ha, hs⟩ := needsList_iff.1 h
    rw [referencedSlots_nary, List.mem_flatMap]
    exact ⟨a, ha, referenced_of_needs a hs⟩

/-- A variable that is referred to is bound somewhere in the expression, or the frame must give it. -/
theorem needs_or_bound_of_referenced {s : Slot} (e : Expr) (h : s ∈ e.referencedSlots) :
    e.needs s ∨ s ∈ e.boundSlots := by
  match e with
  | leaf n op =>
    cases op with
    | «variable» r =>
      cases r with
      | range t =>
        obtain rfl := List.mem_singleton.1 h
        exact .inl (beq_self_eq_true s)
      | global m => cases h
    | _ => cases h
  | unary n op a =>
    rw [needs]
    exact needs_or_bound_of_referenced a h
  | binary n op a b =>
    rw [referencedSlots_binary, List.mem_append] at h
    rw [needs, Bool.or_eq_true, Bool.and_eq_true, boundSlots_binary, List.mem_append, List.mem_append,
      Option.mem_toList, bne_iff_ne]
    by_cases hslot : op.slot? = some s
    · exact .inr (.inl hslot)
    · obtain h | h := h
      · exact (needs_or_bound_of_referenced a h).imp .inl fun h => .inr (.inl h)
      · exact (needs_or_bound_of_referenced b h).imp (fun h => .inr ⟨h, hslot⟩) fun h => .inr (.inr h)
  | ternary n op a b d =>
    rw [referencedSlots_ternary, List.mem_append, List.mem_append] at h
    rw [needs, Bool.or_eq_true, Bool.or_eq_true, boundSlots_ternary, List.mem_append, List.mem_append]
    obtain h | h | h := h
    · exact (needs_or_bound_of_referenced a h).imp (fun h => .inl (.inl h)) .inl
    · exact (needs_or_bound_of_referenced b h).imp (fun h => .inl (.inr h)) fun h => .inr (.inl h)
    · exact (needs_or_bound_of_referenced d h).imp .inr fun h => .inr (.inr h)
  | nary n op args =>
    rw [referencedSlots_nary, List.mem_flatMap] at h
    obtain ⟨a, ha, hs⟩ := h
    rw [needs, boundSlots_nary, List.mem_flatMap, needsList_iff]
    exact (needs_or_bound_of_referenced a hs).imp (fun h => ⟨a, ha, h⟩) fun h => ⟨a, ha, h⟩

theorem needs_of_free {s : Slot} {e : Expr} (h : s ∈ e.freeSlots) : e.needs s := by
  obtain ⟨href, hbound⟩ := mem_freeSlots.1 h
  exact (needs_or_bound_of_referenced e href).resolve_right hbound

/-- No variable is used outside its scope, as in a tree whose binders all have slots of their own. -/
def IsScoped (e : Expr) : Prop := ∀ s, e.needs s → s ∉ e.boundSlots

theorem IsScoped.mem_freeSlots {e : Expr} (h : e.IsScoped) {s : Slot} (hs : e.needs s) :
    s ∈ e.freeSlots :=
  Expr.mem_freeSlots.2 ⟨referenced_of_needs e hs, h s hs⟩

/-- No variable is bound twice, or used outside its scope where another operand binds it. -/
structure WellBound (es : List Expr) : Prop where
  inScope : ∀ e ∈ es, ∀ s, e.needs s → s ∉ es.flatMap boundSlots
  once : (es.flatMap boundSlots).Nodup

/-- A variable that is used or bound in an expression. -/
def Mentions (e : Expr) (s : Slot) : Prop := e.needs s ∨ s ∈ e.boundSlots

section Mentions
variable {n : Note} {a b d : Expr} {s : Slot}

theorem mentions_binary {op : BinaryOp} (h : a.Mentions s ∨ b.Mentions s ∨ op.slot? = some s) :
    (binary n op a b).Mentions s := by
  unfold Mentions
  rw [boundSlots_binary, needs]
  by_cases hslot : op.slot? = some s
  · simp [hslot]
  · obtain (h | h) | (h | h) | h := h
    · simp [h]
    · simp [h]
    · simp [h, hslot]
    · simp [h]
    · exact absurd h hslot

theorem mentions_ternary {op : TernaryOp} (h : a.Mentions s ∨ b.Mentions s ∨ d.Mentions s) :
    (ternary n op a b d).Mentions s := by
  unfold Mentions
  rw [boundSlots_ternary, needs]
  obtain (h | h) | (h | h) | h | h := h <;> simp [h]

theorem mentions_nary {op : NaryOp} {args : List Expr} (ha : a ∈ args) (h : a.Mentions s) :
    (nary n op args).Mentions s := by
  unfold Mentions
  rw [boundSlots_nary, needs, needsList_iff, List.mem_flatMap]
  exact h.imp (fun h => ⟨a, ha, h⟩) fun h => ⟨a, ha, h⟩

end Mentions

namespace WellBound
variable {n : Note} {a b d : Expr} {es : List Expr} {s : Slot}

theorem head (h : WellBound (a :: es)) : WellBound [a] := by
  have honce := h.once
  rw [List.flatMap_cons] at honce
  refine ⟨fun e he s hs hmem => ?_, ?_⟩
  · obtain rfl := List.mem_singleton.1 he
    rw [List.flatMap_singleton] at hmem
    exact h.inScope e List.mem_cons_self s hs (List.mem_append_left _ hmem)
  · rw [List.flatMap_singleton]
    exact honce.of_append_left

theorem tail (h : WellBound (a :: es)) : WellBound es := by
  have honce := h.once
  rw [List.flatMap_cons] at honce
  refine ⟨fun e he s hs hmem => ?_, honce.of_append_right⟩
  exact h.inScope e (List.mem_cons_of_mem a he) s hs (List.mem_append_right _ hmem)

theorem of_mem (h : WellBound es) (ha : a ∈ es) : WellBound [a] := by
  induction es with
  | nil => cases ha
  | cons e es ih =>
    obtain rfl | ha := List.mem_cons.1 ha
    · exact h.head
    · exact ih h.tail ha

/-- What an expression mentions is not bound in the expressions after it. -/
theorem apart (h : WellBound (a :: es)) (hs : a.Mentions s) : s ∉ es.flatMap boundSlots := by
  intro hmem
  obtain hs | hs := hs
  · exact h.inScope a List.mem_cons_self s hs (List.mem_append_right _ hmem)
  · have honce := h.once
    rw [List.flatMap_cons] at honce
    exact (List.disjoint_of_nodup_append honce) hs hmem

theorem unary {op : UnaryOp} (h : WellBound [unary n op a]) : WellBound [a] := by
  refine ⟨fun e he s hs => ?_, h.once⟩
  obtain rfl := List.mem_singleton.1 he
  exact h.inScope _ List.mem_cons_self s hs

private theorem mem_singleton {e : Expr} {s : Slot} : s ∈ [e].flatMap boundSlots ↔ s ∈ e.boundSlots := by
  simp

theorem binary {op : BinaryOp} (h : WellBound [binary n op a b]) : WellBound [a, b] := by
  have hflat : [a, b].flatMap boundSlots = a.boundSlots ++ b.boundSlots := by simp
  have honce : (op.slot?.toList ++ (a.boundSlots ++ b.boundSlots)).Nodup := by
    have := h.once
    rwa [List.flatMap_singleton, boundSlots_binary] at this
  have hscoped (s : Slot) (hs : (Expr.binary n op a b).needs s) : s ∉ a.boundSlots ++ b.boundSlots := by
    intro hmem
    refine h.inScope _ List.mem_cons_self s hs (mem_singleton.2 ?_)
    rw [boundSlots_binary]
    exact List.mem_append_right _ hmem
  refine ⟨fun e he s hs => ?_, hflat ▸ honce.of_append_right⟩
  rw [hflat]
  obtain rfl | he := List.mem_cons.1 he
  · exact hscoped s (by rw [needs, hs, Bool.true_or])
  · obtain rfl := List.mem_singleton.1 he
    by_cases hslot : op.slot? = some s
    · rw [hslot] at honce
      exact (List.nodup_cons.1 honce).1
    · exact hscoped s (by rw [needs, hs, Bool.true_and, bne_iff_ne.2 hslot, Bool.or_true])

/-- The variable of a binder is not mentioned by what it is bound to, nor bound again in its scope. -/
theorem slot {op : BinaryOp} (h : WellBound [.binary n op a b]) (hs : op.slot? = some s) :
    ¬ a.Mentions s ∧ s ∉ b.boundSlots := by
  have hmem {t : Slot} : t ∈ [Expr.binary n op a b].flatMap boundSlots ↔
      t = s ∨ t ∈ a.boundSlots ∨ t ∈ b.boundSlots := by
    rw [mem_singleton, boundSlots_binary, hs]
    simp
  have honce := h.once
  rw [List.flatMap_singleton, boundSlots_binary, hs] at honce
  have hnot : s ∉ a.boundSlots ++ b.boundSlots := (List.nodup_cons.1 honce).1
  rw [List.mem_append, not_or] at hnot
  refine ⟨fun hm => hm.elim (fun hneeds => ?_) hnot.1, hnot.2⟩
  exact h.inScope _ List.mem_cons_self s (by rw [needs, hneeds, Bool.true_or]) (hmem.2 (.inl rfl))

theorem ternary {op : TernaryOp} (h : WellBound [.ternary n op a b d]) : WellBound [a, b, d] := by
  have hflat : [a, b, d].flatMap boundSlots = [Expr.ternary n op a b d].flatMap boundSlots := by
    simp [boundSlots_ternary]
  refine ⟨fun e he s hs => ?_, hflat ▸ h.once⟩
  rw [hflat]
  apply h.inScope _ List.mem_cons_self s
  simp only [List.mem_cons, List.not_mem_nil, or_false] at he
  obtain rfl | rfl | rfl := he
  · rw [needs, hs, Bool.true_or, Bool.true_or]
  · rw [needs, hs, Bool.or_true, Bool.true_or]
  · rw [needs, hs, Bool.or_true]

theorem nary {op : NaryOp} (h : WellBound [.nary n op es]) : WellBound es := by
  have hflat : [Expr.nary n op es].flatMap boundSlots = es.flatMap boundSlots := by
    rw [List.flatMap_singleton, boundSlots_nary]
  refine ⟨fun e he s hs => ?_, hflat ▸ h.once⟩
  rw [← hflat]
  exact h.inScope _ List.mem_cons_self s (by rw [needs]; exact needsList_iff.2 ⟨e, he, hs⟩)

end WellBound
theorem needsList_eq (s : Slot) (es : List Expr) : needsList s es = (es.map (needs s)).any id := by
  induction es with
  | nil => rfl
  | cons e es ih => rw [needsList, ih, List.map_cons, List.any_cons, id]

/-- Two trees with the same scopes and effects. -/
structure Resembles (e e' : Expr) : Prop where
  effects : e'.effects = e.effects
  needs : ∀ s, e'.needs s = e.needs s
  bound : e'.boundSlots = e.boundSlots
  formed : e.All IsFormed → e'.All IsFormed

namespace Resembles
variable {a a' b b' d d' : Expr}

theorem refl (e : Expr) : e.Resembles e := ⟨rfl, fun _ => rfl, rfl, id⟩

theorem trans {e e' e'' : Expr} (h : e.Resembles e') (k : e'.Resembles e'') : e.Resembles e'' :=
  ⟨k.effects.trans h.effects, fun s => (k.needs s).trans (h.needs s), k.bound.trans h.bound,
    fun hf => k.formed (h.formed hf)⟩

theorem isScoped {e e' : Expr} (h : e.Resembles e') (he : e.IsScoped) : e'.IsScoped := by
  intro s hs
  rw [h.needs] at hs
  rw [h.bound]
  exact he s hs

theorem leaf (n n' : Note) (op : LeafOp) : (Expr.leaf n op).Resembles (.leaf n' op) := by
  refine ⟨rfl, fun s => ?_, ?_, fun _ => all_leaf.2 trivial⟩
  · cases op with
    | «variable» r => cases r <;> rfl
    | _ => rfl
  · cases op <;> rfl

theorem unary (n n' : Note) (op : UnaryOp) (h : a.Resembles a') :
    (Expr.unary n op a).Resembles (.unary n' op a') := by
  refine ⟨?_, fun s => ?_, h.bound, fun hf => all_unary.2 ⟨trivial, h.formed (all_unary.1 hf).2⟩⟩
  · rw [effects_unary, effects_unary, h.effects]
  · rw [Expr.needs, Expr.needs, h.needs]

/-- A requirement on the type has no effect of its own. -/
theorem treat (n : Note) (t : SequenceType) (h : a.Resembles a') : a.Resembles (.unary n (.treat t) a') := by
  refine ⟨h.effects, fun s => ?_, h.bound, fun hf => all_unary.2 ⟨trivial, h.formed hf⟩⟩
  rw [Expr.needs, h.needs]

theorem untreat (n : Note) (t : SequenceType) (h : a.Resembles a') : (Expr.unary n (.treat t) a).Resembles a' := by
  refine ⟨h.effects, fun s => ?_, h.bound, fun hf => h.formed (all_unary.1 hf).2⟩
  rw [Expr.needs, h.needs]

theorem binary (n n' : Note) {op op' : BinaryOp} (hslot : op'.slot? = op.slot?)
    (heffects : op'.effects = op.effects) (ha : a.Resembles a') (hb : b.Resembles b') :
    (Expr.binary n op a b).Resembles (.binary n' op' a' b') := by
  refine ⟨?_, fun s => ?_, ?_, fun hf => ?_⟩
  · rw [effects_binary, effects_binary, heffects, ha.effects, hb.effects]
  · rw [Expr.needs, Expr.needs, ha.needs, hb.needs, hslot]
  · rw [boundSlots_binary, boundSlots_binary, ha.bound, hb.bound, hslot]
  · obtain ⟨_, hfa, hfb⟩ := all_binary.1 hf
    exact all_binary.2 ⟨trivial, ha.formed hfa, hb.formed hfb⟩

theorem ternary (n n' : Note) (op : TernaryOp) (ha : a.Resembles a') (hb : b.Resembles b')
    (hd : d.Resembles d') : (Expr.ternary n op a b d).Resembles (.ternary n' op a' b' d') := by
  refine ⟨?_, fun s => ?_, ?_, fun hf => ?_⟩
  · rw [effects_ternary, effects_ternary, ha.effects, hb.effects, hd.effects]
  · rw [Expr.needs, Expr.needs, ha.needs, hb.needs, hd.needs]
  · rw [boundSlots_ternary, boundSlots_ternary, ha.bound, hb.bound, hd.bound]
  · obtain ⟨hself, hfa, hfb, hfd⟩ := all_ternary.1 hf
    refine all_ternary.2 ⟨?_, ha.formed hfa, hb.formed hfb, hd.formed hfd⟩
    cases op with
    | «if» => trivial
    | indexedFilter =>
      simp only [IsFormed] at hself ⊢
      rwa [ha.effects]

theorem nary (n n' : Note) (op : NaryOp) {args args' : List Expr} (h : List.Forall₂ Resembles args args') :
    (Expr.nary n op args).Resembles (.nary n' op args') := by
  have hmap {β : Type} (g : Expr → β) (hg : ∀ {a a'}, a.Resembles a' → g a' = g a) :
      args'.map g = args.map g := by
    induction h with
    | nil => rfl
    | cons ha _ ih => rw [List.map_cons, List.map_cons, hg ha, ih]
  refine ⟨?_, fun s => ?_, ?_, fun hf => ?_⟩
  · rw [effects_nary, effects_nary, hmap _ Resembles.effects]
  · rw [Expr.needs, Expr.needs, needsList_eq, needsList_eq, hmap (Expr.needs s) fun ha => ha.needs s]
  · rw [boundSlots_nary, boundSlots_nary, List.flatMap_def, List.flatMap_def, hmap _ Resembles.bound]
  · obtain ⟨hself, hargs⟩ := all_nary.1 hf
    refine all_nary.2 ⟨?_, ?_⟩
    · cases op with
      | block => trivial
      | call f =>
        cases f with
        | builtin g =>
          simp only [IsFormed] at hself ⊢
          rwa [← h.length_eq]
        | unresolved name => trivial
    · clear hmap hself hf
      induction h with
      | nil => exact List.forall_mem_nil _
      | cons ha _ ih =>
        obtain ⟨hfa, hfas⟩ := List.forall_mem_cons.1 hargs
        exact List.forall_mem_cons.2 ⟨ha.formed hfa, ih hfas⟩

theorem withMode (e : Expr) (m : Mode) : e.Resembles (e.withMode m) := by
  cases e with
  | leaf n op => exact .leaf _ _ op
  | unary n op a => exact .unary _ _ op (.refl a)
  | binary n op a b => exact .binary _ _ rfl rfl (.refl a) (.refl b)
  | ternary n op a b d => exact .ternary _ _ op (.refl a) (.refl b) (.refl d)
  | nary n op args => exact .nary _ _ op (List.forall₂_same.2 fun a _ => .refl a)

end Resembles

end Expr

namespace Modes
open XPath.Expr

mutual

theorem assign_resembles (unit : CompileUnit) (e : Expr) : e.Resembles (assign unit e) := by
  match e with
  | .leaf n op => exact .refl _
  | .unary n op a => exact .unary n n op (assign_resembles unit a)
  | .binary n op a b =>
    have ha := assign_resembles unit a
    have hb := assign_resembles unit b
    cases op with
    | «let» slot => exact .binary n n rfl rfl (ha.trans (.withMode _ _)) hb
    | _ => exact .binary n n rfl rfl ha hb
  | .ternary n op a b d =>
    exact .ternary n n op (assign_resembles unit a) (assign_resembles unit b) (assign_resembles unit d)
  | .nary n op args => exact .nary n n op (assignList_resembles unit args)

theorem assignList_resembles (unit : CompileUnit) (es : List Expr) :
    List.Forall₂ Resembles es (assignList unit es) := by
  match es with
  | [] => exact .nil
  | e :: es => exact .cons (assign_resembles unit e) (assignList_resembles unit es)

end

theorem withMode_info (e : Expr) (m : Mode) : (e.withMode m).info = e.info := by
  cases e <;> rfl

theorem all_withMode {P : Expr → Prop} {e : Expr} (m : Mode) (h : e.All P) (hself : P (e.withMode m)) :
    (e.withMode m).All P := by
  cases e with
  | leaf n op => exact all_leaf.2 hself
  | unary n op a => exact all_unary.2 ⟨hself, (all_unary.1 h).2⟩
  | binary n op a b => exact all_binary.2 ⟨hself, (all_binary.1 h).2⟩
  | ternary n op a b d => exact all_ternary.2 ⟨hself, (all_ternary.1 h).2⟩
  | nary n op args => exact all_nary.2 ⟨hself, (all_nary.1 h).2⟩

theorem recorded_withMode {e : Expr} (m : Mode) (h : e.Recorded) : (e.withMode m).Recorded := by
  apply all_withMode m h
  rw [withMode_info, (Resembles.withMode e m).effects]
  exact h.self

theorem assign_info (unit : CompileUnit) (e : Expr) : (assign unit e).info = e.info := by
  cases e with
  | binary n op a b => cases op <;> rfl
  | _ => rfl

mutual

/-- A mode changes nothing that is recorded. -/
theorem assign_recorded (unit : CompileUnit) (e : Expr) (h : e.Recorded) : (assign unit e).Recorded := by
  have hself : (assign unit e).info.effects = (assign unit e).effects := by
    rw [assign_info, h.self, (assign_resembles unit e).effects]
  match e with
  | .leaf n op => exact h
  | .unary n op a => exact all_unary.2 ⟨hself, assign_recorded unit a (all_unary.1 h).2⟩
  | .binary n op a b =>
    obtain ⟨_, ha, hb⟩ := all_binary.1 h
    have ha' := assign_recorded unit a ha
    have hb' := assign_recorded unit b hb
    cases op with
    | «let» slot => exact all_binary.2 ⟨hself, recorded_withMode _ ha', hb'⟩
    | _ => exact all_binary.2 ⟨hself, ha', hb'⟩
  | .ternary n op a b d =>
    obtain ⟨_, ha, hb, hd⟩ := all_ternary.1 h
    exact all_ternary.2
      ⟨hself, assign_recorded unit a ha, assign_recorded unit b hb, assign_recorded unit d hd⟩
  | .nary n op args => exact all_nary.2 ⟨hself, assignList_recorded unit args (all_nary.1 h).2⟩

theorem assignList_recorded (unit : CompileUnit) (es : List Expr) (h : ∀ e ∈ es, e.Recorded) :
    ∀ e ∈ assignList unit es, e.Recorded := by
  match es with
  | [] => nofun
  | e :: es =>
    obtain ⟨he, hes⟩ := List.forall_mem_cons.1 h
    exact List.forall_mem_cons.2 ⟨assign_recorded unit e he, assignList_recorded unit es hes⟩

end

end Modes

namespace Typing
open XPath.Expr

variable {context : StaticContext}

theorem bind_resembles {slot : Slot} {source x : Expr} {perItem : Bool} {unit unit' : CompileUnit}
    (h : (bind slot source perItem).run context unit = (.ok x, unit')) : source.Resembles x := by
  have hb := bind_ok h
  split at hb
  · exact hb.1 ▸ .refl _
  · obtain ⟨_, ⟨rfl, _⟩ | rfl⟩ := hb
    · exact .refl _
    · exact .treat _ _ (.refl _)

theorem bindFor_resembles {op : BinaryOp} {source x : Expr} {unit unit' : CompileUnit}
    (h : (bindFor op source).run context unit = (.ok x, unit')) : source.Resembles x := by
  cases op with
  | «for» slot => exact bind_resembles h
  | quantified q slot => exact bind_resembles h
  | «let» slot => exact bind_resembles h
  | _ =>
    cases h
    exact .refl _

mutual

/-- Checking changes neither scopes nor effects. -/
theorem check_resembles (e : Expr) {x : Expr} {unit unit' : CompileUnit}
    (h : (check e).run context unit = (.ok x, unit')) : e.Resembles x := by
  match e with
  | .leaf n op =>
    obtain ⟨rfl, rfl⟩ := inferLeaf_ok h
    exact .leaf _ _ op
  | .unary n op a =>
    obtain ⟨a', unit₁, ha, h⟩ := Pass.run_bind_ok h
    have ia := check_resembles a ha
    obtain ⟨rfl, rfl | ⟨t, rfl, _, rfl⟩⟩ := (inferUnary_returns (.unary n op a') op a').of_run h
    · exact .unary _ _ op ia
    · exact .untreat _ _ ia
  | .binary n op a b =>
    obtain ⟨a', s, b', unit₁, unit₂, ha, hs, hb, rfl⟩ := check_binary_ok h
    have is := (check_resembles a ha).trans (bindFor_resembles hs)
    have ib := check_resembles b hb
    refine .binary _ _ ?_ ?_ is ib
    · cases op <;> rfl
    · cases op <;> rfl
  | .ternary n op a b d =>
    obtain ⟨a', unit₁, ha, h⟩ := Pass.run_bind_ok h
    obtain ⟨b', unit₂, hb, h⟩ := Pass.run_bind_ok h
    obtain ⟨d', unit₃, hd, h⟩ := Pass.run_bind_ok h
    obtain ⟨rfl, rfl⟩ := (inferTernary_returns (.ternary n op a' b' d') op a' b' d').of_run h
    exact .ternary _ _ op (check_resembles a ha) (check_resembles b hb) (check_resembles d hd)
  | .nary n op es =>
    obtain ⟨es', unit₁, hes, h⟩ := Pass.run_bind_ok h
    obtain ⟨rfl, rfl⟩ := (inferNary_returns (.nary n op es') op es').of_run h
    exact .nary _ _ op (checkList_resembles es hes)

theorem checkList_resembles (es : List Expr) {xs : List Expr} {unit unit' : CompileUnit}
    (h : (checkList es).run context unit = (.ok xs, unit')) : List.Forall₂ Resembles es xs := by
  match es with
  | [] =>
    cases h
    exact .nil
  | e :: es =>
    obtain ⟨x, unit₁, he, h⟩ := Pass.run_bind_ok h
    obtain ⟨xs', unit₂, hes, h⟩ := Pass.run_bind_ok h
    cases h
    exact .cons (check_resembles e he) (checkList_resembles es hes)

end

end Typing
end XPath
