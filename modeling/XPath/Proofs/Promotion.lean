import XPath.Optimize.Hoist
import XPath.Proofs.Rewriting

/-! Moving values out of loops keeps an expression firm and every variable in its scope. -/
namespace XPath

/-! Growing: variables may be added. -/

namespace Variables

/-- The same for the variables below a bound, with the same declared types. -/
structure Grows (P : Variables) (n : ℕ) (P' : Variables) : Prop where
  declared : P'.declared = P.declared
  types : ∀ s < n, P'.types s = P.types s

variable {P P' P'' : Variables} {n m : ℕ}

theorem Grows.refl (P : Variables) (n : ℕ) : P.Grows n P := ⟨rfl, fun _ _ => rfl⟩

theorem Grows.trans (h : P.Grows n P') (k : P'.Grows m P'') (hnm : n ≤ m) : P.Grows n P'' where
  declared := k.declared.trans h.declared
  types s hs := (k.types s (hs.trans_le hnm)).trans (h.types s hs)

theorem Grows.takesAll (h : P.Grows n P') {slot : Slot} (hslot : slot < n) {ts : Set SequenceType}
    (ht : P.TakesAll slot ts) : P'.TakesAll slot ts := by
  unfold TakesAll at ht ⊢
  rwa [h.declared, h.types slot hslot]

theorem Grows.takesEach (h : P.Grows n P') {slot : Slot} (hslot : slot < n) {ts : Set SequenceType}
    (ht : P.TakesEach slot ts) : P'.TakesEach slot ts := by
  unfold TakesEach at ht ⊢
  rwa [h.declared, h.types slot hslot]

theorem Grows.sources (h : P.Grows n P') (slot : Slot) (ts : Set SequenceType) :
    P'.sources slot ts = P.sources slot ts := by
  unfold Variables.sources
  rw [h.declared]

theorem Grows.binds (h : P.Grows n P') {op : BinaryOp} (hslot : ∀ s, op.slot? = some s → s < n)
    {A B : Outlook} (hbinds : op.Binds P A B) : op.Binds P' A B := by
  cases op with
  | «let» slot => exact h.takesAll (hslot slot rfl) hbinds
  | «for» slot =>
    refine ⟨h.takesEach (hslot slot rfl) hbinds.1, fun hone => h.takesAll (hslot slot rfl) (hbinds.2.1 hone), ?_⟩
    rw [h.sources]
    exact hbinds.2.2
  | quantified q slot => exact h.takesEach (hslot slot rfl) hbinds
  | _ => trivial

theorem Grows.accounts (h : P.Grows n P') {op : BinaryOp} {A B V : Outlook} (hacc : op.Accounts P A B V) :
    op.Accounts P' A B V := by
  cases op with
  | «for» slot =>
    unfold BinaryOp.Accounts
    dsimp only
    rw [h.sources]
    exact hacc
  | _ => exact hacc

/-- A new variable of given types. -/
def add (P : Variables) (slot : Slot) (types : Set SequenceType) : Variables :=
  { P with types := fun s => if s = slot then types else P.types s }

@[simp] theorem add_types (P : Variables) (slot : Slot) (types : Set SequenceType) :
    (P.add slot types).types slot = types := if_pos rfl

theorem grows_add (P : Variables) (n : ℕ) (types : Set SequenceType) : P.Grows n (P.add n types) where
  declared := rfl
  types _ hs := if_neg (Nat.ne_of_lt hs)

end Variables

namespace Expr
variable {P P' : Variables} {context : StaticContext} {noted : Bool} {n : ℕ}

mutual

/-- Firmness is about the variables that are mentioned. -/
theorem Firm.grow (hg : P.Grows n P') (e : Expr) {V : Outlook} (h : e.Firm P context noted V)
    (hbelow : ∀ s, e.Mentions s → s < n) : e.Firm P' context noted V := by
  match e with
  | leaf m op =>
    refine ⟨h.1, ?_⟩
    have hacc := h.2
    cases op with
    | «variable» r =>
      cases r with
      | range slot =>
        have hslot := hbelow slot (.inl (beq_self_eq_true slot))
        exact ⟨(hg.types slot hslot).symm ▸ hacc.1, hg.declared ▸ hacc.2⟩
      | global m => exact hacc
    | _ => exact hacc
  | unary m op a =>
    obtain ⟨hm, A, ha, hrest⟩ := h
    exact ⟨hm, A, Firm.grow hg a ha hbelow, hrest⟩
  | binary m op a b =>
    obtain ⟨hm, A, B, ha, hb, hleft, hright, hbinds, hacc⟩ := h
    exact ⟨hm, A, B, Firm.grow hg a ha fun s hs => hbelow s (mentions_binary (.inl hs)),
      Firm.grow hg b hb fun s hs => hbelow s (mentions_binary (.inr (.inl hs))), hleft, hright,
      hg.binds (fun s hs => hbelow s (mentions_binary (.inr (.inr hs)))) hbinds, hg.accounts hacc⟩
  | ternary m op a b d =>
    obtain ⟨hm, A, B, D, ha, hb, hd, hacc⟩ := h
    exact ⟨hm, A, B, D, Firm.grow hg a ha fun s hs => hbelow s (mentions_ternary (.inl hs)),
      Firm.grow hg b hb fun s hs => hbelow s (mentions_ternary (.inr (.inl hs))),
      Firm.grow hg d hd fun s hs => hbelow s (mentions_ternary (.inr (.inr hs))), hacc⟩
  | nary m op args =>
    obtain ⟨hm, As, hargs, hrest⟩ := h
    exact ⟨hm, As, FirmList.grow hg args hargs fun a ha s hs => hbelow s (mentions_nary ha hs), hrest⟩

theorem FirmList.grow (hg : P.Grows n P') (es : List Expr) {As : List Outlook}
    (h : FirmList P context noted es As) (hbelow : ∀ e ∈ es, ∀ s, e.Mentions s → s < n) :
    FirmList P' context noted es As := by
  match es, As with
  | [], [] => trivial
  | e :: es, A :: As =>
    obtain ⟨he, hes⟩ := List.forall_mem_cons.1 hbelow
    exact ⟨Firm.grow hg e h.1 he, FirmList.grow hg es h.2 hes⟩

end

end Expr

namespace CompileUnit

/-- Variables have been added, none of them of a declared type. -/
structure Grows (unit unit' : CompileUnit) : Prop where
  size : unit.bindings.size ≤ unit'.bindings.size
  binding : ∀ s < unit.bindings.size, unit'.binding s = unit.binding s
  declared : ∀ s, unit.bindings.size ≤ s → (unit'.binding s).declared = none

variable {unit unit' unit'' : CompileUnit}

theorem declared_of_size_le {s : Slot} (h : unit.bindings.size ≤ s) : (unit.binding s).declared = none := by
  unfold binding
  rw [Array.getElem?_eq_none h]
  rfl

theorem Grows.refl (unit : CompileUnit) : unit.Grows unit :=
  ⟨le_rfl, fun _ _ => rfl, fun _ => declared_of_size_le⟩

theorem Grows.trans (h : unit.Grows unit') (k : unit'.Grows unit'') : unit.Grows unit'' where
  size := h.size.trans k.size
  binding s hs := (k.binding s (hs.trans_le h.size)).trans (h.binding s hs)
  declared s hs := by
    obtain hs' | hs' := lt_or_ge s unit'.bindings.size
    · rw [k.binding s hs']
      exact h.declared s hs
    · exact k.declared s hs'

theorem Grows.knows (h : unit.Grows unit') {P P' : Variables} (hg : P.Grows unit.bindings.size P')
    {known : Set Slot} (hk : P.Knows unit known) (hbelow : ∀ s ∈ known, s < unit.bindings.size) :
    P'.Knows unit' known where
  declared s := by
    rw [hg.declared, ← hk.declared]
    obtain hs | hs := lt_or_ge s unit.bindings.size
    · rw [h.binding s hs]
    · rw [h.declared s hs, declared_of_size_le hs]
  types s hs := by
    unfold typeOf
    rw [h.binding s (hbelow s hs), hg.types s (hbelow s hs)]
    exact hk.types s hs

end CompileUnit

namespace Hoist
open XPath.Expr

theorem grows_move (unit : CompileUnit) (t : SequenceType) :
    unit.Grows ((unit.allocate (.unprefixed "hoisted") .hoisted none).2.setInferred unit.bindings.size t) := by
  have hbinding (s) : ((unit.allocate (.unprefixed "hoisted") .hoisted none).2).binding s =
      if s = unit.bindings.size then ⟨.unprefixed "hoisted", .hoisted, none, .one .item⟩ else unit.binding s := by
    unfold CompileUnit.binding CompileUnit.allocate
    rw [Array.getElem?_push]
    split <;> rfl
  constructor
  · simp [CompileUnit.setInferred, CompileUnit.allocate]
  · intro s hs
    have hne : s ≠ unit.bindings.size := Nat.ne_of_lt hs
    rw [CompileUnit.binding_setInferred, if_neg fun h => hne h.1, hbinding, if_neg hne]
  · intro s hs
    rw [CompileUnit.binding_setInferred]
    split
    · rw [hbinding, if_pos rfl]
    · rw [hbinding]
      split
      · rfl
      · exact CompileUnit.declared_of_size_le hs

/-- One for the variables that are added. -/
def fresh (n m t : ℕ) : ℕ := if n ≤ t ∧ t < m then 1 else 0

theorem fresh_add {n m k : ℕ} (hnm : n ≤ m) (hmk : m ≤ k) (t : ℕ) :
    fresh n m t + fresh m k t = fresh n k t := by
  unfold fresh
  split <;> split <;> split <;> omega

/-- How often moved values bind a variable, the variables that they are bound to included. -/
def bindersOf (moved : List (Slot × Expr)) (t : Slot) : ℕ :=
  (moved.map fun m => (if m.1 = t then 1 else 0) + m.2.binders t).sum

@[simp] theorem bindersOf_nil (t : Slot) : bindersOf [] t = 0 := rfl

@[simp] theorem bindersOf_cons (m : Slot × Expr) (moved : List (Slot × Expr)) (t : Slot) :
    bindersOf (m :: moved) t = (if m.1 = t then 1 else 0) + m.2.binders t + bindersOf moved t :=
  List.sum_cons

@[simp] theorem bindersOf_append (moved moved' : List (Slot × Expr)) (t : Slot) :
    bindersOf (moved ++ moved') t = bindersOf moved t + bindersOf moved' t := by
  simp [bindersOf]

theorem bindersOf_pos {moved : List (Slot × Expr)} {v : Slot × Expr} (hv : v ∈ moved) {t : Slot}
    (h : v.1 = t ∨ 0 < v.2.binders t) : 0 < bindersOf moved t := by
  induction moved with
  | nil => cases hv
  | cons m moved ih =>
    rw [bindersOf_cons]
    obtain rfl | hv := List.mem_cons.1 hv
    · obtain h | h := h
      · simp [h]
      · omega
    · have := ih hv
      omega

/-- Every moved value needs only given variables and those that were moved before it. -/
def Supported (N : Slot → Prop) : List (Slot × Expr) → Prop
  | [] => True
  | m :: moved => (∀ t, m.2.needs t → N t ∨ t ∈ moved.map Prod.fst) ∧ Supported N moved

theorem Supported.mono {N N' : Slot → Prop} {moved : List (Slot × Expr)} (h : Supported N moved)
    (hN : ∀ t, N t → N' t) : Supported N' moved := by
  induction moved with
  | nil => trivial
  | cons m moved ih => exact ⟨fun t ht => (h.1 t ht).imp_left (hN t), ih h.2⟩

/-- What was moved later may need what was moved before. -/
theorem Supported.append {N N' : Slot → Prop} {moved moved' : List (Slot × Expr)}
    (h : Supported N' moved') (hN : ∀ t, N' t → N t ∨ t ∈ moved.map Prod.fst) (hm : Supported N moved) :
    Supported N (moved' ++ moved) := by
  induction moved' with
  | nil => exact hm
  | cons m moved' ih =>
    refine ⟨fun t ht => ?_, ih h.2⟩
    change N t ∨ t ∈ (moved' ++ moved).map Prod.fst
    rw [List.map_append, List.mem_append]
    obtain ht | ht := h.1 t ht
    · exact (hN t ht).imp_right .inr
    · exact .inr (.inl ht)

/-- What is moved needs given variables only, and nothing is bound twice. -/
structure Relocated (N : Slot → Prop) (n m : ℕ) (moved : List (Slot × Expr)) (b b' : Slot → ℕ) : Prop where
  supported : Supported N moved
  binders : ∀ t, b' t + bindersOf moved t ≤ b t + fresh n m t

namespace Relocated
variable {N N' : Slot → Prop} {n m k : ℕ} {moved moved' : List (Slot × Expr)} {b b' d d' : Slot → ℕ}

theorem refl (N : Slot → Prop) (n : ℕ) (b : Slot → ℕ) : Relocated N n n [] b b :=
  ⟨trivial, fun t => by simp [fresh]⟩

theorem mono (h : Relocated N n m moved b b') (hN : ∀ t, N t → N' t) : Relocated N' n m moved b b' :=
  ⟨h.supported.mono hN, h.binders⟩

theorem seq (h : Relocated N n m moved b b') (k' : Relocated N m k moved' d d') (hnm : n ≤ m) (hmk : m ≤ k) :
    Relocated N n k (moved' ++ moved) (fun t => b t + d t) (fun t => b' t + d' t) where
  supported := k'.supported.append (fun _ => .inl) h.supported
  binders t := by
    have := h.binders t
    have := k'.binders t
    have := fresh_add hnm hmk t
    simp only [bindersOf_append]
    omega

theorem add (h : Relocated N n m moved b b') (d : Slot → ℕ) :
    Relocated N n m moved (fun t => d t + b t) (fun t => d t + b' t) where
  supported := h.supported
  binders t := by
    have := h.binders t
    omega

/-- The variables that are bound are among those that were bound, or they are new. -/
theorem bound_below (h : Relocated N n m moved b b') (hb : ∀ t, 0 < b t → t < n) (hnm : n ≤ m) {t : Slot}
    (ht : 0 < b' t + bindersOf moved t) : t < m := by
  have := h.binders t
  by_contra hm
  have hzero : b t = 0 := by
    by_contra hbt
    exact hm ((hb t (Nat.pos_of_ne_zero hbt)).trans_le hnm)
  have hfresh : fresh n m t = 0 := if_neg fun h => hm h.2
  omega

theorem slot_below (h : Relocated N n m moved b b') (hb : ∀ t, 0 < b t → t < n) (hnm : n ≤ m) {t : Slot}
    (ht : t ∈ moved.map Prod.fst) : t < m := by
  obtain ⟨v, hv, hvt⟩ := List.mem_map.1 ht
  have := bindersOf_pos hv (.inl hvt)
  exact h.bound_below hb hnm (by omega)

/-- What is moved mentions variables that there were, or new ones. -/
theorem value_below (h : Relocated N n m moved b b') (hN : ∀ t, N t → t < n) (hb : ∀ t, 0 < b t → t < n)
    (hnm : n ≤ m) {v : Slot × Expr} (hv : v ∈ moved) {t : Slot} (ht : v.2.Mentions t) : t < m := by
  obtain ht | ht := ht
  · have hsupported : N t ∨ t ∈ moved.map Prod.fst := by
      have hs := h.supported
      clear h
      induction moved with
      | nil => cases hv
      | cons m moved ih =>
        rw [List.map_cons, List.mem_cons]
        obtain rfl | hv := List.mem_cons.1 hv
        · exact (hs.1 t ht).imp_right .inr
        · exact (ih hv hs.2).imp_right .inr
    exact hsupported.elim (fun ht => (hN t ht).trans_le hnm) (h.slot_below hb hnm)
  · have := bindersOf_pos hv (.inr (mem_boundSlots.1 ht))
    exact h.bound_below hb hnm (by omega)

end Relocated

/-- How often expressions bind a variable, all together. -/
def bindersAll (es : List Expr) (t : Slot) : ℕ := (es.map (binders · t)).sum

@[simp] theorem bindersAll_nil (t : Slot) : bindersAll [] t = 0 := rfl

@[simp] theorem bindersAll_cons (e : Expr) (es : List Expr) (t : Slot) :
    bindersAll (e :: es) t = e.binders t + bindersAll es t :=
  List.sum_cons

/-- Values that their variables can be bound to. -/
def ValuesFirm (P : Variables) (context : StaticContext) (moved : List (Slot × Expr)) : Prop :=
  ∀ v ∈ moved, ∃ W, v.2.Firm P context false W ∧ P.TakesAll v.1 W.types

/-- Expressions of which some parts are moved. New variables may be added for them. -/
structure Moves (context : StaticContext) (N : Slot → Prop) (unit unit' : CompileUnit)
    (moved : List (Slot × Expr)) (es es' : List Expr) : Prop where
  grows : unit.Grows unit'
  needs : List.Forall₂ (fun e e' => ∀ t, e'.needs t → e.needs t ∨ t ∈ moved.map Prod.fst) es es'
  relocated : Relocated N unit.bindings.size unit'.bindings.size moved (bindersAll es) (bindersAll es')
  firm : ∀ {P : Variables} {noted As}, (∀ s, unit.bindings.size ≤ s → P.declared s = none) →
    FirmList P context noted es As → ∃ P', P.Grows unit.bindings.size P' ∧
      FirmList P' context false es' As ∧ ValuesFirm P' context moved

namespace Moves
variable {context : StaticContext} {N : Slot → Prop} {unit unit' unit'' : CompileUnit}
  {moved moved' : List (Slot × Expr)} {es es' : List Expr} {e e' : Expr}

theorem nil (context : StaticContext) (N : Slot → Prop) (unit : CompileUnit) :
    Moves context N unit unit [] [] [] where
  grows := .refl unit
  needs := .nil
  relocated := .refl N _ _
  firm {P _ As} _ h := by
    cases As with
    | nil => exact ⟨P, .refl P _, trivial, nofun⟩
    | cons A As => exact h.elim

theorem mono (h : Moves context N unit unit' moved es es') (N' : Slot → Prop) (hN : ∀ t, N t → N' t) :
    Moves context N' unit unit' moved es es' :=
  ⟨h.grows, h.needs, h.relocated.mono hN, h.firm⟩

theorem cons (h : Moves context N unit unit' moved [e] [e'])
    (k : Moves context N unit' unit'' moved' es es') (hN : ∀ t, N t → t < unit.bindings.size)
    (he : ∀ t, e.Mentions t → t < unit.bindings.size)
    (hes : ∀ a ∈ es, ∀ t, a.Mentions t → t < unit.bindings.size) :
    Moves context N unit unit'' (moved' ++ moved) (e :: es) (e' :: es') where
  grows := h.grows.trans k.grows
  needs := by
    simp only [List.map_append, List.mem_append]
    refine .cons (fun t ht => ?_) (k.needs.imp fun a a' ha t ht => (ha t ht).imp_right .inl)
    obtain _ | ⟨hneeds, _⟩ := h.needs
    exact (hneeds t ht).imp_right .inr
  relocated := by
    have hk := h.relocated.seq k.relocated h.grows.size k.grows.size
    exact ⟨hk.supported, fun t => by simpa using hk.binders t⟩
  firm {P noted As} hP hfirm := by
    cases As with
    | nil => exact hfirm.elim
    | cons A As =>
      have hbound (t) (ht : 0 < bindersAll [e] t) : t < unit.bindings.size := by
        refine he t (.inr (mem_boundSlots.2 ?_))
        simpa using ht
      obtain ⟨P₁, hg₁, ⟨he', _⟩, hv₁⟩ := h.firm hP (show FirmList P context noted [e] [A] from ⟨hfirm.1, trivial⟩)
      obtain ⟨P₂, hg₂, hes', hv₂⟩ := k.firm (fun s hs => hg₁.declared ▸ hP s (h.grows.size.trans hs))
        (FirmList.grow hg₁ es hfirm.2 hes)
      refine ⟨P₂, hg₁.trans hg₂ h.grows.size, ⟨Firm.grow hg₂ e' he' fun t ht => ?_, hes'⟩,
        List.forall_mem_append.2 ⟨hv₂, fun v hv => ?_⟩⟩
      · obtain ht | ht := ht
        · obtain _ | ⟨hneeds, _⟩ := h.needs
          exact (hneeds t ht).elim (fun ht => (he t (.inl ht)).trans_le h.grows.size)
            (h.relocated.slot_below hbound h.grows.size)
        · refine h.relocated.bound_below hbound h.grows.size ?_
          have := mem_boundSlots.1 ht
          simp only [bindersAll_cons]
          omega
      · obtain ⟨W, hw, ht⟩ := hv₁ v hv
        exact ⟨W, Firm.grow hg₂ v.2 hw fun t => h.relocated.value_below hN hbound h.grows.size hv,
          hg₂.takesAll (h.relocated.slot_below hbound h.grows.size (List.mem_map_of_mem hv)) ht⟩

/-- Moving parts of the operands moves parts of the operation. -/
theorem node (h : Moves context N unit unit' moved es es') (d : Slot → ℕ)
    (hb : ∀ t, e.binders t = d t + bindersAll es t) (hb' : ∀ t, e'.binders t = d t + bindersAll es' t)
    (hneeds : ∀ t, e'.needs t → e.needs t ∨ t ∈ moved.map Prod.fst)
    (hfirm : ∀ {P noted V}, e.Firm P context noted V → ∃ As, FirmList P context noted es As ∧
      ∀ {P'}, P.Grows unit.bindings.size P' → FirmList P' context false es' As →
        e'.Firm P' context false V) :
    Moves context N unit unit' moved [e] [e'] where
  grows := h.grows
  needs := .cons hneeds .nil
  relocated := by
    have hd := h.relocated.add d
    exact ⟨hd.supported, fun t => by simpa [hb, hb'] using hd.binders t⟩
  firm {P noted As} hP he := by
    obtain _ | ⟨V, _ | _⟩ := As
    · exact he.elim
    · obtain ⟨Bs, hes, hnode⟩ := hfirm he.1
      obtain ⟨P', hg, hes', hvalues⟩ := h.firm hP hes
      exact ⟨P', hg, ⟨hnode hg hes', trivial⟩, hvalues⟩
    · exact he.2.elim

variable {a a' b b' d d' : Expr} (n : Note)

theorem unary (op : UnaryOp) (h : Moves context N unit unit' moved [a] [a']) :
    Moves context N unit unit' moved [.unary n op a] [.unary n op a'] := by
  obtain _ | ⟨hneeds, _⟩ := h.needs
  refine h.node (fun _ => 0) (fun t => by simp) (fun t => by simp)
    (fun t ht => hneeds t (by simpa [Expr.needs] using ht)) fun he => ?_
  obtain ⟨_, A, ha, hrest⟩ := he
  exact ⟨[A], ⟨ha, trivial⟩, fun _ ha' => ⟨marked_of_unnoted, A, ha'.1, hrest⟩⟩

theorem binary {op : BinaryOp} (h : Moves context N unit unit' moved [a, b] [a', b'])
    (hslot : ∀ s, op.slot? = some s → s < unit.bindings.size) :
    Moves context N unit unit' moved [.binary n op a b] [.binary n op a' b'] := by
  obtain _ | ⟨hna, _ | ⟨hnb, _⟩⟩ := h.needs
  refine h.node (fun t => if op.slot? = some t then 1 else 0) (fun t => by simp) (fun t => by simp)
    (fun t ht => ?_) fun he => ?_
  · simp only [Expr.needs, Bool.or_eq_true, Bool.and_eq_true] at ht ⊢
    obtain ht | ⟨ht, hne⟩ := ht
    · exact (hna t ht).imp_left .inl
    · exact (hnb t ht).imp_left fun ht => .inr ⟨ht, hne⟩
  · obtain ⟨_, A, B, ha, hb, hleft, hright, hbinds, hacc⟩ := he
    exact ⟨[A, B], ⟨ha, hb, trivial⟩, fun hg hes' => ⟨marked_of_unnoted, A, B, hes'.1, hes'.2.1, hleft, hright,
      hg.binds hslot hbinds, hg.accounts hacc⟩⟩

theorem ternary (op : TernaryOp) (h : Moves context N unit unit' moved [a, b, d] [a', b', d']) :
    Moves context N unit unit' moved [.ternary n op a b d] [.ternary n op a' b' d'] := by
  obtain _ | ⟨hna, _ | ⟨hnb, _ | ⟨hnd, _⟩⟩⟩ := h.needs
  refine h.node (fun _ => 0) (fun t => by simp) (fun t => by simp) (fun t ht => ?_) fun he => ?_
  · simp only [Expr.needs, Bool.or_eq_true] at ht ⊢
    obtain (ht | ht) | ht := ht
    · exact (hna t ht).imp_left fun ht => .inl (.inl ht)
    · exact (hnb t ht).imp_left fun ht => .inl (.inr ht)
    · exact (hnd t ht).imp_left .inr
  · obtain ⟨_, A, B, D, ha, hb, hd, hacc⟩ := he
    exact ⟨[A, B, D], ⟨ha, hb, hd, trivial⟩,
      fun _ hes' => ⟨marked_of_unnoted, A, B, D, hes'.1, hes'.2.1, hes'.2.2.1, hacc⟩⟩

theorem nary (op : NaryOp) (h : Moves context N unit unit' moved es es') :
    Moves context N unit unit' moved [.nary n op es] [.nary n op es'] := by
  refine h.node (fun _ => 0) (fun t => by simp [bindersAll]) (fun t => by simp [bindersAll])
    (fun t ht => ?_) fun he => ?_
  · have hneeds := h.needs
    simp only [Expr.needs] at ht ⊢
    generalize moved.map Prod.fst = slots at hneeds
    clear h
    induction hneeds with
    | nil => cases ht
    | cons ha _ ih =>
      simp only [needsList, Bool.or_eq_true] at ht ⊢
      obtain ht | ht := ht
      · exact (ha t ht).imp_left .inl
      · exact (ih ht).imp_left .inr
  · obtain ⟨_, As, hargs, hrest⟩ := he
    exact ⟨As, hargs, fun _ hes' => ⟨marked_of_unnoted, As, hes', hrest⟩⟩

/-- Nothing is moved. -/
theorem refl (context : StaticContext) (N : Slot → Prop) (unit : CompileUnit) (e : Expr) :
    Moves context N unit unit [] [e] [e] where
  grows := .refl unit
  needs := .cons (fun _ => .inl) .nil
  relocated := .refl N _ _
  firm {P} _ _ _ h := ⟨P, .refl P _, FirmList.unmark [e] h, nofun⟩

end Moves

theorem not_forbidden {forbidden : List Slot} {e : Expr} (hbound : WellBound [e])
    (haccepts : accepts forbidden e) {t : Slot} (ht : e.needs t) : t ∉ forbidden := by
  have hscoped : e.IsScoped := fun s hs hmem =>
    hbound.inScope e List.mem_cons_self s hs (by simpa using hmem)
  simp only [accepts, Bool.and_eq_true, List.all_eq_true] at haccepts
  have := haccepts.2 t (hscoped.mem_freeSlots ht)
  simpa using this

/-- An expression that is accepted is moved as a whole. -/
theorem move_moves (context : StaticContext) {forbidden : List Slot} {e : Expr} (hbound : WellBound [e])
    (haccepts : accepts forbidden e) (s : State) (hbelow : ∀ t, e.Mentions t → t < s.unit.bindings.size) :
    Moves context (fun t => e.needs t ∧ t ∉ forbidden) s.unit ((move e).run s).2.unit
      [(s.unit.bindings.size, e)] [e] [((move e).run s).1] where
  grows := grows_move s.unit e.type
  needs := .cons (fun t ht => .inr (List.mem_singleton.2 (eq_of_beq ht).symm)) .nil
  relocated := by
    have hsize : ((move e).run s).2.unit.bindings.size = s.unit.bindings.size + 1 :=
      (Array.size_modify).trans (Array.size_push _)
    refine ⟨⟨fun t ht => .inl ⟨ht, not_forbidden hbound haccepts ht⟩, trivial⟩, fun t => ?_⟩
    rw [hsize]
    have hleaf : (((move e).run s).1).binders t = 0 := rfl
    simp only [bindersAll_cons, bindersAll_nil, bindersOf_cons, bindersOf_nil, hleaf, fresh]
    by_cases heq : s.unit.bindings.size = t
    · subst heq
      simp
      omega
    · rw [if_neg heq]
      omega
  firm {P noted As} hP he := by
    obtain _ | ⟨V, _ | _⟩ := As
    · exact he.elim
    · refine ⟨P.add s.unit.bindings.size V.types, P.grows_add _ _, ⟨⟨marked_of_unnoted, ?_, ?_⟩, trivial⟩, ?_⟩
      · exact (P.add_types _ _).subset
      · intro hd
        have hnone : (P.add s.unit.bindings.size V.types).declared s.unit.bindings.size = none :=
          hP _ (Nat.le_refl _)
        rw [hnone] at hd
        cases hd
      · refine List.forall_mem_singleton.2 ⟨V, ?_, ?_⟩
        · exact Firm.unmark e (Firm.grow (P.grows_add _ _) e he.1 hbelow)
        · unfold Variables.TakesAll
          rw [show (P.add s.unit.bindings.size V.types).declared s.unit.bindings.size = none from
            hP _ (Nat.le_refl _)]
          exact (P.add_types _ _).superset
    · exact he.2.elim

/-- A let that moves on binds its variable outside of what is left. -/
theorem let_moves {context : StaticContext} {forbidden : List Slot} {unit unit' : CompileUnit}
    {moved : List (Slot × Expr)} {n : Note} {slot : Slot} {a b b' : Expr}
    (hbound : WellBound [.binary n (.let slot) a b]) (haccepts : accepts forbidden a)
    (hbelow : ∀ t, (Expr.binary n (.let slot) a b).Mentions t → t < unit.bindings.size)
    (h : Moves context (fun t => b.needs t ∧ t ∉ forbidden) unit unit' moved [b] [b']) :
    Moves context (fun t => (Expr.binary n (.let slot) a b).needs t ∧ t ∉ forbidden) unit unit'
      (moved ++ [(slot, a)]) [.binary n (.let slot) a b] [b'] where
  grows := h.grows
  needs := by
    obtain _ | ⟨hneeds, _⟩ := h.needs
    refine .cons (fun t ht => ?_) .nil
    simp only [List.map_append, List.map_cons, List.map_nil, List.mem_append, List.mem_singleton]
    by_cases heq : t = slot
    · exact .inr (.inr heq)
    · obtain ht | ht := hneeds t ht
      · exact .inl (by simp [Expr.needs, BinaryOp.slot?, ht, Ne.symm heq])
      · exact .inr (.inl ht)
  relocated := by
    constructor
    · refine h.relocated.supported.append (fun t ht => ?_) ⟨fun t ht => .inl ?_, trivial⟩
      · by_cases heq : t = slot
        · exact .inr (by simp [heq])
        · exact .inl ⟨by simp [Expr.needs, BinaryOp.slot?, ht.1, Ne.symm heq], ht.2⟩
      · exact ⟨by simp [Expr.needs, ht], not_forbidden hbound.binary.head haccepts ht⟩
    · intro t
      have := h.relocated.binders t
      simp only [bindersAll_cons, bindersAll_nil, bindersOf_append, bindersOf_cons, bindersOf_nil,
        binders_binary, BinaryOp.slot?, Option.some_inj] at this ⊢
      omega
  firm {P noted As} hP he := by
    obtain _ | ⟨V, _ | _⟩ := As
    · exact he.elim
    · obtain ⟨_, A, B, ha, hb, _, _, htakes, hacc⟩ := he.1
      obtain ⟨P', hg, hb', hvalues⟩ := h.firm hP (show FirmList P context noted [b] [B] from ⟨hb, trivial⟩)
      refine ⟨P', hg, ⟨hb'.1.mono hacc, trivial⟩, List.forall_mem_append.2 ⟨hvalues, ?_⟩⟩
      refine List.forall_mem_singleton.2 ⟨A, ?_, ?_⟩
      · exact Firm.unmark a (Firm.grow hg a ha fun t ht => hbelow t (mentions_binary (.inl ht)))
      · exact hg.takesAll (hbelow slot (mentions_binary (.inr (.inr rfl)))) htakes
    · exact he.2.elim

/-- What collecting does to an expression. -/
def Collects (context : StaticContext) (forbidden : List Slot) (e : Expr) (p : StateM State Expr) : Prop :=
  ∀ s, (∀ t, e.Mentions t → t < s.unit.bindings.size) → ∃ moved, (p.run s).2.moved = moved ++ s.moved ∧
    Moves context (fun t => e.needs t ∧ t ∉ forbidden) s.unit (p.run s).2.unit moved [e] [(p.run s).1]

theorem collects_pure (context : StaticContext) (forbidden : List Slot) (e : Expr) :
    Collects context forbidden e (pure e) :=
  fun s _ => ⟨[], rfl, .refl context _ s.unit e⟩

theorem collects_binary {context : StaticContext} {forbidden inner : List Slot} {n : Note} {op : BinaryOp}
    {a b : Expr} {p q : StateM State Expr} (ha : Collects context inner a p) (hb : Collects context inner b q)
    (hinner : ∀ t, t ∉ inner → t ∉ forbidden ∧ op.slot? ≠ some t) :
    Collects context forbidden (.binary n op a b) (do let a ← p; return .binary n op a (← q)) := by
  intro s hbelow
  have hbelow_a (t) (ht : a.Mentions t) := hbelow t (mentions_binary (.inl ht))
  have hbelow_b (t) (ht : b.Mentions t) := hbelow t (mentions_binary (.inr (.inl ht)))
  obtain ⟨moved, hm, ha⟩ := ha s hbelow_a
  obtain ⟨moved', hm', hb⟩ := hb (p.run s).2 fun t ht => (hbelow_b t ht).trans_le ha.grows.size
  have ha' := ha.mono (fun t => (Expr.binary n op a b).needs t ∧ t ∉ forbidden)
    fun t ht => ⟨by simp [needs, ht.1], (hinner t ht.2).1⟩
  have hb' := hb.mono (fun t => (Expr.binary n op a b).needs t ∧ t ∉ forbidden)
    fun t ht => ⟨by simp [needs, ht.1, (hinner t ht.2).2], (hinner t ht.2).1⟩
  refine ⟨moved' ++ moved, by rw [List.append_assoc, ← hm]; exact hm', ?_⟩
  refine (ha'.cons hb' (fun t ht => hbelow t (.inl ht.1)) hbelow_a ?_).binary n
    fun t ht => hbelow t (mentions_binary (.inr (.inr ht)))
  exact List.forall_mem_singleton.2 hbelow_b

/-- A let of a variable that was hoisted moves on; any other let is a node like all others. -/
theorem collects_let {context : StaticContext} {forbidden : List Slot} {n : Note} {slot : Slot} {a b : Expr}
    {p q : StateM State Expr} (hbound : WellBound [.binary n (.let slot) a b])
    (hb : Collects context forbidden b p) (hq : Collects context forbidden (.binary n (.let slot) a b) q) :
    Collects context forbidden (.binary n (.let slot) a b) (do
      if (← isHoisted slot) && accepts forbidden a then
        modify fun s => { s with moved := (slot, a) :: s.moved }
        p
      else q) := by
  intro s hbelow
  by_cases hs : decide ((s.unit.binding slot).kind = .hoisted) && accepts forbidden a
  · have hrun : StateT.run (do
        if (← isHoisted slot) && accepts forbidden a then
          modify fun s => { s with moved := (slot, a) :: s.moved }
          p
        else q) s = p.run { s with moved := (slot, a) :: s.moved } := by
      change (if decide ((s.unit.binding slot).kind = .hoisted) && accepts forbidden a then _ else _ : StateM State Expr).run s = _
      rw [if_pos hs]
      rfl
    rw [hrun]
    obtain ⟨moved, hm, hb⟩ := hb { s with moved := (slot, a) :: s.moved }
      fun t ht => hbelow t (mentions_binary (.inr (.inl ht)))
    refine ⟨moved ++ [(slot, a)], ?_, let_moves hbound (Bool.and_eq_true_iff.1 hs).2 hbelow hb⟩
    exact hm.trans (List.append_cons ..)
  · have hrun : StateT.run (do
        if (← isHoisted slot) && accepts forbidden a then
          modify fun s => { s with moved := (slot, a) :: s.moved }
          p
        else q) s = q.run s := by
      change (if decide ((s.unit.binding slot).kind = .hoisted) && accepts forbidden a then _ else _ : StateM State Expr).run s = _
      rw [if_neg hs]
    rw [hrun]
    exact hq s hbelow

/-- The same for a list of expressions. -/
def CollectsList (context : StaticContext) (forbidden : List Slot) (es : List Expr)
    (p : StateM State (List Expr)) : Prop :=
  ∀ s, (∀ e ∈ es, ∀ t, e.Mentions t → t < s.unit.bindings.size) → ∃ moved,
    (p.run s).2.moved = moved ++ s.moved ∧
      Moves context (fun t => (∃ e ∈ es, e.needs t) ∧ t ∉ forbidden) s.unit (p.run s).2.unit moved es
        (p.run s).1

theorem collectsList_nil (context : StaticContext) (forbidden : List Slot) :
    CollectsList context forbidden [] (pure []) :=
  fun s _ => ⟨[], rfl, .nil context _ s.unit⟩

theorem collectsList_cons {context : StaticContext} {forbidden : List Slot} {e : Expr} {es : List Expr}
    {p : StateM State Expr} {q : StateM State (List Expr)} (he : Collects context forbidden e p)
    (hes : CollectsList context forbidden es q) :
    CollectsList context forbidden (e :: es) (do let e ← p; return e :: (← q)) := by
  intro s hbelow
  obtain ⟨hbelow_e, hbelow_es⟩ := List.forall_mem_cons.1 hbelow
  obtain ⟨moved, hm, he⟩ := he s hbelow_e
  obtain ⟨moved', hm', hes⟩ := hes (p.run s).2 fun a ha t ht => (hbelow_es a ha t ht).trans_le he.grows.size
  have he' := he.mono (fun t => (∃ a ∈ e :: es, a.needs t) ∧ t ∉ forbidden)
    fun t ht => ⟨⟨e, List.mem_cons_self, ht.1⟩, ht.2⟩
  have hes' := hes.mono (fun t => (∃ a ∈ e :: es, a.needs t) ∧ t ∉ forbidden)
    fun t ⟨⟨a, ha, ht⟩, hf⟩ => ⟨⟨a, List.mem_cons_of_mem e ha, ht⟩, hf⟩
  refine ⟨moved' ++ moved, by rw [List.append_assoc, ← hm]; exact hm', ?_⟩
  exact he'.cons hes' (fun t ⟨⟨a, ha, ht⟩, _⟩ => hbelow a ha t (.inl ht)) hbelow_e hbelow_es

theorem collects_unary {context : StaticContext} {forbidden : List Slot} {a : Expr}
    {p : StateM State Expr} (n : Note) (op : UnaryOp) (ha : Collects context forbidden a p) :
    Collects context forbidden (.unary n op a) (do return .unary n op (← p)) := by
  intro s hbelow
  obtain ⟨moved, hm, ha⟩ := ha s hbelow
  exact ⟨moved, hm, (ha.unary n op).mono _ fun t ht => ht⟩

theorem CollectsList.ternary {context : StaticContext} {forbidden : List Slot} {a b d : Expr}
    {p q r : StateM State Expr} (n : Note) (op : TernaryOp) (h : CollectsList context forbidden [a, b, d]
      (do let a ← p; let b ← q; return [a, b, ← r])) :
    Collects context forbidden (.ternary n op a b d)
      (do let a ← p; let b ← q; return .ternary n op a b (← r)) := by
  intro s hbelow
  obtain ⟨moved, hm, hmoves⟩ := h s fun e he t ht => hbelow t (mentions_ternary (by
    simp only [List.mem_cons, List.not_mem_nil, or_false] at he
    obtain rfl | rfl | rfl := he <;> simp [ht]))
  refine ⟨moved, hm, (hmoves.ternary n op).mono _ fun t ⟨⟨e, he, ht⟩, hf⟩ => ⟨?_, hf⟩⟩
  simp only [List.mem_cons, List.not_mem_nil, or_false] at he
  obtain rfl | rfl | rfl := he <;> simp [needs, ht]

theorem CollectsList.nary {context : StaticContext} {forbidden : List Slot} {es : List Expr}
    {p : StateM State (List Expr)} (n : Note) (op : NaryOp) (h : CollectsList context forbidden es p) :
    Collects context forbidden (.nary n op es) (do return .nary n op (← p)) := by
  intro s hbelow
  obtain ⟨moved, hm, hmoves⟩ := h s fun e he t ht => hbelow t (mentions_nary he ht)
  refine ⟨moved, hm, (hmoves.nary n op).mono _ fun t ⟨hneeds, hf⟩ => ⟨?_, hf⟩⟩
  rw [needs]
  exact needsList_iff.2 hneeds

mutual

/-- Collecting moves values that can be evaluated outside, and leaves the rest firm. -/
theorem collect_collects (context : StaticContext) (forbidden : List Slot) (e : Expr)
    (hbound : WellBound [e]) : Collects context forbidden e (collect forbidden e) := by
  have hmove (haccepts : accepts forbidden e) : Collects context forbidden e (move e) :=
    fun s hbelow => ⟨_, rfl, move_moves context hbound haccepts s hbelow⟩
  match e with
  | .leaf n op =>
    unfold collect
    split
    · next h => exact hmove h
    · exact collects_pure context forbidden _
  | .unary n op a =>
    unfold collect
    split
    · next h => exact hmove h
    · exact collects_unary n op (collect_collects context forbidden a hbound.unary)
  | .binary n op a b =>
    have ha (inner) := collect_collects context inner a hbound.binary.head
    have hb (inner) := collect_collects context inner b hbound.binary.tail
    have hself (hop : op.slot? = none) : Collects context forbidden (.binary n op a b)
        (do let a ← collect forbidden a; return .binary n op a (← collect forbidden b)) :=
      collects_binary (ha forbidden) (hb forbidden) fun t ht => ⟨ht, by rw [hop]; exact nofun⟩
    have hbinder {slot : Slot} (hop : op.slot? = some slot) : Collects context forbidden (.binary n op a b)
        (do
          let a ← collect (slot :: forbidden) a
          return .binary n op a (← collect (slot :: forbidden) b)) := by
      refine collects_binary (ha (slot :: forbidden)) (hb (slot :: forbidden)) fun t ht => ?_
      rw [List.mem_cons, not_or] at ht
      exact ⟨ht.2, fun heq => ht.1 (Option.some.inj (heq.symm.trans hop))⟩
    unfold collect
    split
    · next h => exact hmove h
    · cases op with
      | «let» slot => exact collects_let hbound (hb forbidden) (hbinder rfl)
      | «for» slot => exact hbinder rfl
      | quantified q slot => exact hbinder rfl
      | _ => exact hself rfl
  | .ternary n op a b d =>
    have habd := hbound.ternary
    unfold collect
    split
    · next h => exact hmove h
    · exact CollectsList.ternary n op (collectsList_cons (collect_collects context forbidden a habd.head)
        (collectsList_cons (collect_collects context forbidden b habd.tail.head)
          (collectsList_cons (collect_collects context forbidden d habd.tail.tail)
            (collectsList_nil context forbidden))))
  | .nary n op es =>
    unfold collect
    split
    · next h => exact hmove h
    · exact (collectList_collects context forbidden es hbound.nary).nary n op

theorem collectList_collects (context : StaticContext) (forbidden : List Slot) (es : List Expr)
    (hbound : WellBound es) : CollectsList context forbidden es (collectList forbidden es) := by
  match es with
  | [] => exact collectsList_nil context forbidden
  | e :: es =>
    exact collectsList_cons (collect_collects context forbidden e hbound.head)
      (collectList_collects context forbidden es hbound.tail)

end

/-! Binding what was moved around the place that it was moved out of. -/

section Wrap
variable {P : Variables} {context : StaticContext} {N : Slot → Prop} {moved : List (Slot × Expr)}
  {site : Expr} {V : Outlook}

theorem wrap_firm (hvalues : ValuesFirm P context moved) (hsite : site.Firm P context false V) :
    (wrap moved site).Firm P context false V := by
  unfold wrap
  generalize site.location = at'
  induction moved generalizing site with
  | nil => exact hsite
  | cons m moved ih =>
    obtain ⟨⟨W, hw, htakes⟩, hvalues⟩ := List.forall_mem_cons.1 hvalues
    exact ih hvalues ⟨marked_of_unnoted, W, V, hw, hsite, fun _ _ => trivial, fun _ _ => trivial, htakes, .refl V⟩

theorem wrap_needs (h : Supported N moved) {t : Slot} (ht : (wrap moved site).needs t) :
    N t ∨ site.needs t ∧ t ∉ moved.map Prod.fst := by
  unfold wrap at ht
  generalize site.location = at' at ht
  induction moved generalizing site with
  | nil => exact .inr ⟨ht, List.not_mem_nil⟩
  | cons m moved ih =>
    rw [List.map_cons, List.mem_cons, not_or]
    obtain hN | ⟨hlet, hmoved⟩ := ih h.2 ht
    · exact .inl hN
    · simp only [mkBinary, needs, BinaryOp.slot?, Bool.or_eq_true, Bool.and_eq_true, bne_iff_ne, ne_eq,
        Option.some_inj] at hlet
      obtain hvalue | ⟨hsite, hne⟩ := hlet
      · exact .inl ((h.1 t hvalue).resolve_right hmoved)
      · exact .inr ⟨hsite, fun heq => hne heq.symm, hmoved⟩

theorem wrap_binders (moved : List (Slot × Expr)) (site : Expr) (t : Slot) :
    (wrap moved site).binders t = site.binders t + bindersOf moved t := by
  unfold wrap
  generalize site.location = at'
  induction moved generalizing site with
  | nil => rfl
  | cons m moved ih =>
    rw [List.foldl_cons, ih]
    simp only [mkBinary, binders_binary, BinaryOp.slot?, Option.some_inj, bindersOf_cons]
    omega

end Wrap

namespace Moves
variable {context : StaticContext} {N : Slot → Prop} {unit unit' unit'' : CompileUnit}
  {moved : List (Slot × Expr)} {e e' e'' : Expr}

/-- Nothing is left to be bound. -/
theorem wrap (h : Moves context N unit unit' moved [e] [e']) (hN : ∀ t, N t → e.needs t)
    (N' : Slot → Prop) : Moves context N' unit unit' [] [e] [Hoist.wrap moved e'] where
  grows := h.grows
  needs := by
    obtain _ | ⟨hneeds, _⟩ := h.needs
    refine .cons (fun t ht => .inl ?_) .nil
    obtain ht | ⟨ht, hmoved⟩ := wrap_needs h.relocated.supported ht
    · exact hN t ht
    · exact (hneeds t ht).resolve_right hmoved
  relocated := by
    refine ⟨trivial, fun t => ?_⟩
    simpa [wrap_binders] using h.relocated.binders t
  firm {P noted As} hP he := by
    obtain _ | ⟨V, _ | _⟩ := As
    · exact he.elim
    · obtain ⟨P', hg, he', hvalues⟩ := h.firm hP he
      exact ⟨P', hg, ⟨wrap_firm hvalues he'.1, trivial⟩, nofun⟩
    · exact he.2.elim

theorem trans (h : Moves context N unit unit' [] [e] [e']) (k : Moves context N unit' unit'' [] [e'] [e'']) :
    Moves context N unit unit'' [] [e] [e''] where
  grows := h.grows.trans k.grows
  needs := by
    obtain _ | ⟨hneeds, _⟩ := h.needs
    obtain _ | ⟨kneeds, _⟩ := k.needs
    exact .cons (fun t ht => (kneeds t ht).imp_left fun ht => (hneeds t ht).resolve_right nofun) .nil
  relocated := by
    refine ⟨trivial, fun t => ?_⟩
    have := h.relocated.binders t
    have := k.relocated.binders t
    have := fresh_add h.grows.size k.grows.size t
    simp only [bindersAll_cons, bindersAll_nil, bindersOf_nil] at *
    omega
  firm {P noted As} hP he := by
    obtain ⟨P', hg, he', _⟩ := h.firm hP he
    obtain ⟨P'', hg', he'', hv⟩ := k.firm (fun s hs => hg.declared ▸ hP s (h.grows.size.trans hs)) he'
    exact ⟨P'', hg.trans hg' h.grows.size, he'', hv⟩

/-- Scopes stay as they are, but for new variables. -/
theorem wellBound (h : Moves context N unit unit' [] [e] [e']) (hbound : WellBound [e])
    (hbelow : ∀ t, e.Mentions t → t < unit.bindings.size) :
    WellBound [e'] ∧ ∀ t, e'.Mentions t → t < unit'.bindings.size := by
  obtain _ | ⟨hneeds, _⟩ := h.needs
  have hneeds (t) (ht : e'.needs t) : e.needs t := (hneeds t ht).resolve_right nofun
  have hold (t) (ht : 0 < e.binders t) : t < unit.bindings.size := hbelow t (.inr (mem_boundSlots.2 ht))
  have hbinders (t) := h.relocated.binders t
  simp only [bindersAll_cons, bindersAll_nil, bindersOf_nil] at hbinders
  have hfresh {t} (ht : t < unit.bindings.size) :
      fresh unit.bindings.size unit'.bindings.size t = 0 := if_neg fun h => Nat.not_le.2 ht h.1
  rw [wellBound_iff] at hbound
  refine ⟨wellBound_iff.2 ⟨fun t ht => ?_, fun t => ?_⟩, fun t ht => ?_⟩
  · have := hbinders t
    rw [hbound.1 t (hneeds t ht), hfresh (hbelow t (.inl (hneeds t ht)))] at this
    exact Nat.le_zero.1 this
  · have hle := hbinders t
    by_cases ht : 0 < e.binders t
    · rw [hfresh (hold t ht)] at hle
      exact hle.trans (hbound.2 t)
    · have hone : fresh unit.bindings.size unit'.bindings.size t ≤ 1 := by
        unfold fresh
        split <;> omega
      omega
  · obtain ht | ht := ht
    · exact (hbelow t (.inl (hneeds t ht))).trans_le h.grows.size
    · refine h.relocated.bound_below (b := bindersAll [e]) (fun t ht => hold t (by simpa using ht))
        h.grows.size (t := t) ?_
      simpa using mem_boundSlots.1 ht

end Moves

/-- What a walk does to an expression: everything that is moved is bound again. -/
def Walks (context : StaticContext) (e : Expr) (p : Walk Expr) : Prop :=
  ∀ s, (∀ t, e.Mentions t → t < s.1.bindings.size) →
    Moves context (fun _ => False) s.1 (p.run s).2.1 [] [e] [(p.run s).1]

def WalksList (context : StaticContext) (es : List Expr) (p : Walk (List Expr)) : Prop :=
  ∀ s, (∀ e ∈ es, ∀ t, e.Mentions t → t < s.1.bindings.size) →
    Moves context (fun _ => False) s.1 (p.run s).2.1 [] es (p.run s).1

section Walks
variable {context : StaticContext} {a b e : Expr} {es : List Expr} {p q : Walk Expr}

theorem walks_pure (context : StaticContext) (e : Expr) : Walks context e (pure e) :=
  fun s _ => .refl context _ s.1 e

theorem walksList_nil (context : StaticContext) : WalksList context [] (pure []) :=
  fun s _ => .nil context _ s.1

theorem walksList_cons {q : Walk (List Expr)} (he : Walks context e p) (hes : WalksList context es q) :
    WalksList context (e :: es) (do let e ← p; return e :: (← q)) := by
  intro s hbelow
  obtain ⟨hbelow_e, hbelow_es⟩ := List.forall_mem_cons.1 hbelow
  have he := he s hbelow_e
  have hes := hes (p.run s).2 fun a ha t ht => (hbelow_es a ha t ht).trans_le he.grows.size
  exact he.cons hes (fun _ => False.elim) hbelow_e hbelow_es

/-- What can be moved out of the body of a site is bound around the site. -/
theorem offer_walks {forbidden : List Slot} {n : Note} {op : BinaryOp}
    (hforbidden : ∀ t, t ∉ forbidden → op.slot? ≠ some t) (hbound : WellBound [b]) :
    Walks context (.binary n op a b) (offer forbidden b (.binary n op a)) := by
  intro s hbelow
  have hcollects : Collects context [] (.binary n op a b)
      (do let a ← pure a; return .binary n op a (← collect forbidden b)) :=
    collects_binary (collects_pure context forbidden a) (collect_collects context forbidden b hbound)
      fun t ht => ⟨List.not_mem_nil, hforbidden t ht⟩
  obtain ⟨moved, hm, hmoves⟩ := hcollects ⟨s.1, []⟩ hbelow
  have hwrap := hmoves.wrap (fun t ht => ht.1) fun _ => False
  rw [← (hm.trans (List.append_nil moved))] at hwrap
  exact hwrap

theorem visitBinary_walks (n : Note) (op : BinaryOp) (hbound : WellBound [b]) :
    Walks context (.binary n op a b) (visitBinary n op a b) := by
  cases op with
  | «for» slot => exact offer_walks (fun t ht heq => ht (by cases heq; exact List.mem_cons_self)) hbound
  | quantified q slot => exact offer_walks (fun t ht heq => ht (by cases heq; exact List.mem_cons_self)) hbound
  | filter positional =>
    unfold visitBinary
    dsimp only
    split
    · exact walks_pure context _
    · exact offer_walks (fun t _ => nofun) hbound
  | path => exact offer_walks (fun t _ => nofun) hbound
  | _ => exact walks_pure context _

mutual

/-- A walk keeps an expression firm and its variables in their scopes. -/
theorem visit_walks (context : StaticContext) (e : Expr) (hbound : WellBound [e]) :
    Walks context e (visit e) := by
  match e with
  | .leaf n op => exact walks_pure context _
  | .unary n op a => exact fun s hbelow => (visit_walks context a hbound.unary s hbelow).unary n op
  | .binary n op a b =>
    intro s hbelow
    have hbelow_a (t) (ht : a.Mentions t) := hbelow t (mentions_binary (.inl ht))
    have hbelow_b (t) (ht : b.Mentions t) := hbelow t (mentions_binary (.inr (.inl ht)))
    have ha := visit_walks context a hbound.binary.head s hbelow_a
    have hbelow_b' (t) (ht : b.Mentions t) := (hbelow_b t ht).trans_le ha.grows.size
    have hb := visit_walks context b hbound.binary.tail ((visit a).run s).2 hbelow_b'
    have hboundb := (hb.wellBound hbound.binary.tail hbelow_b').1
    have hab := (ha.cons hb (fun _ => False.elim) hbelow_a (List.forall_mem_singleton.2 hbelow_b)).binary n
      fun t ht => hbelow t (mentions_binary (.inr (.inr ht)))
    exact hab.trans (visitBinary_walks n op hboundb _ (hab.wellBound hbound hbelow).2)
  | .ternary n op a b d =>
    intro s hbelow
    have habd := hbound.ternary
    have hlist := walksList_cons (visit_walks context a habd.head) (walksList_cons
      (visit_walks context b habd.tail.head) (walksList_cons (visit_walks context d habd.tail.tail)
        (walksList_nil context)))
    refine (hlist s fun e he t ht => hbelow t (mentions_ternary ?_)).ternary n op
    simp only [List.mem_cons, List.not_mem_nil, or_false] at he
    obtain rfl | rfl | rfl := he <;> simp [ht]
  | .nary n op es =>
    exact fun s hbelow => (visitList_walks context es hbound.nary s
      fun e he t ht => hbelow t (mentions_nary he ht)).nary n op

theorem visitList_walks (context : StaticContext) (es : List Expr) (hbound : WellBound es) :
    WalksList context es (visitList es) := by
  match es with
  | [] => exact walksList_nil context
  | e :: es =>
    exact walksList_cons (visit_walks context e hbound.head) (visitList_walks context es hbound.tail)

end

/-- What promoting makes of a settled expression is firm, in scope, and mentions nothing unknown. -/
theorem promote_moves (context : StaticContext) {e : Expr} {unit : CompileUnit} (hbound : WellBound [e])
    (hbelow : ∀ t, e.Mentions t → t < unit.bindings.size) :
    Moves context (fun _ => False) unit (promote e unit).2.1 [] [e] [(promote e unit).1] :=
  visit_walks context e hbound (unit, 0) hbelow

end Walks
end Hoist
end XPath
