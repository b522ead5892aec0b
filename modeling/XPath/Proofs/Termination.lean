import XPath.Proofs.Binders

/-!
Rewriting a tree comes to an end. A tree has room for so many rewrites: each one leaves less room, also where it
makes the tree larger, and a check leaves the room as it is, whatever treats it puts in or drops. Stated of the
rewrites without a limit, this shows as well that the limit on those of a node is never reached.
-/
namespace XPath

/-- The rewrites that an operator has room for. -/
def UnaryOp.room : UnaryOp → ℕ
  | sort => 1
  | _ => 0

/-- A conjunction has room for two, since splitting one makes another filter. -/
def BinaryOp.room : BinaryOp → ℕ
  | filter _ | «for» _ => 1
  | and => 2
  | _ => 0

namespace Expr

def ownRoom : Expr → ℕ
  | unary _ op _ => op.room
  | binary _ op _ _ => op.room
  | _ => 0

/-- The rewrites that an expression has room for, those in its operands included. -/
def room (e : Expr) : ℕ := (e.preorder.map ownRoom).sum

section
variable (n : Note)

@[simp] theorem room_leaf (op : LeafOp) : (leaf n op).room = 0 := rfl

@[simp] theorem room_unary (op : UnaryOp) (a : Expr) : (unary n op a).room = op.room + a.room := by
  simp [room, preorder, ownRoom]

@[simp] theorem room_binary (op : BinaryOp) (a b : Expr) :
    (binary n op a b).room = op.room + (a.room + b.room) := by
  simp [room, preorder, ownRoom]

@[simp] theorem room_ternary (op : TernaryOp) (a b d : Expr) :
    (ternary n op a b d).room = a.room + (b.room + d.room) := by
  simp [room, preorder, ownRoom]

@[simp] theorem room_nary (op : NaryOp) (args : List Expr) : (nary n op args).room = (args.map room).sum := by
  unfold room
  rw [preorder, List.map_cons, List.sum_cons]
  refine (Nat.zero_add _).trans ?_
  induction args with
  | nil => rfl
  | cons a args ih => rw [preorderList, List.map_append, List.sum_append, ih, List.map_cons, List.sum_cons]

@[simp] theorem room_withInfo (i : StaticInfo) (e : Expr) : (e.withInfo i).room = e.room := by
  cases e <;> simp [withInfo, withNote]

end

theorem ownRoom_le (e : Expr) : e.ownRoom ≤ 2 := by
  cases e with
  | unary n op a => cases op <;> simp [ownRoom, UnaryOp.room]
  | binary n op a b => cases op <;> simp [ownRoom, BinaryOp.room]
  | _ => exact Nat.zero_le 2

theorem room_le (e : Expr) : e.room ≤ 2 * e.size := by
  have h : e.room ≤ (e.preorder.map ownRoom).length • 2 := List.sum_le_card_nsmul _ _ fun k hk => by
    obtain ⟨a, _, rfl⟩ := List.mem_map.1 hk
    exact ownRoom_le a
  rwa [List.length_map, smul_eq_mul, Nat.mul_comm] at h

/-! What room the rewrites leave. -/

theorem unordered_room (a : Expr) : a.unordered.room + a.isNodeSort.toNat = a.room := by
  unfold unordered isNodeSort
  split
  · next n x =>
    cases h : x.itemType.isNode <;> simp [UnaryOp.room, Nat.add_comm]
  · rfl

theorem unordered_room_le (a : Expr) : a.unordered.room ≤ a.room :=
  (Nat.le_add_right _ _).trans (unordered_room a).le

theorem unordered_room_lt {a : Expr} (h : a.isNodeSort) : a.unordered.room < a.room := by
  rw [← unordered_room a, h]
  exact Nat.lt_succ_self _

/-- A sort on either side is enough. -/
theorem unordered_room_add {a b : Expr} (h : a.isNodeSort || b.isNodeSort) :
    a.unordered.room + b.unordered.room < a.room + b.room := by
  obtain h | h := Bool.or_eq_true_iff.1 h
  · exact Nat.add_lt_add_of_lt_of_le (unordered_room_lt h) (unordered_room_le b)
  · exact Nat.add_lt_add_of_le_of_lt (unordered_room_le a) (unordered_room_lt h)

theorem unorderedList_room {args : List Expr} (h : args.any isNodeSort) :
    ((args.map unordered).map room).sum < (args.map room).sum := by
  obtain ⟨a, ha, hsort⟩ := List.any_eq_true.1 h
  rw [List.map_map]
  exact List.sum_lt_sum _ _ (fun x _ => unordered_room_le x) ⟨a, ha, unordered_room_lt hsort⟩

theorem select_room (base : Expr) (p : Positions) (at' : LocationId) : (base.select p at').room ≤ base.room := by
  unfold select
  split
  · exact Nat.zero_le _
  · split
    · exact Nat.le_refl _
    · simp [mkUnary, UnaryOp.room]
    · split
      · simp [mkBinary, constantAt, mkLeaf, BinaryOp.room]
      · simp [mkUnary, UnaryOp.room]

theorem selectConstant_room {base e : Expr} {c : Constant} {at' : LocationId}
    (he : base.selectConstant? at' c = some e) : e.room ≤ base.room := by
  cases c with
  | integer i =>
    cases he
    exact select_room base _ at'
  | boolean t =>
    cases he
    cases t with
    | false => exact Nat.zero_le _
    | true => exact Nat.le_refl _
  | string s =>
    cases he
    split
    · exact Nat.zero_le _
    · exact Nat.le_refl _
  | decimal d => cases he
  | double x => cases he

theorem selectWhole_room {base b e : Expr} {at' : LocationId} (he : base.selectWhole? b at' = some e) :
    e.room ≤ base.room + b.room := by
  unfold selectWhole? at he
  split at he
  · next hc =>
    cases he
    obtain ⟨c, _, hc⟩ := Option.bind_eq_some_iff.1 hc
    exact (selectConstant_room hc).trans (Nat.le_add_right _ _)
  · split at he
    · cases he
      exact (select_room base _ at').trans (Nat.le_add_right _ _)
    · split at he
      · cases he
        simp [mkBinary, BinaryOp.room]
      · cases he

theorem indexKey_room {base b key value : Expr} (h : base.indexKey? b = some (key, value)) :
    key.room + value.room = b.room := by
  unfold indexKey? at h
  split at h
  · split at h
    · cases h
    · split at h
      · cases h
        simp [BinaryOp.room]
      · split at h
        · cases h
          simp [BinaryOp.room, Nat.add_comm]
        · cases h
  · cases h

theorem filterPlainly_room (n : Note) (positional index : Bool) (base b : Expr) :
    (filterPlainly n positional index base b).1.room + (filterPlainly n positional index base b).2.toNat ≤
      base.room + b.room + 1 := by
  have hu := unordered_room b
  unfold filterPlainly
  split
  · simp only [room_binary, BinaryOp.room, Bool.toNat_false]
    omega
  · dsimp only
    split
    · next key value hkey =>
      split at hkey
      · have := indexKey_room hkey
        simp only [mkTernary, room_ternary, Bool.toNat_true]
        omega
      · cases hkey
    · have : (b.isNodeSort && !b.unordered.isSort).toNat ≤ b.isNodeSort.toNat := by
        cases b.isNodeSort <;> simp [Bool.toNat_le]
      simp only [room_binary, BinaryOp.room]
      omega

theorem selectOrFilter_room (n : Note) (positional index : Bool) (base b : Expr) {s : Expr × Bool}
    (hs : s = match base.selectWhole? b n.location with
      | some e => (e, true)
      | none => filterPlainly n positional index base b) :
    s.1.room + s.2.toNat ≤ base.room + b.room + 1 := by
  split at hs
  · next he =>
    subst hs
    exact Nat.succ_le_succ (selectWhole_room he)
  · subst hs
    exact filterPlainly_room n positional index base b

theorem toBoolean_room (a : Expr) : a.toBoolean.room = a.room := by simp [toBoolean, callAt, mkNary]

/-- The filter itself has room for one rewrite more than its operands. -/
theorem specialize_room (n : Note) (positional index : Bool) (base b : Expr) :
    (specialize n positional index base b).1.room + (specialize n positional index base b).2.toNat ≤
      base.room + b.room + 1 := by
  match b with
  | binary m op x y =>
    cases op with
    | and =>
      -- The side that selects first is a filter or less, the other one is left to the new filter around it.
      have hnested {s : Expr × Bool} {u v : Expr} (huv : u.room + v.room = x.room + y.room)
          (hs : s.1.room + s.2.toNat ≤ base.room + u.room + 1) :
          (mkBinary (.filter false) s.1 v.toBoolean n.location).room + true.toNat ≤
            base.room + (binary m .and x y).room + 1 := by
        simp only [mkBinary, room_binary, BinaryOp.room, toBoolean_room, Bool.toNat_true]
        omega
      have htruth (u : Expr) := toBoolean_room u ▸
        selectOrFilter_room { location := n.location } true false base u.toBoolean rfl
      unfold specialize
      dsimp only
      split
      · next he => exact Nat.succ_le_succ (selectWhole_room he)
      · split
        · refine hnested rfl ?_
          split
          · exact htruth x
          · exact specialize_room _ _ _ base x
        · split
          · refine hnested (Nat.add_comm _ _) ?_
            split
            · exact htruth y
            · exact specialize_room _ _ _ base y
          · exact filterPlainly_room n positional index base _
    | _ => exact selectOrFilter_room n positional index base _ rfl
  | leaf m op => exact selectOrFilter_room n positional index base _ rfl
  | unary m op x => exact selectOrFilter_room n positional index base _ rfl
  | ternary m op x y z => exact selectOrFilter_room n positional index base _ rfl
  | nary m op args => exact selectOrFilter_room n positional index base _ rfl

theorem stripHead_room (b : Expr) : b.stripHead.room ≤ b.room := by
  match b with
  | binary n op head step =>
    cases op with
    | path =>
      unfold stripHead
      split
      · simp [BinaryOp.room]
      · have := stripHead_room head
        simp only [mkBinary, room_binary, BinaryOp.room]
        omega
    | _ => exact Nat.le_refl _
  | leaf n op => exact Nat.le_refl _
  | unary n op a => exact Nat.le_refl _
  | ternary n op a b d => exact Nat.le_refl _
  | nary n op args => exact Nat.le_refl _

theorem rewriteFor_room {slot : Slot} {at' : LocationId} {a b e : Expr}
    (he : rewriteFor at' slot a b = some e) : e.room ≤ a.room + b.room := by
  unfold rewriteFor at he
  split at he
  · cases he
    simp [mkBinary, BinaryOp.room]
  · split at he
    · cases he
      have := stripHead_room b
      simp only [mkBinary, room_binary, BinaryOp.room]
      omega
    · cases he

/-- A rewrite of a node leaves it less room. -/
theorem rewrite_room {index : Bool} {e e' : Expr} (h : e.rewrite? index = some e') : e'.room < e.room := by
  cases e with
  | leaf n op => cases h
  | unary n op a =>
    cases op with
    | sort =>
      obtain ⟨_, h⟩ := Option.ite_none_right_eq_some.1 h
      cases h
      simp [UnaryOp.room]
    | _ => cases h
  | binary n op a b =>
    cases op with
    | filter p =>
      have hs := specialize_room n p index a b
      obtain ⟨hchanged, h⟩ := Option.ite_none_right_eq_some.1 h
      cases h
      rw [hchanged, Bool.toNat_true] at hs
      simp only [room_binary, BinaryOp.room]
      omega
    | «for» slot =>
      have hs := rewriteFor_room h
      simp only [room_binary, BinaryOp.room]
      omega
    | and =>
      obtain ⟨hsort, h⟩ := Option.ite_none_right_eq_some.1 h
      cases h
      simpa only [room_binary] using Nat.add_lt_add_left (unordered_room_add hsort) _
    | or =>
      obtain ⟨hsort, h⟩ := Option.ite_none_right_eq_some.1 h
      cases h
      simpa only [room_binary] using Nat.add_lt_add_left (unordered_room_add hsort) _
    | quantified q slot =>
      obtain ⟨hsort, h⟩ := Option.ite_none_right_eq_some.1 h
      cases h
      have := unordered_room_lt hsort
      simp only [room_binary]
      omega
    | _ => cases h
  | ternary n op a b d =>
    cases op with
    | «if» =>
      obtain ⟨hsort, h⟩ := Option.ite_none_right_eq_some.1 h
      cases h
      simpa only [room_ternary] using Nat.add_lt_add_right (unordered_room_lt hsort) _
    | indexedFilter => cases h
  | nary n op args =>
    cases op with
    | block => cases h
    | call f =>
      cases f with
      | unresolved m => cases h
      | builtin f =>
        obtain ⟨hsort, h⟩ := Option.ite_none_right_eq_some.1 h
        cases h
        simp only [room_nary]
        exact unorderedList_room (Bool.and_eq_true_iff.1 hsort).2

end Expr

namespace Typing
open XPath.Expr

variable {context : StaticContext}

theorem bind_room {slot : Slot} {source x : Expr} {perItem : Bool} {unit unit' : CompileUnit}
    (h : (bind slot source perItem).run context unit = (.ok x, unit')) : x.room = source.room := by
  have hb := bind_ok h
  split at hb
  · rw [hb.1]
  · obtain ⟨_, ⟨rfl, _⟩ | rfl⟩ := hb
    · rfl
    · exact (room_unary _ _ _).trans (Nat.zero_add _)

theorem bindFor_room {op : BinaryOp} {source x : Expr} {unit unit' : CompileUnit}
    (h : (bindFor op source).run context unit = (.ok x, unit')) : x.room = source.room := by
  cases op with
  | «for» slot => exact bind_room h
  | quantified q slot => exact bind_room h
  | «let» slot => exact bind_room h
  | _ =>
    cases h
    rfl

mutual

/-- A check leaves as much room as there was. -/
theorem check_room (e : Expr) {x : Expr} {unit unit' : CompileUnit}
    (h : (check e).run context unit = (.ok x, unit')) : x.room = e.room := by
  match e with
  | .leaf n op =>
    obtain ⟨rfl, rfl⟩ := inferLeaf_ok h
    rfl
  | .unary n op a =>
    obtain ⟨a', unit₁, ha, h⟩ := Pass.run_bind_ok h
    have ia := check_room a ha
    obtain ⟨rfl, rfl | ⟨t, rfl, _, rfl⟩⟩ := (inferUnary_returns (.unary n op a') op a').of_run h
    · rw [room_withInfo, room_unary, room_unary, ia]
    · exact ia.trans ((room_unary _ _ _).trans (Nat.zero_add _)).symm
  | .binary n op a b =>
    obtain ⟨a', s, b', unit₁, unit₂, ha, hs, hb, rfl⟩ := check_binary_ok h
    have hop : (op.settled b'.info).room = op.room := by cases op <;> rfl
    rw [room_withInfo, room_binary, room_binary, hop, bindFor_room hs, check_room a ha, check_room b hb]
  | .ternary n op a b d =>
    obtain ⟨a', unit₁, ha, h⟩ := Pass.run_bind_ok h
    obtain ⟨b', unit₂, hb, h⟩ := Pass.run_bind_ok h
    obtain ⟨d', unit₃, hd, h⟩ := Pass.run_bind_ok h
    obtain ⟨rfl, rfl⟩ := (inferTernary_returns (.ternary n op a' b' d') op a' b' d').of_run h
    rw [room_withInfo, room_ternary, room_ternary, check_room a ha, check_room b hb, check_room d hd]
  | .nary n op es =>
    obtain ⟨es', unit₁, hes, h⟩ := Pass.run_bind_ok h
    obtain ⟨rfl, rfl⟩ := (inferNary_returns (.nary n op es') op es').of_run h
    rw [room_withInfo, room_nary, room_nary, checkList_room es hes]

theorem checkList_room (es : List Expr) {xs : List Expr} {unit unit' : CompileUnit}
    (h : (checkList es).run context unit = (.ok xs, unit')) : xs.map room = es.map room := by
  match es with
  | [] =>
    cases h
    rfl
  | e :: es =>
    obtain ⟨x, unit₁, he, h⟩ := Pass.run_bind_ok h
    obtain ⟨xs', unit₂, hes, h⟩ := Pass.run_bind_ok h
    cases h
    rw [List.map_cons, List.map_cons, check_room e he, checkList_room es hes]

end

end Typing

namespace Expr

/-- The operator applied to other operands, as many as it has. -/
def withChildren : Expr → List Expr → Expr
  | unary n op _, [a] => unary n op a
  | binary n op _ _, [a, b] => binary n op a b
  | ternary n op _ _ _, [a, b, d] => ternary n op a b d
  | nary n op _, args => nary n op args
  | e, _ => e

theorem room_withChildren {e : Expr} {xs : List Expr} (h : xs.length = e.children.length) :
    (e.withChildren xs).room + (e.children.map room).sum = e.room + (xs.map room).sum := by
  match e, xs, h with
  | leaf n op, [], _ => rfl
  | unary n op a, [x], _ =>
    simp only [withChildren, children, room_unary, List.map_cons, List.map_nil, List.sum_cons, List.sum_nil]
    omega
  | binary n op a b, [x, y], _ =>
    simp only [withChildren, children, room_binary, List.map_cons, List.map_nil, List.sum_cons, List.sum_nil]
    omega
  | ternary n op a b d, [x, y, z], _ =>
    simp only [withChildren, children, room_ternary, List.map_cons, List.map_nil, List.sum_cons, List.sum_nil]
    omega
  | nary n op args, xs, _ =>
    simp only [withChildren, children, room_nary]
    omega

theorem sizeOf_lt_of_mem_children {e a : Expr} (h : a ∈ e.children) : sizeOf a < sizeOf e := by
  cases e with
  | leaf n op => cases h
  | unary n op x =>
    obtain rfl := List.mem_singleton.1 h
    simp only [unary.sizeOf_spec]
    omega
  | binary n op x y =>
    obtain rfl | rfl := List.mem_pair.1 h <;> simp only [binary.sizeOf_spec] <;> omega
  | ternary n op x y z =>
    obtain rfl | h := List.mem_cons.1 h
    · simp only [ternary.sizeOf_spec]
      omega
    · obtain rfl | rfl := List.mem_pair.1 h <;> simp only [ternary.sizeOf_spec] <;> omega
  | nary n op args =>
    have := List.sizeOf_lt_of_mem (show a ∈ args from h)
    simp only [nary.sizeOf_spec]
    omega

end Expr

namespace Rewrite
open XPath.Expr

/-- The next rewrite of a node, and what the check makes of it. -/
def turn? (context : StaticContext) (e : Expr) (unit : CompileUnit) :
    Option (Except StaticError Expr × CompileUnit) :=
  (e.rewrite? context.optimizer.index).map fun x => (Typing.check x).run context unit

/-- What becomes of a node that is rewritten without a limit, and by how many rewrites: they end where none is
left, or where a check fails. -/
inductive NodeEnds (context : StaticContext) :
    ℕ → Expr → CompileUnit → Except StaticError Expr × CompileUnit → Prop where
  | rest {e unit} : turn? context e unit = none → NodeEnds context 0 e unit (.ok e, unit)
  | reject {e unit cause unit'} : turn? context e unit = some (.error cause, unit') →
    NodeEnds context 1 e unit (.error cause, unit')
  | again {k e unit x unit' r} : turn? context e unit = some (.ok x, unit') → NodeEnds context k x unit' r →
    NodeEnds context (k + 1) e unit r

mutual

/-- What becomes of a tree whose nodes are rewritten from the leaves up, each without a limit. An error ends it. -/
inductive Ends (context : StaticContext) :
    ℕ → Expr → CompileUnit → Except StaticError Expr × CompileUnit → Prop where
  | node {j k e unit xs unit' r} : OperandsEnd context j e.children unit (.ok xs, unit') →
    NodeEnds context k (e.withChildren xs) unit' r → Ends context (j + k) e unit r
  | operand {k e unit cause unit'} : OperandsEnd context k e.children unit (.error cause, unit') →
    Ends context k e unit (.error cause, unit')

/-- The same of several operands, one after the other. -/
inductive OperandsEnd (context : StaticContext) :
    ℕ → List Expr → CompileUnit → Except StaticError (List Expr) × CompileUnit → Prop where
  | nil {unit} : OperandsEnd context 0 [] unit (.ok [], unit)
  | cons {j k e es unit x unit₁ xs unit'} : Ends context j e unit (.ok x, unit₁) →
    OperandsEnd context k es unit₁ (.ok xs, unit') →
    OperandsEnd context (j + k) (e :: es) unit (.ok (x :: xs), unit')
  | head {k e es unit cause unit'} : Ends context k e unit (.error cause, unit') →
    OperandsEnd context k (e :: es) unit (.error cause, unit')
  | tail {j k e es unit x unit₁ cause unit'} : Ends context j e unit (.ok x, unit₁) →
    OperandsEnd context k es unit₁ (.error cause, unit') →
    OperandsEnd context (j + k) (e :: es) unit (.error cause, unit')

end

variable {context : StaticContext} {e x : Expr} {es xs : List Expr} {unit unit' : CompileUnit} {j k : ℕ}
  {r r' : Except StaticError Expr × CompileUnit}

/-- The room that is left in a result. An error leaves none. -/
def left {α : Type} (measure : α → ℕ) : Except StaticError α → ℕ
  | .ok x => measure x
  | .error _ => 0

/-! Every turn leaves less room, so the turns come to an end. -/

theorem turn_room (h : turn? context e unit = some (.ok x, unit')) : x.room < e.room := by
  obtain ⟨e', hr, hcheck⟩ := Option.map_eq_some_iff.1 h
  rw [Typing.check_room e' hcheck]
  exact rewrite_room hr

theorem exists_nodeEnds (context : StaticContext) (e : Expr) (unit : CompileUnit) :
    ∃ k r, NodeEnds context k e unit r := by
  match h : turn? context e unit with
  | none => exact ⟨0, _, .rest h⟩
  | some (.error cause, unit') => exact ⟨1, _, .reject h⟩
  | some (.ok x, unit') =>
    obtain ⟨k, r, hx⟩ := exists_nodeEnds context x unit'
    exact ⟨k + 1, r, .again h hx⟩
termination_by e.room
decreasing_by exact turn_room h

/-- There was room for the rewrites that were made, besides what room is left. -/
theorem NodeEnds.room (h : NodeEnds context k e unit r) : k + left Expr.room r.1 ≤ e.room := by
  induction h with
  | rest _ => exact (Nat.zero_add _).le
  | reject hr =>
    obtain ⟨e', hr, _⟩ := Option.map_eq_some_iff.1 hr
    exact Nat.one_le_of_lt (rewrite_room hr)
  | again hr _ ih =>
    have := turn_room hr
    omega

theorem NodeEnds.unique (h : NodeEnds context j e unit r) (h' : NodeEnds context k e unit r') :
    j = k ∧ r = r' := by
  induction h generalizing k with
  | rest hr =>
    cases h' with
    | rest _ => exact ⟨rfl, rfl⟩
    | reject hr' => cases hr.symm.trans hr'
    | again hr' _ => cases hr.symm.trans hr'
  | reject hr =>
    cases h' with
    | rest hr' => cases hr.symm.trans hr'
    | reject hr' =>
      cases hr.symm.trans hr'
      exact ⟨rfl, rfl⟩
    | again hr' _ => cases hr.symm.trans hr'
  | again hr _ ih =>
    cases h' with
    | rest hr' => cases hr.symm.trans hr'
    | reject hr' => cases hr.symm.trans hr'
    | again hr' hx =>
      cases hr.symm.trans hr'
      obtain ⟨rfl, rfl⟩ := ih hx
      exact ⟨rfl, rfl⟩

/-! The limit on the rewrites of a node leaves them all that they need. -/

theorem run_node_succ (fuel : ℕ) (e : Expr) (unit : CompileUnit) :
    (node (fuel + 1) e).run context unit = match turn? context e unit with
      | none => (.ok e, unit)
      | some (.ok x, unit') => (node fuel x).run context unit'
      | some (.error cause, unit') => (.error cause, unit') := by
  rw [node, Pass.run_bind, Pass.run_read, turn?]
  dsimp only
  cases e.rewrite? context.optimizer.index with
  | none => rfl
  | some x =>
    dsimp only [Option.map_some]
    rw [Pass.run_bind]
    rcases (Typing.check x).run context unit with ⟨_ | _, _⟩ <;> rfl

theorem NodeEnds.run_node (h : NodeEnds context k e unit r) {fuel : ℕ} (hk : k ≤ fuel) :
    (node fuel e).run context unit = r := by
  induction h generalizing fuel with
  | rest hr =>
    cases fuel with
    | zero => rfl
    | succ fuel => rw [run_node_succ, hr]
  | reject hr =>
    obtain ⟨fuel, rfl⟩ := Nat.exists_eq_add_of_le' hk
    rw [run_node_succ, hr]
  | again hr _ ih =>
    obtain ⟨fuel, rfl⟩ := Nat.exists_eq_add_of_le' hk
    rw [← Nat.add_assoc, run_node_succ, hr]
    exact ih (Nat.le_add_left _ _)

theorem all_ends (context : StaticContext) (e : Expr) (unit : CompileUnit) :
    ∃ k, NodeEnds context k e unit ((all e).run context unit) := by
  obtain ⟨k, r, h⟩ := exists_nodeEnds context e unit
  have hk : k ≤ 4 * e.size + 4 := by
    have := h.room
    have := room_le e
    omega
  have hrun : (all e).run context unit = r := h.run_node hk
  exact ⟨k, hrun ▸ h⟩

/-! From the nodes to the tree. -/

theorem tree_eq (e : Expr) : tree e = treeList e.children >>= fun xs => all (e.withChildren xs) := by
  cases e <;> simp [tree, treeList, children, withChildren]

theorem treeList_ends (es : List Expr)
    (h : ∀ e ∈ es, ∀ unit, ∃ k, Ends context k e unit ((tree e).run context unit)) (unit : CompileUnit) :
    ∃ k, OperandsEnd context k es unit ((treeList es).run context unit) := by
  induction es generalizing unit with
  | nil => exact ⟨0, .nil⟩
  | cons e es ih =>
    obtain ⟨he, hes⟩ := List.forall_mem_cons.1 h
    obtain ⟨j, he⟩ := he unit
    rw [treeList, Pass.run_bind]
    match hrun : (tree e).run context unit with
    | (.error cause, unit') => exact ⟨j, .head (hrun ▸ he)⟩
    | (.ok x, unit') =>
      obtain ⟨k, hk⟩ := ih hes unit'
      dsimp only
      rw [Pass.run_bind]
      match hrest : (treeList es).run context unit' with
      | (.error cause, unit'') => exact ⟨j + k, .tail (hrun ▸ he) (hrest ▸ hk)⟩
      | (.ok xs, unit'') => exact ⟨j + k, .cons (hrun ▸ he) (hrest ▸ hk)⟩

theorem tree_ends (context : StaticContext) (e : Expr) (unit : CompileUnit) :
    ∃ k, Ends context k e unit ((tree e).run context unit) := by
  obtain ⟨j, hes⟩ := treeList_ends e.children (fun a _ => tree_ends context a) unit
  rw [tree_eq, Pass.run_bind]
  match hrun : (treeList e.children).run context unit with
  | (.error cause, unit') => exact ⟨j, .operand (hrun ▸ hes)⟩
  | (.ok xs, unit') =>
    obtain ⟨k, hk⟩ := all_ends context (e.withChildren xs) unit'
    exact ⟨j + k, .node (hrun ▸ hes) hk⟩
termination_by sizeOf e
decreasing_by exact sizeOf_lt_of_mem_children ‹_›

theorem OperandsEnd.length (h : OperandsEnd context k es unit (.ok xs, unit')) : xs.length = es.length := by
  induction es generalizing k unit xs with
  | nil =>
    cases h
    rfl
  | cons e es ih =>
    cases h with
    | cons _ hes => rw [List.length_cons, List.length_cons, ih hes]

theorem room_children (e : Expr) : (e.children.map Expr.room).sum ≤ e.room := by
  cases e <;> simp [children]

mutual

theorem Ends.room {k : ℕ} {e : Expr} {unit : CompileUnit} {r : Except StaticError Expr × CompileUnit}
    (h : Ends context k e unit r) : k + left Expr.room r.1 ≤ e.room := by
  match h with
  | .node hes hnode =>
    -- The rewrites of the node itself begin in the room that those of its operands have left.
    have hchildren := hes.room
    have hroom := hnode.room
    have := room_withChildren hes.length
    simp only [left] at hchildren
    omega
  | .operand hes => exact hes.room.trans (room_children e)

theorem OperandsEnd.room {k : ℕ} {es : List Expr} {unit : CompileUnit}
    {rs : Except StaticError (List Expr) × CompileUnit} (h : OperandsEnd context k es unit rs) :
    k + left (fun xs => (xs.map Expr.room).sum) rs.1 ≤ (es.map Expr.room).sum := by
  match h with
  | .nil => exact Nat.le_refl _
  | .cons he hes =>
    have := he.room
    have := hes.room
    simp only [left, List.map_cons, List.sum_cons] at *
    omega
  | .head he => exact he.room.trans (by simp)
  | .tail he hes =>
    have := he.room
    have := hes.room
    simp only [left, List.map_cons, List.sum_cons] at *
    omega

end

mutual

theorem Ends.unique {j k : ℕ} {e : Expr} {unit : CompileUnit} {r r' : Except StaticError Expr × CompileUnit}
    (h : Ends context j e unit r) (h' : Ends context k e unit r') : j = k ∧ r = r' := by
  match h, h' with
  | .node hes hnode, .node hes' hnode' =>
    obtain ⟨rfl, hr⟩ := hes.unique hes'
    cases hr
    obtain ⟨rfl, rfl⟩ := hnode.unique hnode'
    exact ⟨rfl, rfl⟩
  | .operand hes, .operand hes' =>
    obtain ⟨rfl, hr⟩ := hes.unique hes'
    cases hr
    exact ⟨rfl, rfl⟩
  | .node hes _, .operand hes' => cases (hes.unique hes').2
  | .operand hes, .node hes' _ => cases (hes.unique hes').2

theorem OperandsEnd.unique {j k : ℕ} {es : List Expr} {unit : CompileUnit}
    {rs rs' : Except StaticError (List Expr) × CompileUnit} (h : OperandsEnd context j es unit rs)
    (h' : OperandsEnd context k es unit rs') : j = k ∧ rs = rs' := by
  match h with
  | .nil =>
    cases h'
    exact ⟨rfl, rfl⟩
  | .cons he hes =>
    cases h' with
    | cons he' hes' =>
      obtain ⟨rfl, hr⟩ := he.unique he'
      cases hr
      obtain ⟨rfl, hr⟩ := hes.unique hes'
      cases hr
      exact ⟨rfl, rfl⟩
    | head he' => cases (he.unique he').2
    | tail he' hes' =>
      cases (he.unique he').2
      cases (hes.unique hes').2
  | .head he =>
    cases h' with
    | cons he' _ => cases (he.unique he').2
    | head he' =>
      obtain ⟨rfl, hr⟩ := he.unique he'
      cases hr
      exact ⟨rfl, rfl⟩
    | tail he' _ => cases (he.unique he').2
  | .tail he hes =>
    cases h' with
    | cons he' hes' =>
      cases (he.unique he').2
      cases (hes.unique hes').2
    | head he' => cases (he.unique he').2
    | tail he' hes' =>
      obtain ⟨rfl, hr⟩ := he.unique he'
      cases hr
      obtain ⟨rfl, hr⟩ := hes.unique hes'
      cases hr
      exact ⟨rfl, rfl⟩

end

/-- However the optimizer is configured, rewriting a tree without a limit comes to an end, which is a tree or the
error of a check. It takes at most twice as many rewrites as the tree has nodes, be the tree checked or not. There
is only one way for it to end, and rewriting each node with a limit comes to the same. -/
theorem tree_terminates (context : StaticContext) (e : Expr) (unit : CompileUnit) :
    ∃ k ≤ 2 * e.size, ∀ n r, Ends context n e unit r ↔ n = k ∧ r = (tree e).run context unit := by
  obtain ⟨k, h⟩ := tree_ends context e unit
  refine ⟨k, ?_, fun n r => ⟨fun h' => h'.unique h, ?_⟩⟩
  · exact (Nat.le_add_right _ _).trans (h.room.trans (room_le e))
  · rintro ⟨rfl, rfl⟩
    exact h

/-- `(1 to 9)[. = 3 and last()]` -/
def thirdIfAny : Expr :=
  .mkBinary (.filter false)
    (.mkBinary .range (.constantAt (.integer 1) 0) (.constantAt (.integer 9) 0) 0)
    (.mkBinary .and
      (.mkBinary (.generalComparison .eq) (.mkLeaf .contextItem 0) (.constantAt (.integer 3) 0) 0)
      (.callAt .last [] 0) 0) 0

-- A conjunction that is split makes the tree larger, and still there is less room in it.
example : ((do
    let e ← Typing.check thirdIfAny
    let x ← tree e
    return [(e.size, e.room), (x.size, x.room)] : Pass (List (ℕ × ℕ))).run {} {}).1 =
    .ok [(9, 3), (11, 2)] := by
  rfl

end Rewrite
end XPath
