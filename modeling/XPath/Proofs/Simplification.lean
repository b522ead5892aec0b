import XPath.Expr.Simplify
import XPath.Proofs.Annotation

/-!
One sweep of simplification is enough. What it gives is simple: no rule applies at any of its nodes, as each rule
gives an operand, which is simple already, a literal, or a node to which no rule applies. A comma sequence that it
gives is flat.
-/
namespace XPath.Expr
variable {e a b d : Expr} {n : Note} {flat es : List Expr}

/-- No rule applies to the expression, nor to anything in it. -/
def IsSimple (e : Expr) : Prop := e.All fun x => x.simplifyNode = x

/-! What is simple stays as it is. -/

mutual

theorem simplify_of_isSimple (e : Expr) (h : e.IsSimple) : e.simplify = e := by
  match e with
  | leaf n op => rfl
  | unary n op a =>
    obtain ⟨hnode, ha⟩ := all_unary.1 h
    rw [simplify, simplify_of_isSimple a ha, hnode]
  | binary n op a b =>
    obtain ⟨hnode, ha, hb⟩ := all_binary.1 h
    rw [simplify, simplify_of_isSimple a ha, simplify_of_isSimple b hb, hnode]
  | ternary n op a b d =>
    obtain ⟨hnode, ha, hb, hd⟩ := all_ternary.1 h
    rw [simplify, simplify_of_isSimple a ha, simplify_of_isSimple b hb, simplify_of_isSimple d hd, hnode]
  | nary n op args =>
    obtain ⟨hnode, hargs⟩ := all_nary.1 h
    rw [simplify, simplifyList_of_isSimple args hargs, hnode]

theorem simplifyList_of_isSimple (es : List Expr) (h : ∀ e ∈ es, e.IsSimple) : simplifyList es = es := by
  match es with
  | [] => rfl
  | e :: es =>
    obtain ⟨he, hes⟩ := List.forall_mem_cons.1 h
    rw [simplifyList, simplify_of_isSimple e he, simplifyList_of_isSimple es hes]

end

/-- A node of simple operands is simple if no rule applies to it. -/
theorem isSimple_of_children (hnode : e.simplifyNode = e) (h : ∀ x ∈ e.children, x.IsSimple) : e.IsSimple := by
  cases e with
  | leaf n op => exact all_leaf.2 hnode
  | unary n op a => exact all_unary.2 ⟨hnode, h a List.mem_cons_self⟩
  | binary n op a b => exact all_binary.2 ⟨hnode, h a (by simp [children]), h b (by simp [children])⟩
  | ternary n op a b d =>
    exact all_ternary.2 ⟨hnode, h a (by simp [children]), h b (by simp [children]), h d (by simp [children])⟩
  | nary n op args => exact all_nary.2 ⟨hnode, h⟩

theorem isSimple_leaf (n : Note) (op : LeafOp) : (leaf n op).IsSimple := all_leaf.2 rfl

/-! Flat sequences. -/

def isLiteral : Expr → Bool
  | leaf _ (.literal _) => true
  | _ => false

theorem exists_literal (h : e.isLiteral) : ∃ n cs, e = leaf n (.literal cs) := by
  unfold isLiteral at h
  split at h
  · exact ⟨_, _, rfl⟩
  · cases h

/-- Whether the expression may stand in a flat sequence: it is no sequence itself, and not empty. -/
def isPart : Expr → Bool
  | nary _ .block _ | leaf _ (.literal []) => false
  | _ => true

/-- Nothing in a sequence could be spliced, and no neighbours be joined. -/
structure IsFlat (es : List Expr) : Prop where
  parts : ∀ e ∈ es, e.isPart
  apart : es.IsChain fun a b => ¬ (a.isLiteral ∧ b.isLiteral)

theorem isFlat_nil : IsFlat [] := ⟨nofun, .nil⟩

theorem IsFlat.tail (h : IsFlat (e :: flat)) : IsFlat flat :=
  ⟨fun a ha => h.parts a (List.mem_cons_of_mem e ha), h.apart.tail⟩

theorem isFlat_cons : IsFlat (e :: flat) ↔
    e.isPart ∧ IsFlat flat ∧ ∀ f ∈ flat.head?, ¬ (e.isLiteral ∧ f.isLiteral) := by
  constructor
  · exact fun h => ⟨h.parts e List.mem_cons_self, h.tail, (List.isChain_cons.1 h.apart).1⟩
  · exact fun ⟨he, hflat, hapart⟩ => ⟨List.forall_mem_cons.2 ⟨he, hflat.parts⟩, List.isChain_cons.2 ⟨hapart, hflat.apart⟩⟩

theorem IsFlat.cons_of_not_literal (h : IsFlat flat) (hpart : e.isPart) (hliteral : e.isLiteral = false) :
    IsFlat (e :: flat) :=
  isFlat_cons.2 ⟨hpart, h, fun f _ hboth => by simp [hliteral] at hboth⟩

theorem IsFlat.pushFlat (h : IsFlat flat) (n : Note) (op : LeafOp) : IsFlat (pushFlat flat (leaf n op)) := by
  unfold Expr.pushFlat
  split
  · exact h
  · split
    · next ds rest =>
      obtain ⟨-, hrest, hapart⟩ := isFlat_cons.1 h
      refine isFlat_cons.2 ⟨?_, hrest, hapart⟩
      cases ds <;> rfl
    · next hno =>
      refine isFlat_cons.2 ⟨rfl, h, fun f hf hboth => ?_⟩
      cases flat with
      | nil => cases hf
      | cons g rest =>
        cases hf
        obtain ⟨m, ds, rfl⟩ := exists_literal hboth.2
        exact hno m ds rest rfl
  · next hempty hliteral =>
    refine h.cons_of_not_literal ?_ ?_
    · cases op with
      | literal cs => cases cs <;> simp_all
      | _ => rfl
    · cases op with
      | literal cs => cases cs <;> simp_all
      | _ => rfl

mutual

/-- Splicing leaves flat what is flat. -/
theorem IsFlat.splice {flat : List Expr} (h : IsFlat flat) (e : Expr) : IsFlat (splice flat e) := by
  match e with
  | nary n .block items => exact h.spliceAll items
  | nary n (.call f) args => exact h.cons_of_not_literal rfl rfl
  | leaf n op => exact h.pushFlat n op
  | unary n op a => exact h.cons_of_not_literal rfl rfl
  | binary n op a b => exact h.cons_of_not_literal rfl rfl
  | ternary n op a b d => exact h.cons_of_not_literal rfl rfl

theorem IsFlat.spliceAll {flat : List Expr} (h : IsFlat flat) (es : List Expr) : IsFlat (spliceAll flat es) := by
  match es with
  | [] => exact h
  | e :: es => exact (h.splice e).spliceAll es

end

theorem mem_pushFlat (hflat : ∀ x ∈ flat, x.IsSimple) (n : Note) (op : LeafOp) :
    ∀ x ∈ pushFlat flat (leaf n op), x.IsSimple := by
  unfold pushFlat
  split
  · exact hflat
  · split
    · exact List.forall_mem_cons.2 ⟨isSimple_leaf _ _, (List.forall_mem_cons.1 hflat).2⟩
    · exact List.forall_mem_cons.2 ⟨isSimple_leaf _ _, hflat⟩
  · exact List.forall_mem_cons.2 ⟨isSimple_leaf _ _, hflat⟩

mutual

/-- What is spliced into a flat sequence is simple if the operands are. -/
theorem mem_splice {flat : List Expr} (hflat : ∀ x ∈ flat, x.IsSimple) (e : Expr) (he : e.IsSimple) :
    ∀ x ∈ splice flat e, x.IsSimple := by
  match e with
  | nary n .block items => exact mem_spliceAll hflat items (all_nary.1 he).2
  | leaf n op => exact mem_pushFlat hflat n op
  | nary n (.call f) args | unary n op a | binary n op a b | ternary n op a b d =>
    exact List.forall_mem_cons.2 ⟨he, hflat⟩

theorem mem_spliceAll {flat : List Expr} (hflat : ∀ x ∈ flat, x.IsSimple) (es : List Expr)
    (hes : ∀ e ∈ es, e.IsSimple) :
    ∀ x ∈ spliceAll flat es, x.IsSimple := by
  match es with
  | [] => exact hflat
  | e :: es =>
    obtain ⟨he, hes⟩ := List.forall_mem_cons.1 hes
    exact mem_spliceAll (mem_splice hflat e he) es hes

end

/-- A part is put before flat ones as it is, if it does not meet another literal. -/
theorem splice_of_isFlat (h : IsFlat (e :: flat)) : splice flat e = e :: flat := by
  obtain ⟨hpart, -, hapart⟩ := isFlat_cons.1 h
  cases e with
  | nary n op args =>
    cases op with
    | block => cases hpart
    | call f => rfl
  | leaf n op =>
    cases op with
    | literal cs =>
      cases cs with
      | nil => cases hpart
      | cons c cs =>
        rw [splice]
        unfold pushFlat
        dsimp only
        split
        · exact absurd ⟨rfl, rfl⟩ (hapart _ rfl)
        · rfl
    | _ => rfl
  | _ => rfl

/-- Splicing changes nothing in a sequence that is flat. -/
theorem spliceAll_of_isFlat (es : List Expr) (h : IsFlat (es.reverse ++ flat)) :
    spliceAll flat es = es.reverse ++ flat := by
  induction es generalizing flat with
  | nil => rfl
  | cons e es ih =>
    rw [List.reverse_cons, List.append_assoc, List.singleton_append] at h ⊢
    have hnow : IsFlat (e :: flat) := ⟨fun x hx => h.parts x (List.mem_append_right _ hx), h.apart.right_of_append⟩
    rw [spliceAll, splice_of_isFlat hnow, ih h]

/-- Flattening gives something simple, if the operands are simple. -/
theorem isSimple_flatten (es : List Expr) (h : ∀ e ∈ es, e.IsSimple) (at' : LocationId) : (flatten es at').IsSimple := by
  have hflat := isFlat_nil.spliceAll es
  have hmem : ∀ x ∈ spliceAll [] es, x.IsSimple := mem_spliceAll (List.forall_mem_nil _) es h
  unfold flatten
  split
  · exact isSimple_leaf _ _
  · next x hx => exact hmem x (hx ▸ List.mem_singleton_self x)
  · next hnil hone =>
    refine isSimple_of_children ?_ fun x hx => hmem x (List.mem_reverse.1 hx)
    change flatten (spliceAll [] es).reverse at' = _
    have hagain : spliceAll [] (spliceAll [] es).reverse = spliceAll [] es := by
      rw [spliceAll_of_isFlat, List.reverse_reverse, List.append_nil]
      rwa [List.reverse_reverse, List.append_nil]
    unfold flatten
    rw [hagain]
    split
    · next hx => exact absurd hx hnil
    · next x hx => exact absurd hx (hone x)
    · rfl

/-! The other rules. -/

/-- What simplification puts in place of a node. -/
inductive Simplifies : Expr → Expr → Prop where
  | keep (e : Expr) : e.simplifyNode = e → Simplifies e e
  | operand (e x : Expr) : x ∈ e.children → Simplifies e x
  | literal (e : Expr) (n : Note) (cs : List Constant) : Simplifies e (leaf n (.literal cs))
  | last (n : Note) (op : BinaryOp) (a b : Expr) (at' : LocationId) : a.isEmptyLiteral = false →
    Simplifies (binary n op a b) (mkUnary .last a at')
  | sequence (n : Note) (es : List Expr) : Simplifies (nary n .block es) (flatten es n.location)

theorem simplifies_orConstant {c : Option Constant} (h : e.simplifyNode = e.orConstant c) :
    Simplifies e (e.orConstant c) := by
  cases c with
  | none => exact .keep e h
  | some c => exact .literal e _ [c]

theorem simplifies_ite {p : Prop} [Decidable p] {r : Expr} (h : e.simplifyNode = if p then r else e)
    (hr : p → Simplifies e r) : Simplifies e (if p then r else e) := by
  split
  · next hp => exact hr hp
  · next hp => exact .keep e (h.trans (if_neg hp))

theorem simplifies_unary (n : Note) (op : UnaryOp) (a : Expr) :
    Simplifies (unary n op a) (simplifyUnary (unary n op a) op a) := by
  have hnode : (unary n op a).simplifyNode = simplifyUnary (unary n op a) op a := rfl
  have ha : Simplifies (unary n op a) a := .operand _ a List.mem_cons_self
  cases op with
  | negate | plus => exact simplifies_orConstant hnode
  | sort | first | last => exact simplifies_ite hnode fun _ => ha
  | _ => exact .keep _ hnode

theorem simplifies_binary (n : Note) (op : BinaryOp) (a b : Expr) :
    Simplifies (binary n op a b) (simplifyBinary (binary n op a b) op a b) := by
  have hnode : (binary n op a b).simplifyNode = simplifyBinary (binary n op a b) op a b := rfl
  have ha : Simplifies (binary n op a b) a := .operand _ a List.mem_cons_self
  cases op with
  | arithmetic | valueComparison => exact simplifies_orConstant hnode
  | and | or =>
    unfold simplifyBinary at hnode ⊢
    dsimp only at hnode ⊢
    split at hnode
    · exact .literal _ _ [_]
    · exact .literal _ _ [_]
    · exact .keep _ hnode
  | filter =>
    unfold simplifyBinary at hnode ⊢
    dsimp only at hnode ⊢
    split
    · exact ha
    · next hempty =>
      rw [if_neg hempty] at hnode
      exact simplifies_ite hnode fun _ => .last n _ a b _ (Bool.not_eq_true _ ▸ hempty)
  | path | «for» => exact simplifies_ite hnode fun _ => ha
  | quantified => exact simplifies_ite hnode fun _ => .literal _ _ [_]
  | _ => exact .keep _ hnode

/-- A call that takes nothing and is a constant is that constant. -/
theorem simplifyNode_call (n : Note) (f : FunctionRef) (args : List Expr) :
    (nary n (.call f) args).simplifyNode = nary n (.call f) args ∨
      ∃ t, (nary n (.call f) args).simplifyNode = booleanAt t n.location := by
  cases f with
  | unresolved name => exact .inl rfl
  | builtin g =>
    cases args with
    | cons a as => cases g <;> exact .inl rfl
    | nil =>
      cases g with
      | true => exact .inr ⟨true, rfl⟩
      | false => exact .inr ⟨false, rfl⟩
      | _ => exact .inl rfl

theorem simplifies_node (e : Expr) : Simplifies e e.simplifyNode := by
  cases e with
  | leaf n op => exact .keep _ rfl
  | unary n op a => exact simplifies_unary n op a
  | binary n op a b => exact simplifies_binary n op a b
  | ternary n op a b d =>
    cases op with
    | indexedFilter => exact .keep _ rfl
    | «if» =>
      generalize h : (ternary n .if a b d).simplifyNode = r
      have hnode := h
      unfold simplifyNode at h
      dsimp only at h
      split at h
      · exact h ▸ .operand _ b (by simp [children])
      · exact h ▸ .operand _ d (by simp [children])
      · exact h ▸ .keep _ (hnode.trans h.symm)
  | nary n op args =>
    cases op with
    | block => exact .sequence n args
    | call f =>
      obtain hnode | ⟨t, ht⟩ := simplifyNode_call n f args
      · exact hnode.symm ▸ .keep _ hnode
      · exact ht ▸ .literal _ _ [_]

/-- Whatever rule applies, what it gives is simple if the operands are. -/
theorem Simplifies.isSimple {r : Expr} (h : Simplifies e r) (he : ∀ x ∈ e.children, x.IsSimple) : r.IsSimple := by
  cases h with
  | keep _ hnode => exact isSimple_of_children hnode he
  | operand _ _ hx => exact he r hx
  | literal _ n _ => exact isSimple_leaf n _
  | last n op a b at' hempty =>
    exact isSimple_of_children (if_neg (by simp [hempty])) (List.forall_mem_singleton.2 (he a List.mem_cons_self))
  | sequence n es => exact isSimple_flatten es he _

mutual

/-- Simplification leaves nothing to simplify. -/
theorem simplify_isSimple (e : Expr) : e.simplify.IsSimple := by
  match e with
  | leaf n op => exact isSimple_leaf n op
  | unary n op a =>
    exact (simplifies_node (unary n op a.simplify)).isSimple (List.forall_mem_singleton.2 (simplify_isSimple a))
  | binary n op a b =>
    refine (simplifies_node (binary n op a.simplify b.simplify)).isSimple ?_
    exact List.forall_mem_cons.2 ⟨simplify_isSimple a, List.forall_mem_singleton.2 (simplify_isSimple b)⟩
  | ternary n op a b d =>
    refine (simplifies_node (ternary n op a.simplify b.simplify d.simplify)).isSimple ?_
    exact List.forall_mem_cons.2 ⟨simplify_isSimple a, List.forall_mem_cons.2
      ⟨simplify_isSimple b, List.forall_mem_singleton.2 (simplify_isSimple d)⟩⟩
  | nary n op args => exact (simplifies_node (nary n op (simplifyList args))).isSimple (simplifyList_isSimple args)

theorem simplifyList_isSimple (es : List Expr) : ∀ x ∈ simplifyList es, x.IsSimple := by
  match es with
  | [] => nofun
  | e :: es => exact List.forall_mem_cons.2 ⟨simplify_isSimple e, simplifyList_isSimple es⟩

end

/-- Simplifying a second time changes nothing, whatever the expression: no operator, no constant and no note. -/
theorem simplify_simplify (e : Expr) : e.simplify.simplify = e.simplify :=
  simplify_of_isSimple e.simplify e.simplify_isSimple

end XPath.Expr
