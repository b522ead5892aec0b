import XPath.Proofs.Infix

/-!
Trees up to locations and slots. Where one text is read twice, the trees have other locations, and their variables
have other slots; a change of labels takes both trees to one.
-/
namespace XPath
variable (f : Slot → Slot)

def Mode.relabel : Mode → Mode
  | .oneShotClosure captured => .oneShotClosure (captured.map f)
  | .memoClosure captured => .memoClosure (captured.map f)
  | m => m

def Note.relabel (n : Note) : Note := { n with location := 0, mode := n.mode.relabel f }

def LeafOp.relabel : LeafOp → LeafOp
  | .variable (.range slot) => .variable (.range (f slot))
  | op => op

def BinaryOp.relabel : BinaryOp → BinaryOp
  | .for slot => .for (f slot)
  | .let slot => .let (f slot)
  | .quantified q slot => .quantified q (f slot)
  | op => op

theorem BinaryOp.relabel_eq {op : BinaryOp} (h : op.slot? = none) : op.relabel f = op := by
  cases op <;> first | rfl | cases h

@[simp] theorem BindingKeyword.operator_relabel (k : BindingKeyword) (slot : Slot) :
    (k.operator slot).relabel f = k.operator (f slot) := by
  cases k <;> rfl

theorem Note.relabel_id (n : Note) : n.relabel id = { n with location := 0 } := by
  unfold Note.relabel
  cases n.mode <;> simp [Mode.relabel]

theorem LeafOp.relabel_id (op : LeafOp) : op.relabel id = op := by
  cases op with
  | «variable» ref => cases ref <;> rfl
  | _ => rfl

theorem BinaryOp.relabel_id (op : BinaryOp) : op.relabel id = op := by cases op <;> rfl

namespace Expr

mutual

/-- The tree without its locations, in which the slots are renamed. -/
def relabel : Expr → Expr
  | leaf n op => leaf (n.relabel f) (op.relabel f)
  | unary n op a => unary (n.relabel f) op a.relabel
  | binary n op a b => binary (n.relabel f) (op.relabel f) a.relabel b.relabel
  | ternary n op a b c => ternary (n.relabel f) op a.relabel b.relabel c.relabel
  | nary n op args => nary (n.relabel f) op (relabelList args)

def relabelList : List Expr → List Expr
  | [] => []
  | e :: es => e.relabel :: relabelList es

end

@[simp] theorem relabelList_eq (es : List Expr) : relabelList f es = es.map (relabel f) := by
  induction es with
  | nil => rfl
  | cons e es ih => rw [relabelList, ih, List.map_cons]

mutual

/-- If no slot is renamed, only the locations go. -/
theorem relabel_id : ∀ e : Expr, e.relabel id = e.unlocated
  | leaf n op => by rw [relabel, unlocated, Note.relabel_id, LeafOp.relabel_id]
  | unary n op a => by rw [relabel, unlocated, Note.relabel_id, relabel_id a]
  | binary n op a b => by
    rw [relabel, unlocated, Note.relabel_id, BinaryOp.relabel_id, relabel_id a, relabel_id b]
  | ternary n op a b c => by rw [relabel, unlocated, Note.relabel_id, relabel_id a, relabel_id b, relabel_id c]
  | nary n op args => by rw [relabel, unlocated, Note.relabel_id, relabelList_id args]

theorem relabelList_id : ∀ es : List Expr, relabelList id es = unlocatedList es
  | [] => rfl
  | e :: es => by rw [relabelList, unlocatedList, relabel_id e, relabelList_id es]

end

@[simp] theorem relabel_mkLeaf (op : LeafOp) (at' : LocationId) :
    (mkLeaf op at').relabel f = mkLeaf (op.relabel f) 0 := rfl

@[simp] theorem relabel_mkUnary (op : UnaryOp) (a : Expr) (at' : LocationId) :
    (mkUnary op a at').relabel f = mkUnary op (a.relabel f) 0 := rfl

@[simp] theorem relabel_mkBinary (op : BinaryOp) (a b : Expr) (at' : LocationId) :
    (mkBinary op a b at').relabel f = mkBinary (op.relabel f) (a.relabel f) (b.relabel f) 0 := rfl

@[simp] theorem relabel_mkTernary (op : TernaryOp) (a b c : Expr) (at' : LocationId) :
    (mkTernary op a b c at').relabel f = mkTernary op (a.relabel f) (b.relabel f) (c.relabel f) 0 := rfl

@[simp] theorem relabel_mkNary (op : NaryOp) (args : List Expr) (at' : LocationId) :
    (mkNary op args at').relabel f = mkNary op (args.map (relabel f)) 0 := by
  rw [← relabelList_eq]
  rfl

@[simp] theorem constant?_relabel (e : Expr) : (e.relabel f).constant? = e.constant? := by
  cases e with
  | leaf n op =>
    cases op with
    | literal cs => rcases cs with _ | ⟨c, _ | _⟩ <;> rfl
    | «variable» ref => cases ref <;> rfl
    | _ => rfl
  | _ => rfl

@[simp] theorem relabel_sortedPath (e : Expr) : e.sortedPath.relabel f = (e.relabel f).sortedPath := by
  cases e with
  | binary n op a b => cases op <;> rfl
  | _ => rfl

@[simp] theorem relabel_descendantOrSelf (e : Expr) (at' : LocationId) :
    (e.descendantOrSelf at').relabel f = (e.relabel f).descendantOrSelf 0 := rfl

@[simp] theorem relabel_pathStep (left step : Expr) (at' : LocationId) :
    (left.pathStep step at').relabel f = (left.relabel f).pathStep (step.relabel f) 0 := by
  rw [pathStep, relabel_mkBinary, relabel_sortedPath]
  rfl

@[simp] theorem relabel_applySigns (signed negative : Bool) (e : Expr) (at' : LocationId) :
    (Parser.applySigns signed negative e at').relabel f = Parser.applySigns signed negative (e.relabel f) 0 := by
  unfold Parser.applySigns
  rw [constant?_relabel]
  dsimp only
  rw [apply_ite (relabel f), apply_ite (relabel f)]
  rfl

end Expr
end XPath
