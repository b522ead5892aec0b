import XPath.Expr

/-! Equality of expressions, notes included, is decidable. -/
namespace XPath.Expr

mutual

def decEq : (a b : Expr) → Decidable (a = b)
  | leaf n op, leaf m op' => decidable_of_iff (n = m ∧ op = op') (by simp)
  | unary n op a, unary m op' a' =>
    match decEq a a' with
    | isTrue h => decidable_of_iff (n = m ∧ op = op') (by simp [h])
    | isFalse h => isFalse (by simp [h])
  | binary n op a b, binary m op' a' b' =>
    match decEq a a', decEq b b' with
    | isTrue h, isTrue k => decidable_of_iff (n = m ∧ op = op') (by simp [h, k])
    | isFalse h, _ => isFalse (by simp [h])
    | _, isFalse k => isFalse (by simp [k])
  | ternary n op a b c, ternary m op' a' b' c' =>
    match decEq a a', decEq b b', decEq c c' with
    | isTrue h, isTrue k, isTrue l => decidable_of_iff (n = m ∧ op = op') (by simp [h, k, l])
    | isFalse h, _, _ => isFalse (by simp [h])
    | _, isFalse k, _ => isFalse (by simp [k])
    | _, _, isFalse l => isFalse (by simp [l])
  | nary n op es, nary m op' es' =>
    match decEqList es es' with
    | isTrue h => decidable_of_iff (n = m ∧ op = op') (by simp [h])
    | isFalse h => isFalse (by simp [h])
  | leaf .., unary .. | leaf .., binary .. | leaf .., ternary .. | leaf .., nary ..
  | unary .., leaf .. | unary .., binary .. | unary .., ternary .. | unary .., nary ..
  | binary .., leaf .. | binary .., unary .. | binary .., ternary .. | binary .., nary ..
  | ternary .., leaf .. | ternary .., unary .. | ternary .., binary .. | ternary .., nary ..
  | nary .., leaf .. | nary .., unary .. | nary .., binary .. | nary .., ternary .. =>
    isFalse nofun

def decEqList : (as bs : List Expr) → Decidable (as = bs)
  | [], [] => isTrue rfl
  | a :: as, b :: bs =>
    match decEq a b, decEqList as bs with
    | isTrue h, isTrue k => isTrue (by rw [h, k])
    | isFalse h, _ => isFalse (by simp [h])
    | _, isFalse k => isFalse (by simp [k])
  | [], _ :: _ | _ :: _, [] => isFalse nofun

end

instance : DecidableEq Expr := decEq

end XPath.Expr
