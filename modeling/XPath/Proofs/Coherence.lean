import XPath.Proofs.Noninterference
import XPath.Proofs.Regime

/-!
The three ways of evaluating an expression agree: asking for one item after the other until there are no more,
having all of them pushed, and asking for the only one. A block is the operator with two ways of its own, one to
give items and one to push them; for it the parts have to agree.
-/
namespace XPath

namespace Pull
variable {σ ε α : Type} {g : ε → ε}

theorem collect_mapError (p : Pull σ ε α) (met : List α) :
    (p.mapError g).collect met = ((p.collect met).1.mapError g, (p.collect met).2) := by
  induction p generalizing met with
  | done s => rfl
  | item r s rest ih =>
    cases r with
    | error e => rfl
    | ok a => exact ih s (a :: met)

/-- What has been met comes first. -/
theorem collect_met (p : Pull σ ε α) (met : List α) :
    p.collect met = ((p.collect []).1.map (met.reverse ++ ·), (p.collect []).2) := by
  induction p generalizing met with
  | done s => simp [collect, Except.map]
  | item r s rest ih =>
    cases r with
    | error e => rfl
    | ok a =>
      rw [collect, collect, ih s (a :: met), ih s [a]]
      cases ((rest s).collect []).1 with
      | error e => rfl
      | ok as => simp [Except.map]

theorem collect_append (p : Pull σ ε α) (second : Source σ ε α) (met : List α) :
    (p.append second).collect met = match p.collect met with
      | (.ok as, s) => (second s).collect as.reverse
      | (.error e, s) => (.error e, s) := by
  induction p generalizing met with
  | done s => simp [append, collect]
  | item r s rest ih =>
    cases r with
    | error e => rfl
    | ok a => exact ih s (a :: met)

end Pull

namespace Source
variable {σ ε α : Type}

theorem perform_toList (src : Source World Failure α) (w : World) : src.toList.perform w = (src w).collect [] := rfl

theorem toList_mapError (src : Source World Failure α) (g : Failure → Failure) :
    (src.mapError g).toList = src.toList.mapError g := by
  funext w
  exact ((src w).collect_mapError []).trans (Regime.perform_mapError src.toList g w).symm

theorem toList_ofList (as : List α) : (ofList as : Source World Failure α).toList = pure as := by
  have hcollect (met : List α) (w : World) : ((ofList as : Source World Failure α) w).collect met =
      (.ok (met.reverse ++ as), w) := by
    induction as generalizing met w with
    | nil => simp [ofList, Pull.collect]
    | cons a as ih => simp [ofList, Pull.collect, ih]
  funext w
  exact hcollect [] w

theorem toList_after (a : Eval (Source World Failure α)) :
    (after a).toList = a >>= fun src => src.toList := by
  funext w
  change (after a).toList.perform w = Action.perform _ w
  rw [Regime.perform_bind, perform_toList, after]
  cases a.perform w with
  | mk r w' => cases r <;> rfl

/-- A list that is evaluated first. -/
theorem toList_list (a : Eval (List α)) : (after do return ofList (← a)).toList = a := by
  have hgive : (fun xs : List α => (pure (ofList xs) : Eval (Source World Failure α)) >>= fun src => src.toList) =
      pure := funext fun xs => (pure_bind ..).trans (toList_ofList xs)
  rw [toList_after, bind_assoc, hgive, bind_pure]

theorem toList_append (a b : Source World Failure α) :
    (a.append b).toList = do return (← a.toList) ++ (← b.toList) := by
  funext w
  change (a.append b).toList.perform w = Action.perform _ w
  rw [Regime.perform_bind, perform_toList, perform_toList, append, Pull.collect_append]
  cases (a w).collect [] with
  | mk r w₁ =>
    cases r with
    | error e => rfl
    | ok as =>
      dsimp only
      rw [Regime.perform_bind, perform_toList, Pull.collect_met, List.reverse_reverse]
      cases (b w₁).collect [] with
      | mk r w₂ => cases r <;> rfl

/-- The items of sources one after the other. -/
theorem toList_concat (srcs : List (Source World Failure α)) :
    (concat srcs).toList = List.flatten <$> srcs.mapM toList := by
  induction srcs with
  | nil => rfl
  | cons src srcs ih =>
    rw [concat, toList_append, ih, List.mapM_cons]
    simp

end Source

namespace Ways

/-- What evaluating to at most one item comes to where evaluating to all items comes to `all`: if there is at most
one it is that one, in the same world, and otherwise there is a failure. -/
def IsOnly (all : Except Failure (List Item) × World) (one : Except Failure (Option Item) × World) : Prop :=
  match all with
  | (.ok [], w) => one = (.ok none, w)
  | (.ok [x], w) => one = (.ok (some x), w)
  | _ => ∃ e w, one = (.error e, w)

theorem isOnly_only? (p : Pull World Failure Item) (many : Failure) : IsOnly (p.collect []) (p.only? many) := by
  cases p with
  | done w => rfl
  | item r w rest =>
    cases r with
    | error e => exact ⟨e, w, rfl⟩
    | ok x =>
      rw [Pull.collect, Pull.only?]
      cases rest w with
      | done w => rfl
      | item r w rest =>
        cases r with
        | error e => exact ⟨e, w, rfl⟩
        | ok y =>
          -- The item that is met second is in the way, whatever becomes of the others.
          rw [Pull.collect, Pull.collect_met]
          cases (rest w).collect [] with
          | mk r w' => cases r <;> exact ⟨many, w, rfl⟩

/-- The three ways agree in every frame and every world. -/
structure Coherent (a : Ways) : Prop where
  push f : a.push f = a.toList f
  item f w : IsOnly ((a.toList f).perform w) ((a.item f).perform w)

theorem toList_ofItem (n : Note) (x : Frame → Eval (Option Item)) (f : Frame) :
    (ofItem n x).toList f = do return (← (x f).orAt n.location).toList := by
  change (Source.after do return Source.ofOption (← (x f).orAt n.location)).toList = _
  rw [Source.toList_after, bind_assoc]
  exact bind_congr fun o => (pure_bind ..).trans (Source.toList_ofList o.toList)

theorem coherent_ofItem (n : Note) (x : Frame → Eval (Option Item)) : (ofItem n x).Coherent where
  push _ := rfl
  item f w := by
    rw [toList_ofItem, Regime.perform_bind]
    change IsOnly _ (((x f).orAt n.location).perform w)
    cases ((x f).orAt n.location).perform w with
    | mk r w' =>
      cases r with
      | error e => exact ⟨e, w', rfl⟩
      | ok o => cases o <;> rfl

/-- It suffices that what is pushed is what is given, before any location is attached. -/
theorem coherent_ofItemsAndPush (n : Note) {items : Frame → Items} {push : Frame → Eval (List Item)}
    (h : ∀ f, push f = (items f).toList) : (ofItemsAndPush n items push).Coherent where
  push f := by
    change (push f).orAt n.location = ((items f).mapError (Failure.orAt n.location)).toList
    rw [h f, Source.toList_mapError]
    rfl
  item f w := isOnly_only? ((items f).mapError (Failure.orAt n.location) w) _

theorem coherent_ofItems (n : Note) (items : Frame → Items) : (ofItems n items).Coherent :=
  coherent_ofItemsAndPush n fun _ => rfl

/-- All items of an operator that evaluates them first. -/
theorem toList_ofItems_list (n : Note) (p : Frame → Eval (List Item)) (f : Frame) :
    (ofItems n fun f => .after do return .ofList (← p f)).toList f = (p f).orAt n.location := by
  change ((Source.after do return Source.ofList (← p f)).mapError (Failure.orAt n.location)).toList = _
  rw [Source.toList_mapError, Source.toList_list]
  rfl

theorem coherent_ofPush (n : Note) (push : Frame → Eval (List Item)) : (ofPush n push).Coherent :=
  coherent_ofItemsAndPush n fun f => (Source.toList_list (push f)).symm

/-- The parts of a block are given one after the other and pushed one after the other. -/
theorem coherent_block (c : DynamicContext) (n : Note) {args : List Ways} (h : ∀ a ∈ args, a.Coherent) :
    (NaryOp.block.ways c n args).Coherent := by
  refine coherent_ofItemsAndPush n fun f => ?_
  have hparts : args.mapM (·.push f) = args.mapM (·.toList f) := by
    induction args with
    | nil => rfl
    | cons a args ih =>
      rw [List.mapM_cons, List.mapM_cons, (h a List.mem_cons_self).push,
        ih fun b hb => h b (List.mem_cons_of_mem a hb)]
  rw [hparts, Source.toList_concat, List.mapM_map]
  exact bind_pure_comp ..

end Ways

open Ways

theorem LeafOp.coherent (c : DynamicContext) (n : Note) (op : LeafOp) : (op.ways c n).Coherent := by
  cases op with
  | literal cs =>
    rw [LeafOp.ways_literal]
    exact coherent_ofItems ..
  | «variable» | step => exact coherent_ofItems ..
  | contextItem | root => exact coherent_ofItem ..

theorem UnaryOp.coherent (n : Note) (a : Ways) (op : UnaryOp) : (op.ways n a).Coherent := by
  cases op with
  | element | text => exact coherent_ofPush ..
  | sort | reverse | slice | treat => exact coherent_ofItems ..
  | _ => exact coherent_ofItem ..

theorem BinaryOp.coherent (n : Note) (a b : Meaning) (op : BinaryOp) : (op.ways n a b).Coherent := by
  cases op with
  | range | set | path | filter | «for» | «let» => exact coherent_ofItems ..
  | _ => exact coherent_ofItem ..

theorem TernaryOp.coherent (n : Note) (exprs : Expr × Expr) (a b c : Ways) (op : TernaryOp) :
    (op.ways n exprs a b c).Coherent := by
  cases op <;> exact coherent_ofItems ..

theorem NaryOp.coherent (c : DynamicContext) (n : Note) {args : List Ways} (h : ∀ a ∈ args, a.Coherent)
    (op : NaryOp) : (op.ways c n args).Coherent := by
  cases op with
  | block => exact coherent_block c n h
  | call f => cases f <;> exact coherent_ofItems ..

namespace Expr

theorem coherent (c : DynamicContext) (e : Expr) : (e.meaning c).Coherent := by
  cases e with
  | leaf n op =>
    rw [meaning_leaf]
    exact op.coherent c n
  | unary n op a =>
    rw [meaning_unary]
    exact op.coherent n _
  | binary n op a b =>
    rw [meaning_binary]
    exact op.coherent n _ _
  | ternary n op a b d =>
    rw [meaning_ternary]
    exact op.coherent n _ _ _ _
  | nary n op args =>
    rw [meaning_nary]
    refine op.coherent c n fun x hx => ?_
    obtain ⟨a, ha, rfl⟩ := List.mem_map.1 hx
    exact coherent c a

/-- Pushing all items gives the items that asking for them one by one gives, or the same failure at the same
place, and leaves the same world; asking for the only item gives it if there is at most one, and fails else. -/
theorem evaluates_alike (c : DynamicContext) (e : Expr) (f : Frame) (w : World) :
    ((e.meaning c).push f).perform w = ((e.meaning c).items f).toList.perform w ∧
      IsOnly (((e.meaning c).items f).toList.perform w) (((e.meaning c).item f).perform w) :=
  ⟨by rw [(e.coherent c).push f, Ways.toList], (e.coherent c).item f w⟩

end Expr
end XPath
