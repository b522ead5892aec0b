import XPath.Proofs.Binders
import XPath.Proofs.Draws
import XPath.Proofs.Scope

/-!
Loops that are rewritten. A loop over steps from its variable is a path: every step is evaluated under the same
nodes, one after the other, in both. A loop over a single item is a let, except that the end of the source is
looked for before the body is evaluated, which shows only if something is found out there.
-/
namespace XPath

namespace Pull
variable {α β : Type}

/-- The same items in the same worlds, up to a failure on both sides. -/
inductive Alike : Pull World Failure α → Pull World Failure α → Prop where
  | done (w : World) : Alike (.done w) (.done w)
  | ok {x} {w : World} {rest rest'} : (∀ w, Alike (rest w) (rest' w)) →
    Alike (.item (.ok x) w rest) (.item (.ok x) w rest')
  | error {e e'} {w w' : World} {rest rest'} : Alike (.item (.error e) w rest) (.item (.error e') w' rest')

namespace Alike
variable {p p' : Pull World Failure α}

theorem refl (p : Pull World Failure α) : Alike p p := by
  induction p with
  | done w => exact .done w
  | item r w rest ih =>
    cases r with
    | error e => exact .error
    | ok x => exact .ok ih

theorem of_eq {q : Pull World Failure α} (h : p = q) : Alike p q := h ▸ refl p

theorem of_error {e e' : Failure} {w w' : World} {rest rest' : World → Pull World Failure α}
    (h : Alike p (.item (.error e) w rest)) : Alike p (.item (.error e') w' rest') := by
  cases h
  exact .error

/-- Where a failure is located does not matter. -/
theorem mapError_left (h : Alike p p') (g : Failure → Failure) : Alike (p.mapError g) p' := by
  induction h with
  | done w => exact .done w
  | ok _ ih => exact .ok ih
  | error => exact .error

theorem mapError_right (h : Alike p p') (g : Failure → Failure) : Alike p (p'.mapError g) := by
  induction h with
  | done w => exact .done w
  | ok _ ih => exact .ok ih
  | error => exact .error

theorem append (h : Alike p p') {second second' : Source World Failure α}
    (hs : ∀ w, Alike (second w) (second' w)) : Alike (p.append second) (p'.append second') := by
  induction h with
  | done w => exact hs w
  | ok _ ih => exact .ok ih
  | error => exact .error

theorem append_done (p : Pull World Failure α) : Alike (p.append .done) p := by
  induction p with
  | done w => exact .done w
  | item r w rest ih =>
    cases r with
    | error e => exact .error
    | ok x => exact .ok ih

theorem bind (h : Alike p p') {f f' : ℕ → α → Source World Failure β}
    (hf : ∀ n x w, Alike (f n x w) (f' n x w)) (n : ℕ) : Alike (p.bind f n) (p'.bind f' n) := by
  induction h generalizing n with
  | done w => exact .done w
  | @ok x w _ _ _ ih =>
    rw [Regime.bind_item, Regime.bind_item]
    exact (hf n x w).append fun w => ih w (n + 1)
  | error => exact .error

/-- All items are the same if there is no failure. -/
theorem collect (h : Alike p p') {met xs : List α} {w : World} (hp : p.collect met = (.ok xs, w)) :
    p'.collect met = (.ok xs, w) := by
  induction h generalizing met with
  | done w => exact hp
  | ok _ ih => exact ih _ hp
  | error => cases hp

end Alike
end Pull

namespace Expr
variable {c : DynamicContext} {f g : Frame} {slot : Slot} {x : Item}

/-- The nodes under which the steps of a path are evaluated are not counted beforehand. -/
theorem items_path (n : Note) (a b : Expr) (hlast : b.info.dependencies.last = false) (w : World) :
    ((binary n .path a b).meaning c).items f w =
      ((((a.meaning c).items f w).bind (fun m x => if x.node?.isSome then (b.meaning c).items (f.withFocus x m none)
        else .fail { code := .pathOnNonNode }) 1).mapError (Failure.orAt n.location)) := by
  have hcounted : (a.meaning c).counted (b.meaning c).toWays f = pure ((a.meaning c).items f, none) := by
    rw [Ways.counted, meaning_note, show b.note.info.dependencies.last = false from hlast]
    rfl
  rw [meaning_binary]
  change Pull.mapError _ ((a.meaning c).path (b.meaning c).toWays f w) = _
  rw [Ways.path, hcounted]
  rfl

/-- The variable of a loop gives its item. -/
theorem items_variable (c : DynamicContext) (f : Frame) (n : Note) (slot : Slot) (x : Item) (w : World) :
    ((leaf n (.variable (.range slot))).meaning c).items (f.bind slot (.items [x])) w = .item (.ok x) w .done := by
  have hslot : (f.bind slot (.items [x])).slots slot = some (.items [x]) := if_pos rfl
  have hvalue : (f.bind slot (.items [x])).valueOf c (.range slot) = pure (.items [x]) := by
    rw [Frame.valueOf, hslot]
    rfl
  rw [meaning_leaf]
  change Pull.mapError _ (Source.after (do return (← (f.bind slot (.items [x])).valueOf c (.range slot)).source) w) = _
  rw [hvalue]
  rfl

/-- The body of a loop, for one of its items, gives what the path without the variable gives under that item, which
has to be a node. -/
def IsPathUnder (c : DynamicContext) (slot : Slot) (body path : Expr) : Prop :=
  ∀ (f : Frame) (x : Item) (n : ℕ) (size : Option ℕ) (w : World),
    Pull.Alike ((body.meaning c).items (f.bind slot (.items [x])) w)
      ((if x.node?.isSome then (path.meaning c).items (f.withFocus x n size) else .fail { code := .pathOnNonNode }) w)

/-- A step that neither mentions the variable nor asks for a position does the same under a node of the body as it
does under that node of the path. -/
theorem step_eq {step : Expr} (hr : step.Recorded) (hf : step.All IsFormed) (hslot : step.references slot = false)
    (hplace : step.readsPosition = false) (c : DynamicContext) (f : Frame) (v : Value) (x : Item) (n m : ℕ)
    (size size' : Option ℕ) :
    (step.meaning c).items ((f.bind slot v).withFocus x n size) = (step.meaning c).items (f.withFocus x m size') := by
  obtain ⟨hposition, hlast⟩ := Bool.or_eq_false_iff.1 hplace
  have hread : step.effects.reads = step.info.dependencies := congrArg Effects.reads hr.self.symm
  have hagree : Frame.Agree (fun s => step.needs s) step.effects.reads ((f.bind slot v).withFocus x n size)
      (f.withFocus x m size') := by
    refine ⟨fun s hs => if_neg fun heq => ?_, fun _ => rfl, fun hp => ?_, fun hl => ?_⟩
    · exact not_needs_of_references hslot (heq ▸ hs)
    · rw [hread, hposition] at hp
      cases hp
    · rw [hread, hlast] at hl
      cases hl
  exact (determined c step hr hf _ _ hagree).1.items

theorem isPathUnder_stripHead (body : Expr) (h : body.isStepOf slot) (hr : body.Recorded) (hf : body.All IsFormed) :
    IsPathUnder c slot body body.stripHead := by
  match body with
  | binary n op head step =>
    cases op with
    | path =>
      unfold isStepOf at h
      simp only [Bool.and_eq_true, Bool.not_eq_true'] at h
      obtain ⟨⟨hhead, hslot⟩, hplace⟩ := h
      obtain ⟨-, hrh, hrs⟩ := all_binary.1 hr
      obtain ⟨-, hfh, hfs⟩ := all_binary.1 hf
      have hlast := (Bool.or_eq_false_iff.1 hplace).2
      have hstep := step_eq hrs hfs hslot hplace c
      intro f x m size w
      rw [items_path n head step hlast]
      refine .mapError_left ?_ _
      split at hhead
      · next k s =>
        -- The path begins under the item itself.
        obtain rfl := eq_of_beq hhead
        rw [items_variable, Regime.bind_item, hstep f (.items [x]) x 1 m none size]
        exact .append_done _
      · have ih := isPathUnder_stripHead head hhead hrh hfh f x m size w
        have hstrip : (binary n .path head step).stripHead = mkBinary .path head.stripHead step n.location := by
          rw [stripHead]
          rintro k r rfl
          cases hhead
        have hsteps := ih.bind (fun k y w => .of_eq (congrFun (congrArg (fun src : Items => if y.node?.isSome then src
          else .fail { code := .pathOnNonNode }) (hstep f (.items [x]) y k k none none)) w)) 1
        rw [hstrip]
        cases hnode : x.node?.isSome with
        | true =>
          rw [hnode] at hsteps
          rw [if_pos rfl, mkBinary, items_path _ head.stripHead step hlast]
          exact hsteps.mapError_right _
        | false =>
          rw [hnode] at hsteps
          exact hsteps.of_error
    | _ => cases h
  | leaf n op => cases h
  | unary n op a => cases h
  | ternary n op a b d => cases h
  | nary n op args => cases h

/-- The steps of the path are not counted either. -/
theorem stripHead_last (body : Expr) (h : body.isStepOf slot) : body.stripHead.info.dependencies.last = false := by
  match body with
  | binary n op head step =>
    cases op with
    | path =>
      unfold isStepOf at h
      simp only [Bool.and_eq_true, Bool.not_eq_true'] at h
      have hlast := (Bool.or_eq_false_iff.1 h.2).2
      unfold stripHead
      split
      · exact hlast
      · rfl
    | _ => cases h
  | leaf n op => cases h
  | unary n op a => cases h
  | ternary n op a b d => cases h
  | nary n op args => cases h

theorem items_for (n : Note) (a b : Expr) (w : World) :
    ((binary n (.for slot) a b).meaning c).items f w =
      ((((a.meaning c).items f w).bind (fun _ x => (b.meaning c).items (f.bind slot (.items [x]))) 1).mapError
        (Failure.orAt n.location)) := by
  rw [meaning_binary]
  rfl

/-- All items of a loop over steps are those of the path. -/
theorem loop_as_path (n : Note) (at' : LocationId) {source body : Expr} (h : body.isStepOf slot) (hr : body.Recorded)
    (hf : body.All IsFormed) {xs : List Item} {w w' : World}
    (hloop : (((binary n (.for slot) source body).meaning c).toList f).perform w = (.ok xs, w')) :
    (((mkBinary .path source body.stripHead at').meaning c).toList f).perform w = (.ok xs, w') := by
  have halike : Pull.Alike (((binary n (.for slot) source body).meaning c).items f w)
      (((mkBinary .path source body.stripHead at').meaning c).items f w) := by
    rw [items_for, mkBinary, items_path _ _ _ (stripHead_last body h)]
    refine .mapError_left (.mapError_right (.bind (.refl _) (fun m x w => ?_) 1) _) _
    exact isPathUnder_stripHead body h hr hf f x m none w
  exact halike.collect hloop

/-- The value of a let is all that the source gives, until another way to obtain it is chosen. -/
theorem bound_eager {e : Expr} (h : e.mode = .iterateAndMaterialize) (f : Frame) :
    (e.meaning c).bound f = do return Value.items (← (e.meaning c).toList f) := by
  have hown (parts : List Ways) (own : Ways) : (meaningOf c e parts own).bound f = do
      return Value.items (← (meaningOf c e parts own).toList f) := by
    unfold meaningOf Expr.bound
    rw [h]
  cases e with
  | leaf n op => rw [meaning_leaf, hown]
  | unary n op a => rw [meaning_unary, hown]
  | binary n op a b => rw [meaning_binary, hown]
  | ternary n op a b d => rw [meaning_ternary, hown]
  | nary n op args => rw [meaning_nary, hown]

theorem items_let (n : Note) {a : Expr} (ha : a.mode = .iterateAndMaterialize) (b : Expr) :
    ((binary n (.let slot) a b).meaning c).items f =
      (Source.after do return (b.meaning c).items (f.bind slot (.items (← (a.meaning c).toList f)))).mapError
        (Failure.orAt n.location) := by
  rw [meaning_binary]
  change (Source.after do return (b.meaning c).items (f.bind slot (← (a.meaning c).bound f))).mapError _ = _
  rw [bound_eager ha, bind_assoc]
  rfl

/-- A loop over a source that ends right after its only item. -/
theorem loop_as_let (n : Note) (at' : LocationId) {source body : Expr} (hmode : source.mode = .iterateAndMaterialize)
    {x : Item} {xs : List Item} {w w₁ w' : World} (hsource : (source.meaning c).items f w = .item (.ok x) w₁ .done)
    (hloop : (((binary n (.for slot) source body).meaning c).toList f).perform w = (.ok xs, w')) :
    (((mkBinary (.let slot) source body at').meaning c).toList f).perform w = (.ok xs, w') := by
  have hvalue : ((source.meaning c).toList f).perform w = (.ok [x], w₁) := by
    rw [Ways.toList, Source.perform_toList, hsource]
    rfl
  have halike : Pull.Alike (((binary n (.for slot) source body).meaning c).items f w)
      (((mkBinary (.let slot) source body at').meaning c).items f w) := by
    rw [items_for, hsource, Regime.bind_item, mkBinary, items_let _ hmode]
    refine .mapError_left (.mapError_right ?_ _) _
    unfold Source.after
    rw [Regime.perform_bind, hvalue]
    exact .append_done _
  exact halike.collect hloop

end Expr

namespace Settlement
variable {S : Settlement} {f : Frame} {slot : Slot}

/-- What a loop over at most one item gives, the let gives, whenever the end of the source is looked for. -/
theorem loop_as_let {n : Note} {source body : Expr} (h : (Expr.binary n (.for slot) source body).IsSteady)
    (hc : S.setting.HasContext S.context) (hf : S.setting.HasFrame f) (at' : LocationId)
    (hmode : source.mode = .iterateAndMaterialize) {w : World} (hw : S.Good w) {xs : List Item}
    (hcount : ∀ ys, source.result S.context f w = .ok ys → ys.length = 1)
    (hloop : (Expr.binary n (.for slot) source body).result S.context f w = .ok xs) :
    (Expr.mkBinary (.let slot) source body at').result S.context f w = .ok xs := by
  obtain ⟨hsource, hbody⟩ := h.binary
  obtain ⟨rs, hrs, hinside⟩ := exists_draws_items hsource hc hf
  have hitem (x : Item) : ∃ rs, S.exchange.Has x →
      S.Draws ((body.meaning S.context).items (f.bind slot (.items [x]))) rs := by
    by_cases hx : S.exchange.Has x
    · have hvalue : S.setting.HasValue (.items [x]) := List.forall_mem_singleton.2 hx
      obtain ⟨rs, hrs, -⟩ := exists_draws_items hbody hc (hf.bind hvalue)
      exact ⟨rs, fun _ => hrs⟩
    · exact ⟨[], fun hx' => absurd hx' hx⟩
  choose results hresults using hitem
  have hall : S.Draws (((Expr.binary n (.for slot) source body).meaning S.context).items f)
      ((rs.flatMap (perItem results)).map (·.mapError (Failure.orAt n.location))) := by
    intro w hw
    rw [Expr.items_for]
    exact ((hrs.bind fun _ x hx => hresults x (hinside x hx)).mapError _) w hw
  have hgiven : delivered (rs.flatMap (perItem results)) = .ok xs := by
    rw [hall.result hw, delivered_map_error] at hloop
    exact ok_of_mapError hloop
  -- The loop does not fail, so the source does not; then it gives one item.
  obtain ⟨ys, rfl⟩ : ∃ ys : List Item, rs = ys.map .ok := by
    refine exists_items fun e he => ?_
    have hmem : .error e ∈ rs.flatMap (perItem results) := List.mem_flatMap.2 ⟨_, he, List.mem_singleton.2 rfl⟩
    rw [delivered_eq_ok.1 hgiven] at hmem
    obtain ⟨x, -, hx⟩ := List.mem_map.1 hmem
    cases hx
  obtain ⟨x, rfl⟩ := List.length_eq_one_iff.1 (hcount ys (hrs.result hw ▸ delivered_items ys))
  have hlet : S.Draws (((Expr.mkBinary (.let slot) source body at').meaning S.context).items f)
      ((results x).map (·.mapError (Failure.orAt at'))) := by
    rw [Expr.mkBinary, Expr.items_let _ hmode]
    exact (Draws.after hrs.toList.gives (hresults x (hinside x (by simp)))).mapError _
  have hsingle : ([x].map Except.ok).flatMap (perItem results) = results x := List.append_nil _
  rw [hlet.result hw, delivered_map_error, ← hsingle, hgiven]
  rfl

end Settlement
namespace Typing
open XPath.Expr

/-- A checked loop that is rewritten. If it becomes a path, that gives all items of the loop, in every frame and every
world, and leaves the same world. If it becomes a let, of which the value is not yet obtained in another way, that
does so where the source gives an item and then ends at once; and it gives the items of the loop where the loop is
steady, the order of the trees is settled and the source gives as many items as its type allows. -/
theorem check_loop_rewritten {context : StaticContext} {unit unit' : CompileUnit} {e source body e' : Expr} {n : Note}
    {slot : Slot} (hcheck : (check e).run context unit = (.ok (binary n (.for slot) source body), unit'))
    (hformed : e.All IsFormed) (hrewrite : rewriteFor n.location slot source body = some e') :
    let loop := binary n (.for slot) source body
    (source.cardinality ≠ .one → ∀ c f w xs w', ((loop.meaning c).toList f).perform w = (.ok xs, w') →
      ((e'.meaning c).toList f).perform w = (.ok xs, w')) ∧
    (source.cardinality = .one → source.mode = .iterateAndMaterialize →
      (∀ c f w x w₁ xs w', (source.meaning c).items f w = .item (.ok x) w₁ .done →
        ((loop.meaning c).toList f).perform w = (.ok xs, w') → ((e'.meaning c).toList f).perform w = (.ok xs, w')) ∧
      ∀ (S : Settlement) f w xs, loop.IsSteady → S.setting.HasContext S.context → S.setting.HasFrame f → S.Good w →
        (∀ ys, source.result S.context f w = .ok ys → source.cardinality.allows ys.length) →
        loop.result S.context f w = .ok xs → e'.result S.context f w = .ok xs) := by
  intro loop
  unfold rewriteFor at hrewrite
  refine ⟨fun hmany => ?_, fun hone hmode => ?_⟩
  · rw [if_neg hmany] at hrewrite
    split at hrewrite
    · next hsteps =>
      cases hrewrite
      have hrecorded := (all_binary.1 (check_recorded e hcheck)).2.2
      have hformed := (all_binary.1 ((check_resembles e hcheck).formed hformed)).2.2
      exact fun c f w xs w' => loop_as_path n n.location hsteps hrecorded hformed
    · cases hrewrite
  · rw [if_pos hone] at hrewrite
    cases hrewrite
    refine ⟨fun c f w x w₁ xs w' => loop_as_let n n.location hmode, fun S f w xs hsteady hc hf hw hcount => ?_⟩
    refine Settlement.loop_as_let hsteady hc hf n.location hmode hw fun ys hys => ?_
    have hallowed := hcount ys hys
    rw [hone] at hallowed
    have hbounds := Bool.and_eq_true_iff.1 hallowed
    exact Nat.le_antisymm (of_decide_eq_true hbounds.2) (of_decide_eq_true hbounds.1)

/-- `for $i in (1, if ($b << $a) then () else ()) return $a | $b` -/
def asksAtEnd : Expr :=
  .mkBinary (.for 0)
    (.mkNary .block [.constantAt (.integer 1) 0, .mkTernary .if
      (.mkBinary (.nodeComparison .precedes) (.mkLeaf (.variable (.range 2)) 0) (.mkLeaf (.variable (.range 1)) 0) 0)
      (.emptyAt 0) (.emptyAt 0) 0] 0)
    (.mkBinary (.set .union) (.mkLeaf (.variable (.range 1)) 0) (.mkLeaf (.variable (.range 2)) 0) 0) 0

/-- `for $i in ($a, $b) return $i/self::*/text()` -/
def stepsFromVariable : Expr :=
  .mkBinary (.for 0)
    (.mkNary .block [.mkLeaf (.variable (.range 1)) 0, .mkLeaf (.variable (.range 2)) 0] 0)
    (.mkBinary .path (.mkBinary .path (.mkLeaf (.variable (.range 0)) 0)
      (.mkLeaf (.step .self (.name .any)) 0) 0) (.mkLeaf (.step .child (.kind .text)) 0) 0) 0

/-- The path gives the text below the first element. The let asks about the trees in the order that is settled, as
one of them has been asked about. -/
theorem check_loop_rewritten_elements :
    let start : World := { forest := DocumentOrder.twoElements }
    (∃ n source body e' unit', (check stepsFromVariable).run {} threeVariables =
      (.ok (.binary n (.for 0) source body), unit') ∧ rewriteFor n.location 0 source body = some e' ∧
      ((e'.meaning {}).toList secondAndFirst).perform start = (.ok [.node 2], start)) ∧
    ∃ n source body e' unit', (check asksAtEnd).run {} threeVariables =
      (.ok (.binary n (.for 0) source body), unit') ∧ rewriteFor n.location 0 source body = some e' ∧
      e'.result {} secondAndFirst (oneAsked 3) = .ok [.node 3, .node 0] := by
  intro start
  have hsteps : stepsFromVariable.All IsFormed := by simp [stepsFromVariable, mkBinary, mkNary, mkLeaf, IsFormed]
  have hasks : asksAtEnd.All IsFormed := by
    simp [asksAtEnd, mkBinary, mkNary, mkTernary, mkLeaf, constantAt, emptyAt, IsFormed]
  constructor
  · obtain ⟨n, source, body, e', unit', hcheck, hrewrite, hcard, hloop⟩ : ∃ n source body e' unit',
        (check stepsFromVariable).run {} threeVariables = (.ok (.binary n (.for 0) source body), unit') ∧
        rewriteFor n.location 0 source body = some e' ∧ source.cardinality ≠ .one ∧
        (((Expr.binary n (.for 0) source body).meaning {}).toList secondAndFirst).perform start =
          (.ok [.node 2], start) := ⟨_, _, _, _, _, rfl, rfl, by decide, by cbv⟩
    exact ⟨n, source, body, e', unit', hcheck, hrewrite,
      (check_loop_rewritten hcheck hsteps hrewrite).1 hcard {} secondAndFirst start _ start hloop⟩
  · obtain ⟨n, source, body, e', unit', hcheck, hrewrite, hmode, hcard, hcreates, hkeys, hmodes, hsource, hloop⟩ :
        ∃ n source body e' unit',
        (check asksAtEnd).run {} threeVariables = (.ok (.binary n (.for 0) source body), unit') ∧
        rewriteFor n.location 0 source body = some e' ∧ source.mode = .iterateAndMaterialize ∧
        source.cardinality = .one ∧ (Expr.binary n (.for 0) source body).effects.creates = false ∧
        (Expr.binary n (.for 0) source body).All HasClosedKeys ∧
        (Expr.binary n (.for 0) source body).All (fun x => x.mode.defers = false) ∧
        source.result {} secondAndFirst (oneAsked 3) = .ok [.atomic (.ofInt 1)] ∧
        (Expr.binary n (.for 0) source body).result {} secondAndFirst (oneAsked 3) = .ok [.node 3, .node 0] :=
      ⟨_, _, _, _, _, rfl, rfl, rfl, rfl, rfl, by simp [annotate, withInfo, withNote, HasClosedKeys],
        by simp [annotate, withInfo, withNote, Expr.mode, note, Mode.defers], by cbv, by cbv⟩
    obtain ⟨S, hcontext, hnames, hframe, hgood⟩ := Settlement.exists_twoElements
    have hlet := ((check_loop_rewritten hcheck hasks hrewrite).2 hcard hmode).2 S secondAndFirst (oneAsked 3)
      [.node 3, .node 0] ⟨check_recorded _ hcheck, (check_resembles _ hcheck).formed hasks, hkeys, hcreates, hmodes⟩
      hnames hframe hgood
    rw [hcontext] at hlet
    refine ⟨n, source, body, e', unit', hcheck, hrewrite, hlet (fun ys hys => ?_) hloop⟩
    rw [hsource] at hys
    cases hys
    rw [hcard]
    rfl

/-- The trees have not been asked about: the loop asks about the second one first, the let about the first. -/
theorem let_asks_earlier : ∃ n source body e' unit',
    (check asksAtEnd).run {} threeVariables = (.ok (.binary n (.for 0) source body), unit') ∧
    rewriteFor n.location 0 source body = some e' ∧
    source.result {} secondAndFirst { forest := DocumentOrder.twoElements } = .ok [.atomic (.ofInt 1)] ∧
    (Expr.binary n (.for 0) source body).result {} secondAndFirst { forest := DocumentOrder.twoElements } =
      .ok [.node 3, .node 0] ∧
    e'.result {} secondAndFirst { forest := DocumentOrder.twoElements } = .ok [.node 0, .node 3] :=
  ⟨_, _, _, _, _, rfl, rfl, by cbv, by cbv, by cbv⟩

end Typing
end XPath
