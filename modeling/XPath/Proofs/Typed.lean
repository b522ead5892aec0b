import XPath.Proofs.Subtypes
import XPath.Proofs.Values

/-!
The regime in which items are of types: trees grow, and what is put off, what has been kept and what
indexes hold are items of their types. Values of variables in it, and the ways of evaluating.
-/
namespace XPath

theorem Cardinality.ne_empty {c : Cardinality} (h : 1 ≤ c.most) : c ≠ .empty := by
  rintro rfl
  exact absurd h (by simp)

/-- The item is of the type of the sequence, which can have items. -/
structure SequenceType.Has (t : SequenceType) (f : Forest) (x : Item) : Prop where
  most : 1 ≤ t.cardinality.most
  known : x.IsKnown f
  covers : t.item.Covers f x

/-- The trees there are, and the types of the values that have been put off so far. -/
structure TypedStage where
  forest : Forest
  sound : forest.IsSound
  cells : List SequenceType

/-- A world with these trees, in which what has been kept is of its type. -/
structure World.Keeps (k : TypedStage) (w : World) : Prop where
  forest : w.forest = k.forest
  size : w.cells.size = k.cells.length
  kept : ∀ (i : ℕ) (t : SequenceType) (xs : List Item), k.cells[i]? = some t →
    w.cells[i]?.bind (·.kept) = some xs → ∀ x ∈ xs, t.Has k.forest x
  indexes : ∀ key x, w.indexes.lookup key = some x → ∀ e ∈ x.entries, key.base.type.Has k.forest e.1

/-- A run starts with nothing put off and without an index. -/
theorem World.keeps_start {f : Forest} (h : f.IsSound) : World.Keeps ⟨f, h, []⟩ { forest := f } :=
  ⟨rfl, rfl, by simp, by simp⟩

namespace Regime

def typing : Regime where
  Stage := TypedStage
  le k l := k.forest.Becomes l.forest ∧ k.cells <+: l.cells
  refl k := ⟨.refl k.forest, List.prefix_refl k.cells⟩
  trans {k _ _} h h' := ⟨.trans k.sound h.1 h'.1, h.2.trans h'.2⟩
  good := World.Keeps
  reordered _ h := ⟨h.forest, h.size, h.kept, h.indexes⟩

theorem SequenceType.Has.later {k l : TypedStage} {t : SequenceType} {x : Item} (h : t.Has k.forest x)
    (hl : typing.le k l) : t.Has l.forest x :=
  ⟨h.most, h.known.later hl.1, h.covers.later l.sound hl.1 h.known⟩

/-- Items of a type. -/
def has (t : SequenceType) : typing.Known Item :=
  ⟨fun k x => t.Has k.forest x, fun hl h => SequenceType.Has.later h hl⟩

/-- Items that there can be. -/
def known : typing.Known Item := ⟨fun k x => x.IsKnown k.forest, fun hl h => h.later hl.1⟩

/-- Values of items of a type. -/
structure HasValue (t : SequenceType) (a : Atomic) : Prop where
  most : 1 ≤ t.cardinality.most
  proper : a.IsProper
  derives : a.type.derivesFrom t.item.numericType

abbrev HasAll (t : SequenceType) (k : typing.Stage) (xs : List Item) : Prop := Fits (has t) 0 ⊤ k xs

variable {k l : typing.Stage} {f : Frame} {s t : SequenceType} {a b d : Ways}

theorem hasAll_iff {xs : List Item} : HasAll t k xs ↔ ∀ x ∈ xs, t.Has k.forest x :=
  ⟨fun h => h.each, fun h => ⟨h, Nat.zero_le _, le_top⟩⟩

theorem hasAll_nil : HasAll t k [] := hasAll_iff.2 (List.forall_mem_nil _)

theorem hasAll_singleton {x : Item} (h : t.Has k.forest x) : HasAll t k [x] :=
  hasAll_iff.2 (List.forall_mem_singleton.2 h)

theorem HasAll.subset {xs ys : List Item} (h : HasAll t k xs) (hsub : ys ⊆ xs) : HasAll t k ys :=
  hasAll_iff.2 fun x hx => h.each x (hsub hx)

theorem HasAll.append {xs ys : List Item} (h : HasAll t k xs) (h' : HasAll t k ys) :
    HasAll t k (xs ++ ys) :=
  hasAll_iff.2 fun x hx => (List.mem_append.1 hx).elim (h.each x) (h'.each x)

/-- A list of a type has items of it. -/
theorem hasAll_of_holds {xs : List Item} (h : t.holds k.forest xs)
    (hknown : ∀ x ∈ xs, x.IsKnown k.forest) : HasAll t k xs := by
  obtain ⟨hlen, hall⟩ := Bool.and_eq_true_iff.1 h
  refine hasAll_iff.2 fun x hx => ⟨?_, hknown x hx, .inl (List.all_eq_true.1 hall x hx)⟩
  have hone : 1 ≤ xs.length := List.length_pos_of_mem hx
  exact le_trans (by exact_mod_cast hone) ((Cardinality.allows_iff _ _).1 hlen).2

/-- Every item of the first type is of the second one. -/
def Widens (s t : SequenceType) : Prop := ∀ f x, s.Has f x → t.Has f x

theorem widens_of_item (hitem : s.item = t.item)
    (hc : 1 ≤ s.cardinality.most → 1 ≤ t.cardinality.most) : Widens s t :=
  fun _ _ h => ⟨hc h.most, h.known, hitem ▸ h.covers⟩

theorem widens_of_isSubtype (h : s.isSubtype t) : Widens s t := by
  obtain ⟨hc, hitem⟩ := Bool.and_eq_true_iff.1 h
  intro f x hx
  obtain hempty | hsub := Bool.or_eq_true_iff.1 hitem
  · exact absurd (eq_of_beq hempty) (Cardinality.ne_empty hx.most)
  · exact ⟨hx.most.trans (Cardinality.contains_iff.1 hc).2, hx.known,
      ItemType.covers_of_isSubtype hsub hx.covers⟩

/-- The common type of operands has the items of every one of them. -/
theorem widens_commonType {is : List StaticInfo} {i : StaticInfo} (hi : i ∈ is) {c : Cardinality}
    (hc : 1 ≤ i.cardinality.most → 1 ≤ c.most) : Widens i.type ⟨StaticInfo.commonType is, c⟩ := by
  intro f x hx
  refine ⟨hc hx.most, hx.known, ItemType.covers_commonOf hx.known ?_ hx.covers⟩
  exact List.mem_map_of_mem (List.mem_filter.2 ⟨hi, bne_iff_ne.2 (Cardinality.ne_empty hx.most)⟩)

theorem HasAll.widens {xs : List Item} (h : HasAll s k xs) (hw : Widens s t) : HasAll t k xs :=
  hasAll_iff.2 fun x hx => hw _ _ (h.each x hx)

theorem yields_widens {src : Items} (h : Yields (has s) 0 ⊤ k src) (hw : Widens s t) :
    Yields (has t) 0 ⊤ k src :=
  h.imp (fun _ x _ hx => hw _ x hx) le_rfl le_rfl

/-! Sources of which no number is promised. -/

theorem yields_flatMap {α β : Type} {P : typing.Known α} {S : typing.Known β}
    {src : Source World Failure α} {g : ℕ → α → Source World Failure β} (h : Yields P 0 ⊤ k src)
    (hg : ∀ l n x, typing.le k l → P.holds l x → Yields S 0 ⊤ l (g n x)) : Yields S 0 ⊤ k (src.bind g) :=
  (h.bind hg).imp (fun _ _ _ hx => hx) (Nat.zero_le _) le_top

theorem yields_concat {α : Type} {P : typing.Known α} {srcs : List (Source World Failure α)}
    (h : ∀ src ∈ srcs, Yields P 0 ⊤ k src) : Yields P 0 ⊤ k (Source.concat srcs) := by
  induction srcs with
  | nil => exact yields_empty
  | cons src srcs ih =>
    obtain ⟨hsrc, hsrcs⟩ := List.forall_mem_cons.1 h
    exact hsrc.append (ih hsrcs)

/-- A way of evaluating that gives items of a type. -/
structure Typed (k : typing.Stage) (a : Ways) (f : Frame) (t : SequenceType) : Prop where
  item : Runs k (a.item f) fun l o => HasAll t l o.toList
  items : Yields (has t) 0 ⊤ k (a.items f)
  push : Runs k (a.push f) fun l xs => HasAll t l xs

theorem runs_forest_eq : Runs k Eval.forest fun m g => g = m.forest :=
  runs_forest.imp fun _ _ _ ⟨_, hw, heq⟩ => heq ▸ hw.forest

theorem runs_hasValue {x : Item} (hx : t.Has k.forest x) :
    Runs k (Eval.value x) fun _ v => HasValue t v := by
  apply runs_forest_eq.bind
  intro m g hm hg
  subst hg
  have hx' := SequenceType.Has.later hx hm
  exact runs_pure fun _ _ =>
    ⟨hx.most, Item.isProper_value hx'.known, ItemType.derivesFrom_numericType hx'.known hx'.covers⟩

namespace Typed

theorem later (h : Typed k a f t) (hl : typing.le k l) : Typed l a f t :=
  ⟨h.item.later hl, h.items.later hl, h.push.later hl⟩

theorem widens (h : Typed k a f s) (hw : Widens s t) : Typed k a f t where
  item := h.item.imp fun _ _ _ hx => HasAll.widens hx hw
  items := yields_widens h.items hw
  push := h.push.imp fun _ _ _ hx => HasAll.widens hx hw

/-- Of which no more is said than that it ends well. -/
theorem sound (h : Typed k a f t) : Sound k a f .any := by
  have hfit {m : typing.Stage} {xs : List Item} (hxs : HasAll t m xs) : FitsType .any m xs :=
    Fits.imp hxs (fun x _ => ItemType.suits_of_not rfl x) le_rfl le_rfl
  exact ⟨h.item.imp fun _ _ _ hx => hfit hx,
    h.items.imp (fun _ x _ _ => ItemType.suits_of_not rfl x) le_rfl le_rfl,
    h.push.imp fun _ _ _ hx => hfit hx⟩

/-- For an operator that gives at most one item. -/
theorem ofItem (n : Note) {x : Frame → Eval (Option Item)}
    (h : Runs k (x f) fun l o => HasAll t l o.toList) : Typed k (.ofItem n x) f t := by
  have hitems : Yields (has t) 0 ⊤ k ((Ways.ofItem n x).items f) :=
    yields_after ((h.orAt n.location).bind fun _ _ _ ho => runs_pure fun _ hm =>
      yields_ofList (ho.later hm))
  exact ⟨h.orAt n.location, hitems, hitems.toList⟩

theorem ofItemsAndPush (n : Note) {x : Frame → Items} {p : Frame → Eval (List Item)}
    (h : Yields (has t) 0 ⊤ k (x f)) (hp : Runs k (p f) fun l xs => HasAll t l xs) :
    Typed k (.ofItemsAndPush n x p) f t :=
  ⟨(h.mapError _).only? _, h.mapError _, hp.orAt n.location⟩

theorem ofItems (n : Note) {x : Frame → Items} (h : Yields (has t) 0 ⊤ k (x f)) :
    Typed k (.ofItems n x) f t :=
  ofItemsAndPush n h h.toList

theorem ofPush (n : Note) {p : Frame → Eval (List Item)}
    (h : Runs k (p f) fun l xs => HasAll t l xs) : Typed k (.ofPush n p) f t :=
  ofItemsAndPush n (yields_after (h.bind fun _ _ _ hxs => runs_pure fun _ hm =>
    yields_ofList (hxs.later hm))) h

/-- For an operator that computes a list and then gives its items. -/
theorem ofList (n : Note) {p : Frame → Eval (List Item)}
    (h : Runs k (p f) fun l xs => HasAll t l xs) :
    Typed k (.ofItems n fun f => .after (return .ofList (← p f))) f t :=
  ofItems n (yields_after (h.bind fun _ _ _ hxs => runs_pure fun _ hm =>
    yields_ofList (hxs.later hm)))

theorem toList (h : Typed k a f t) : Runs k (a.toList f) fun l xs => HasAll t l xs := h.items.toList

theorem values (h : Typed k a f t) : Yields (.always typing (HasValue t)) 0 ⊤ k (a.values f) :=
  h.items.mapM fun _ _ _ hx => runs_hasValue hx

theorem value? (h : Typed k a f t) :
    Runs k (a.value? f) fun _ o => ∀ v, o = some v → HasValue t v := by
  apply h.item.bind
  intro m o hm ho
  cases o with
  | none => exact runs_pure fun _ _ => by simp
  | some x =>
    apply (runs_hasValue (ho.each x List.mem_cons_self)).map
    intro n v _ hv u hu
    cases hu
    exact hv

end Typed

/-! Values of variables. -/

/-- What is put off gives items of a type. -/
structure TypedDeferred (k : typing.Stage) (d : Deferred) (t : SequenceType) : Prop where
  start : Yields (has t) 0 ⊤ k d.start
  toList : Runs k d.toList fun l xs => HasAll t l xs

def TypedValue (k : typing.Stage) (v : Value) (t : SequenceType) : Prop :=
  match v with
  | .items xs => HasAll t k xs
  | .deferred d _ => TypedDeferred k d t

/-- Changing a cell so that it keeps what it has kept, or else a list of its type. -/
theorem typing_modify {w : World} {i : ℕ} {g : Cell → Cell} (h : w.Keeps k)
    (hi : k.cells[i]? = some t)
    (hg : ∀ cell xs, (g cell).kept = some xs → cell.kept = some xs ∨ HasAll t k xs) :
    World.Keeps k { w with cells := w.cells.modify i g } where
  forest := h.forest
  size := Array.size_modify.trans h.size
  kept j u xs hj hxs := by
    dsimp only at hxs
    rw [Array.getElem?_modify] at hxs
    split at hxs
    · next heq =>
      subst heq
      cases hi.symm.trans hj
      obtain ⟨cell', hcell', hkept⟩ := Option.bind_eq_some_iff.1 hxs
      obtain ⟨cell, hcell, rfl⟩ := Option.map_eq_some_iff.1 hcell'
      obtain hold | hnew := hg cell xs hkept
      · exact h.kept i t xs hi (Option.bind_eq_some_iff.2 ⟨cell, hcell, hold⟩)
      · exact hnew.each
    · exact h.kept j u xs hj hxs
  indexes := h.indexes

/-- A new cell. -/
theorem typing_push {w : World} (h : w.Keeps k) (t : SequenceType) :
    World.Keeps ⟨k.forest, k.sound, k.cells ++ [t]⟩ { w with cells := w.cells.push {} } where
  forest := h.forest
  size := by rw [Array.size_push, List.length_append, h.size, List.length_singleton]
  kept i u xs hi hxs := by
    dsimp only at hxs hi
    rw [Array.getElem?_push] at hxs
    split at hxs
    · cases hxs
    · next hne =>
      have hlt : i < k.cells.length := by
        have := (List.getElem?_eq_some_iff.1 hi).1
        rw [List.length_append, List.length_singleton] at this
        have := h.size
        omega
      rw [List.getElem?_append_left hlt] at hi
      exact h.kept i u xs hi hxs
  indexes := h.indexes

/-- Evaluations that give items of a type can be put off. -/
theorem typing_defers {src : Items} (keeps : Bool) (hsrc : Yields (has t) 0 ⊤ k src) :
    Runs k (Deferred.create keeps src) fun l d => TypedDeferred l d t := by
  intro (l : TypedStage) w hl (hw : w.Keeps l)
  let m : TypedStage := ⟨l.forest, l.sound, l.cells ++ [t]⟩
  have hlm : typing.le l m := ⟨.refl _, List.prefix_append _ _⟩
  refine ⟨m, hlm, typing_push hw t, fun d hd => ?_⟩
  cases hd
  have hcell {n : TypedStage} (hn : typing.le m n) : n.cells[w.cells.size]? = some t := by
    obtain ⟨more, hmore⟩ := hn.2
    rw [← hmore, hw.size]
    simp [m]
  have hstart : Yields (has t) 0 ⊤ m (Deferred.start ⟨w.cells.size, keeps, src⟩) :=
    fun n v hn hv => hsrc n _ (typing.trans hl (typing.trans hlm hn))
      (typing_modify hv (hcell hn) fun _ _ hkept => .inl hkept)
  refine ⟨hstart, fun n v hn hv => ?_⟩
  rw [perform_deferred]
  cases hkept : v.cells[w.cells.size]?.bind (·.kept) with
  | some xs =>
    refine ⟨n, typing.refl n, hv, fun ys hys => ?_⟩
    cases hys
    exact hasAll_iff.2 (World.Keeps.kept hv _ _ _ (hcell hn) hkept)
  | none =>
    refine ((hstart.later hn).toList.bind fun o xs ho hxs => ?_) n v (typing.refl n) hv
    split
    · intro o' v' ho' hv'
      have hxs' := Fits.later hxs ho'
      refine ⟨o', typing.refl o', ?_, fun ys hys => ?_⟩
      · apply typing_modify hv' (hcell (typing.trans hn (typing.trans ho ho')))
        intro cell ys hys
        cases hc : cell.kept with
        | some zs => exact .inl (by simpa [hc] using hys)
        | none =>
          have hnew : some xs = some ys := by simpa [hc] using hys
          cases hnew
          exact .inr hxs'
      · cases hys
        exact hxs'
    · exact runs_pure fun _ ho' => hxs.later ho'

namespace TypedDeferred
variable {p : Deferred}

theorem later (h : TypedDeferred k p t) (hl : typing.le k l) : TypedDeferred l p t :=
  ⟨h.start.later hl, h.toList.later hl⟩

theorem widens (h : TypedDeferred k p s) (hw : Widens s t) : TypedDeferred k p t :=
  ⟨yields_widens h.start hw, h.toList.imp fun _ _ _ hxs => HasAll.widens hxs hw⟩

theorem source (h : TypedDeferred k p t) : Yields (has t) 0 ⊤ k p.source := by
  unfold Deferred.source
  split
  · exact yields_after (h.toList.bind fun _ _ _ hxs => runs_pure fun _ hm =>
      yields_ofList (hxs.later hm))
  · exact h.start

end TypedDeferred

namespace TypedValue
variable {v : Value}

theorem later (h : TypedValue k v t) (hl : typing.le k l) : TypedValue l v t := by
  cases v with
  | items xs => exact Fits.later h hl
  | deferred p skip => exact TypedDeferred.later h hl

theorem widens (h : TypedValue k v s) (hw : Widens s t) : TypedValue k v t := by
  cases v with
  | items xs => exact HasAll.widens h hw
  | deferred p skip => exact TypedDeferred.widens h hw

theorem source (h : TypedValue k v t) : Yields (has t) 0 ⊤ k v.source := by
  cases v with
  | items xs => exact yields_ofList h
  | deferred p skip => exact (TypedDeferred.source h).drop skip

theorem toList (h : TypedValue k v t) : Runs k v.toList fun l xs => HasAll t l xs := by
  cases v with
  | items xs => exact runs_pure fun _ hm => Fits.later h hm
  | deferred p skip =>
    exact (TypedDeferred.toList h).bind fun _ xs _ hxs => runs_pure fun _ hm =>
      (HasAll.subset hxs (List.drop_subset skip xs)).later hm

theorem tail (h : TypedValue k v t) (n : ℕ) : Runs k (v.tail n) fun l u => TypedValue l u t := by
  refine runs_require fun m u hm hu => ?_
  have hv := h.later hm
  obtain ⟨xs, rfl, rfl⟩ | ⟨p, skip, rfl, -, rfl⟩ := Value.exists_of_tail? hu
  · exact HasAll.subset hv (List.drop_subset n xs)
  · exact hv

end TypedValue

end Regime
end XPath
