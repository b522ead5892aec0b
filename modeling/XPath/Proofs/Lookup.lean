import XPath.Proofs.Deciding
import XPath.Proofs.Indexing
import XPath.Proofs.Specialization

/-!
A filter that compares keys for equality, and looking the keys up. The filter compares each value with all keys of an
item and stops when two are equal; the lookup finds the keys of all items first, and compares each with all values. So
where the filter does not fail, the lookup gives the same items, or it fails at a key or a comparison that the filter
has not come to.
-/
namespace XPath

namespace Expr

/-- The atomic values of what an expression gives. -/
def atoms (e : Expr) (c : DynamicContext) (f : Frame) (w : World) : Except Failure (List Atomic) :=
  (((e.meaning c).values f).toList.perform w).1

/-- The keys of an item and the values can be compared. -/
def Comparable (key : Expr) (vs : List Atomic) (c : DynamicContext) (f : Frame) (w : World) (x : Item) : Prop :=
  ∃ ks t, key.atoms c (f.withFocus x 1 none) w = .ok ks ∧ Index.matchesAny ks vs = .ok t

end Expr

namespace Settlement
open Likeness
variable {S : Settlement} {α β : Type} {f : Frame} {w : World}

theorem Gets.listMapM {xs : List α} {p : α → Eval β} {r : α → Except Failure β} (h : ∀ x ∈ xs, S.Gets (p x) (r x)) :
    S.Gets (xs.mapM p) (xs.mapM r) := by
  induction xs with
  | nil => exact gets_pure []
  | cons x xs ih =>
    obtain ⟨hx, hxs⟩ := List.forall_mem_cons.1 h
    rw [List.mapM_cons, List.mapM_cons]
    cases hr : r x with
    | error e => exact (hr ▸ hx).bind_error
    | ok y =>
      refine (hr ▸ hx).bind ?_
      have ih := ih hxs
      cases hrs : xs.mapM r with
      | error e => exact (hrs ▸ ih).bind_error
      | ok ys => exact (hrs ▸ ih).gives

/-- A failure without a place. -/
def unplaced (r : Except ErrorCode α) : Except Failure α := r.mapError fun code => { code }

theorem gets_ofExcept (r : Except ErrorCode α) : S.Gets (Eval.ofExcept r) (unplaced r) := by
  cases r with
  | ok x => exact gets_pure x
  | error code => exact fun w hw => ⟨w, hw, rfl⟩

theorem unplaced_eq_ok {r : Except ErrorCode α} {x : α} : unplaced r = .ok x ↔ r = .ok x := by
  cases r with
  | ok y => exact ⟨fun h => congrArg Except.ok (Except.ok.inj h), fun h => congrArg Except.ok (Except.ok.inj h)⟩
  | error code => exact iff_of_false nofun nofun

/-- A search among items none of which fails. -/
theorem Shows.search {ys : List α} {p : Pull World Failure α} (h : S.Shows (ys.map .ok) p)
    (test : α → Except ErrorCode Bool) : ∃ w, S.Good w ∧ (p.forIn false fun _ y => do
      if ← Eval.ofExcept (test y) then return .done true else return .yield false) = (unplaced (ys.anyM test), w) := by
  generalize hrs : ys.map Except.ok = rs at h
  induction h generalizing ys with
  | @done w hw =>
    obtain rfl := List.map_eq_nil_iff.1 hrs
    exact ⟨w, hw, rfl⟩
  | @item r rs w rest hw _ ih =>
    obtain ⟨y, ys, rfl, rfl, hys⟩ := List.map_eq_cons_iff.1 hrs
    rw [List.anyM_cons]
    unfold Pull.forIn
    cases test y with
    | error code => exact ⟨w, hw, rfl⟩
    | ok t =>
      cases t with
      | true => exact ⟨w, hw, rfl⟩
      | false => exact ih w hw hys

/-- A general comparison of values none of which fails. -/
theorem gets_compareAny {a b : Ways} {as bs : List Atomic} (ha : S.Draws (a.values f) (as.map .ok))
    (hb : S.Draws (b.values f) (bs.map .ok)) (op : ComparisonOp) : S.Gets (BinaryOp.compareAny op a b f)
      (unplaced (bs.anyM fun y => as.anyM fun x => x.compareGeneral op y)) := by
  unfold BinaryOp.compareAny
  refine (delivered_items (ε := Failure) as ▸ ha.toList).bind ?_
  cases as with
  | nil =>
    have hnone : (bs.anyM fun y => ([] : List Atomic).anyM fun x => x.compareGeneral op y) = .ok (bs.any fun _ => false) :=
      anyM_of_forall fun _ _ => rfl
    rw [hnone, List.any_eq_false.2 fun _ _ => Bool.false_ne_true]
    exact gets_pure false
  | cons x as =>
    intro w hw
    obtain ⟨w', hw', heq⟩ := (hb w hw).search fun y => (x :: as).anyM fun x => x.compareGeneral op y
    exact ⟨w', hw', heq⟩

section Keys
variable {base key P value : Expr} {xs ys : List Item} {vs : List Atomic}

/-- The keys of an item: what the key path gives for it. -/
def keysOf (S : Settlement) (key : Expr) (f : Frame) (x : Item) : Except Failure (List Atomic) :=
  S.answer ((key.meaning S.context).values (f.withFocus x 1 none)).toList

theorem draws_values {a : Ways} (ha : S.setting.Carries a f) {r : List Atomic} (h : S.Gets (a.values f).toList (.ok r)) :
    S.Draws (a.values f) (r.map .ok) := by
  obtain ⟨rs, hrs, -⟩ := exists_draws ha.values
  rwa [delivered_eq_ok.1 (hrs.toList.unique h)] at hrs

/-- A key path reads the item only. -/
theorem gets_keysOf (hkey : key.IsSteady) (hc : S.setting.HasContext S.context) (hf : S.setting.HasFrame f)
    (hreads : key.info.dependencies = { item := true }) {x : Item} (hx : S.exchange.Has x) (k : ℕ) (size : Option ℕ) :
    S.Gets ((key.meaning S.context).values (f.withFocus x k size)).toList (S.keysOf key f x) := by
  have hagree : Frame.Agree (fun s => key.needs s) key.effects.reads (f.withFocus x k size) (f.withFocus x 1 none) := by
    have hread : key.effects.reads = key.info.dependencies := congrArg Effects.reads hkey.recorded.self.symm
    rw [hread, hreads]
    exact ⟨fun _ _ => rfl, fun _ => rfl, nofun, nofun⟩
  rw [(Expr.determined _ key hkey.recorded hkey.formed _ _ hagree).1.matches.values]
  exact gets_answer ((hkey.ignores hc).carries _ (hf.withFocus hx 1 none)).values.toList

/-- An index of the items of a base. -/
theorem gets_makeIndex (hkey : key.IsSteady) (hc : S.setting.HasContext S.context) (hf : S.setting.HasFrame f)
    (hreads : key.info.dependencies = { item := true }) (hxs : S.Draws ((base.meaning S.context).items f) (xs.map .ok))
    (hinside : ∀ x ∈ xs, S.exchange.Has x) :
    S.Gets ((base.meaning S.context).makeIndex (key.meaning S.context).toWays f)
      ((xs.mapM fun x => (S.keysOf key f x).map (x, ·)).map Index.ofEntries) := by
  unfold Ways.makeIndex
  refine (delivered_items (ε := Failure) xs ▸ hxs.toList).bind ?_
  have hentries : S.Gets (xs.zipIdx.mapM fun q => do
      return (q.1, ← ((key.meaning S.context).values (f.withFocus q.1 (q.2 + 1) xs.length)).toList))
      (xs.mapM fun x => (S.keysOf key f x).map (x, ·)) := by
    have hpairs : (xs.mapM fun x => (S.keysOf key f x).map (x, ·)) =
        xs.zipIdx.mapM fun q => (S.keysOf key f q.1).map (q.1, ·) := by
      conv_lhs => rw [← List.zipIdx_map_fst 0 xs]
      exact List.mapM_map
    rw [hpairs]
    refine Gets.listMapM fun q hq => ?_
    have hgets := gets_keysOf hkey hc hf hreads (hinside q.1 (List.fst_mem_of_mem_zipIdx hq)) (q.2 + 1) (some xs.length)
    cases hr : S.keysOf key f q.1 with
    | error e => exact (hr ▸ hgets).bind_error
    | ok ks => exact (hr ▸ hgets).gives
  cases hr : xs.mapM fun x => (S.keysOf key f x).map (x, ·) with
  | error e => exact (hr ▸ hentries).bind_error
  | ok es => exact (hr ▸ hentries).gives

/-- The index that items are looked up in, whether it has been kept or not. -/
theorem gets_selectByKey (exprs : Expr × Expr) {r : Except Failure Index} (hvs : S.Gets ((value.meaning S.context).values f).toList (.ok vs)) (hne : vs ≠ [])
    (hmake : S.Gets ((base.meaning S.context).makeIndex (key.meaning S.context).toWays f) r)
    (hfind : (base.meaning S.context).IsIndexed f → S.Gets ((base.meaning S.context).findIndex
      ⟨exprs.1, exprs.2, (base.meaning S.context).indexNode f⟩ (key.meaning S.context).toWays f) r)
    (hitem : (base.meaning S.context).note.info.dependencies.focus → f.focus.isSome) :
    S.Gets ((base.meaning S.context).selectByKey exprs (key.meaning S.context).toWays (value.meaning S.context).toWays f)
      (r.bind fun x => unplaced (x.lookup vs)) := by
  have hlookup {p : Eval Index} (hp : S.Gets p r) :
      S.Gets (do Eval.ofExcept ((← p).lookup vs)) (r.bind fun x => unplaced (x.lookup vs)) := by
    cases r with
    | error e => exact hp.bind_error
    | ok x => exact hp.bind (gets_ofExcept _)
  unfold Ways.selectByKey
  refine hvs.bind ?_
  rw [if_neg (by simpa using hne)]
  by_cases hfocus : (base.meaning S.context).note.info.dependencies.focus
  · rw [if_pos hfocus]
    obtain ⟨o, ho⟩ := Option.isSome_iff_exists.1 (hitem hfocus)
    have hcontext : f.contextItem = pure o.item := by
      unfold Frame.contextItem
      rw [ho]
      rfl
    rw [hcontext, pure_bind]
    cases hnode : o.item.node? with
    | none => exact hlookup hmake
    | some i =>
      have hindex : (base.meaning S.context).indexNode f = some i := by
        unfold Ways.indexNode
        rw [if_pos hfocus, ho]
        exact hnode
      rw [hindex] at hfind
      exact hlookup (hfind fun _ => by rw [hindex]; rfl)
  · rw [if_neg hfocus]
    have hindex : (base.meaning S.context).indexNode f = none := by
      unfold Ways.indexNode
      rw [if_neg hfocus]
    rw [hindex] at hfind
    exact hlookup (hfind fun h => absurd h hfocus)

/-- Where the context item is missing on which the base depends, nothing is looked up. -/
theorem gets_selectByKey_absent (exprs : Expr × Expr)
    (hvs : S.Gets ((value.meaning S.context).values f).toList (.ok vs)) (hne : vs ≠ [])
    (hfocus : (base.meaning S.context).note.info.dependencies.focus) (habsent : f.focus = none) :
    S.Gets ((base.meaning S.context).selectByKey exprs (key.meaning S.context).toWays (value.meaning S.context).toWays f)
      (.error { code := .absentDynamic }) := by
  unfold Ways.selectByKey
  refine hvs.bind ?_
  rw [if_neg (by simpa using hne), if_pos hfocus]
  have hcontext : f.contextItem = Eval.fail .absentDynamic := by
    unfold Frame.contextItem
    rw [habsent]
    rfl
  rw [hcontext]
  exact fun w hw => ⟨w, hw, rfl⟩

theorem result_of_selectByKey {n : Note} {r : Except Failure (List Item)} (hw : S.Good w)
    (hr : S.Gets ((base.meaning S.context).selectByKey (base, key) (key.meaning S.context).toWays
      (value.meaning S.context).toWays f) r) :
    (Expr.ternary n .indexedFilter base key value).result S.context f w = r.mapError (Failure.orAt n.location) := by
  suffices hitems : ∃ rs, S.Draws (((Expr.ternary n .indexedFilter base key value).meaning S.context).items f)
      (rs.map (·.mapError (Failure.orAt n.location))) ∧ delivered rs = r by
    obtain ⟨rs, hrs, rfl⟩ := hitems
    rw [hrs.result hw, delivered_map_error]
  rw [Expr.meaning_ternary]
  cases r with
  | ok xs => exact ⟨_, (Draws.after hr.gives (draws_ofList xs)).mapError _, delivered_items xs⟩
  | error e => exact ⟨_, (Draws.after_error hr.bind_error).mapError _, rfl⟩

/-- Whether a general comparison holds, as a predicate. -/
theorem gets_holdsAt_comparison {m : Note} {op : ComparisonOp} {a b : Expr} {r : Except Failure Bool}
    (hr : S.Gets (BinaryOp.compareAny op (a.meaning S.context).toWays (b.meaning S.context).toWays f) r) (k : ℕ) :
    S.Gets (((Expr.binary m (.generalComparison op) a b).meaning S.context).holdsAt f k)
      (r.mapError (Failure.orAt m.location)) := by
  cases r with
  | ok t =>
    have hitems : S.Draws (((Expr.binary m (.generalComparison op) a b).meaning S.context).items f)
        [.ok (.atomic (.boolean t))] := by
      rw [Expr.meaning_binary]
      exact draws_ofItem (r := .ok (UnaryOp.truth t)) hr.gives
    exact hitems.gets_holdsAt k
  | error e =>
    have hitems : S.Draws (((Expr.binary m (.generalComparison op) a b).meaning S.context).items f)
        [.error (e.orAt m.location)] := by
      rw [Expr.meaning_binary]
      exact draws_ofItem (r := .error e) hr.bind_error
    exact hitems.gets_holdsAt k

/-- Nothing is equal to one of no values. -/
theorem compareAny_nil {a b : Ways} {op : ComparisonOp} {t : Bool} (ha : S.setting.Carries a f)
    (hnil : S.Draws (a.values f) [] ∨ S.Draws (b.values f) []) (ht : S.Gets (BinaryOp.compareAny op a b f) (.ok t)) :
    t = false := by
  obtain ⟨rs, hrs, -⟩ := exists_draws ha.values
  obtain hnil | hnil := hnil
  · have hfalse : S.Gets (BinaryOp.compareAny op a b f) (.ok false) := hnil.toList.bind (gets_pure false)
    exact Except.ok.inj (ht.unique hfalse)
  · cases has : delivered rs with
    | error e => cases ht.unique (Gets.bind_error (has ▸ hrs.toList))
    | ok as =>
      rw [delivered_eq_ok.1 has] at hrs
      have hnil : S.Draws (b.values f) (([] : List Atomic).map .ok) := hnil
      exact Except.ok.inj (ht.unique (gets_compareAny hrs hnil op))

/-- Looking up succeeds if no key fails and each can be compared with all values. -/
theorem lookup_mapM {keys : Item → Except Failure (List Atomic)} {zs : List Item} :
    (((xs.mapM fun x => (keys x).map (x, ·)).map Index.ofEntries).bind fun x => unplaced (x.lookup vs)) = .ok zs ↔
      ∃ found : Item → Bool, (∀ x ∈ xs, ∃ ks, keys x = .ok ks ∧ Index.matchesAny ks vs = .ok (found x)) ∧
        zs = xs.filter found := by
  have hlook (ks : Item → List Atomic) : unplaced ((Index.ofEntries (xs.map fun x => (x, ks x))).lookup vs) = .ok zs ↔
      ∃ found : Item → Bool, (∀ x ∈ xs, Index.matchesAny (ks x) vs = .ok (found x)) ∧ zs = xs.filter found := by
    rw [unplaced_eq_ok, Index.lookup_ofEntries]
    constructor
    · intro h
      obtain ⟨es, hes, rfl⟩ := Atomic.map_ok h
      obtain ⟨chosen, hchosen, rfl⟩ := filterM_eq_ok.1 hes
      refine ⟨fun x => chosen (x, ks x), fun x hx => hchosen _ (List.mem_map_of_mem hx), ?_⟩
      rw [List.filter_map]
      exact (List.map_map ..).trans (List.map_id _)
    · rintro ⟨found, hfound, rfl⟩
      have hes : ∀ e ∈ xs.map fun x => (x, ks x), Index.matchesAny e.2 vs = .ok (found e.1) := by
        intro e he
        obtain ⟨x, hx, rfl⟩ := List.mem_map.1 he
        exact hfound x hx
      rw [filterM_of_forall hes, List.filter_map]
      exact congrArg Except.ok ((List.map_map ..).trans (List.map_id _))
  constructor
  · intro h
    cases hes : xs.mapM fun x => (keys x).map (x, ·) with
    | error e =>
      rw [hes] at h
      cases h
    | ok es =>
      rw [hes] at h
      obtain ⟨k, hk, rfl⟩ := mapM_eq_ok.1 hes
      have hkeys (x : Item) (hx : x ∈ xs) : k x = (x, (k x).2) ∧ keys x = .ok (k x).2 := by
        have hpair := hk x hx
        cases hks : keys x with
        | error e =>
          rw [hks] at hpair
          cases hpair
        | ok ks =>
          rw [hks] at hpair
          rw [← Except.ok.inj hpair]
          exact ⟨rfl, rfl⟩
      rw [List.map_congr_left fun x hx => (hkeys x hx).1] at h
      obtain ⟨found, hfound, rfl⟩ := (hlook fun x => (k x).2).1 h
      exact ⟨found, fun x hx => ⟨_, (hkeys x hx).2, hfound x hx⟩, rfl⟩
  · rintro ⟨found, hfound, rfl⟩
    choose! ks hks hmatches using hfound
    have hes : (xs.mapM fun x => (keys x).map (x, ·)) = .ok (xs.map fun x => (x, ks x)) :=
      mapM_eq_ok.2 ⟨fun x => (x, ks x), fun x hx => by rw [hks x hx]; rfl, rfl⟩
    rw [hes]
    exact (hlook ks).2 ⟨found, hmatches, rfl⟩

end Keys

section Filter
variable {base key P value : Expr} {xs : List Item} {vs : List Atomic} {m : Note} {chosen : Item × ℕ → Bool}

/-- A predicate that compares keys with values for equality. -/
def Equates (P key value : Expr) : Prop :=
  ∃ m, P = .binary m (.generalComparison .eq) key value ∨ P = .binary m (.generalComparison .eq) value key

theorem Equates.sides (h : Equates P key value) (hP : P.IsSteady) : key.IsSteady ∧ value.IsSteady := by
  obtain ⟨m, rfl | rfl⟩ := h
  · exact hP.binary
  · exact hP.binary.symm

/-- It asks for the item. -/
theorem Equates.focus (h : Equates P key value) (hP : P.IsSteady) (hkey : key.info.dependencies = { item := true }) :
    P.info.dependencies.focus := by
  have hitem : key.effects.reads.item = true := by
    rw [congrArg Effects.reads (h.sides hP).1.recorded.self.symm]
    exact congrArg Dependencies.item hkey
  have hitem' : P.effects.reads.item = true := by
    obtain ⟨m, rfl | rfl⟩ := h
    · exact Bool.or_eq_true_iff.2 (.inl hitem)
    · exact Bool.or_eq_true_iff.2 (.inr hitem)
  unfold Dependencies.focus
  rw [show P.info.dependencies = P.effects.reads from congrArg Effects.reads hP.recorded.self, hitem']
  rfl

/-- Where it holds or does not, that is what comparing the keys with the values says, if no comparison fails. -/
theorem Equates.holdsAt (h : Equates P key value) {ks : List Atomic} {k : ℕ} {t u : Bool}
    (hks : S.Draws ((key.meaning S.context).values f) (ks.map .ok))
    (hvs : S.Draws ((value.meaning S.context).values f) (vs.map .ok))
    (ht : S.Gets ((P.meaning S.context).holdsAt f k) (.ok t)) (hu : Index.matchesAny ks vs = .ok u) : t = u := by
  refine Bool.eq_iff_iff.2 (Iff.trans ?_ (anyM_anyM hu).symm)
  obtain ⟨m, rfl | rfl⟩ := h
  · have hcompare := gets_holdsAt_comparison (m := m) (gets_compareAny hks hvs .eq) k
    rw [anyM_anyM (unplaced_eq_ok.1 (ok_of_mapError (hcompare.unique ht)))]
    exact ⟨fun ⟨v, hv, k, hk, h⟩ => ⟨k, hk, v, hv, h⟩, fun ⟨k, hk, v, hv, h⟩ => ⟨v, hv, k, hk, h⟩⟩
  · have hcompare := gets_holdsAt_comparison (m := m) (gets_compareAny hvs hks .eq) k
    rw [anyM_anyM (unplaced_eq_ok.1 (ok_of_mapError (hcompare.unique ht)))]
    refine exists_congr fun k => and_congr_right fun _ => exists_congr fun v => and_congr_right fun _ => ?_
    rw [← Atomic.compareGeneral_inverse .eq k v]
    rfl

/-- Nothing is equal to one of no values. -/
theorem Equates.holdsAt_nil (h : Equates P key value) (hkey : S.setting.Carries (key.meaning S.context).toWays f)
    (hvalue : S.setting.Carries (value.meaning S.context).toWays f)
    (hvs : S.Draws ((value.meaning S.context).values f) []) {k : ℕ} {t : Bool}
    (ht : S.Gets ((P.meaning S.context).holdsAt f k) (.ok t)) : t = false := by
  obtain ⟨m, rfl | rfl⟩ := h
  · obtain ⟨r, hr, -⟩ := exists_gets (Setting.runs_compareAny .eq hkey hvalue)
    have hok := ok_of_mapError ((gets_holdsAt_comparison (m := m) hr k).unique ht)
    exact compareAny_nil hkey (.inr hvs) (hok ▸ hr)
  · obtain ⟨r, hr, -⟩ := exists_gets (Setting.runs_compareAny .eq hvalue hkey)
    have hok := ok_of_mapError ((gets_holdsAt_comparison (m := m) hr k).unique ht)
    exact compareAny_nil hvalue (.inl hvs) (hok ▸ hr)

/-- A filter by a comparison for equality with a key, and the lookup of the key. If the lookup does not fail, it gives
what the filter gives. It does not fail if the context item is there that the base asks for, and for each item of the
base the keys and the values can be compared. -/
theorem lookup_of_filter {n m : Note} {positional : Bool} {ys : List Item} (hP : Equates P key value)
    (hsteady : (Expr.binary n (.filter positional) base P).IsSteady) (hkey : key.info.dependencies = { item := true })
    (hvalue : value.info.dependencies.focus = false) (hclosed : ∀ s, base.needs s = false ∧ key.needs s = false)
    (hreads : base.effects.reads.position = false ∧ base.effects.reads.last = false)
    (hc : S.setting.HasContext S.context) (hf : S.setting.HasFrame f) (hw : S.Good w)
    (hvs : value.atoms S.context f w = .ok vs)
    (hys : (Expr.binary n (.filter positional) base P).result S.context f w = .ok ys) :
    let g := Expr.ternary m .indexedFilter base key value
    (∀ zs, g.result S.context f w = .ok zs → zs = ys) ∧
    (g.result S.context f w = .ok ys ↔ vs ≠ [] → (base.info.dependencies.focus → f.focus.isSome) ∧
      ∀ xs, base.result S.context f w = .ok xs → ∀ x ∈ xs, key.Comparable vs S.context f w x) := by
  intro g
  obtain ⟨hbase, hPsteady⟩ := hsteady.binary
  obtain ⟨hksteady, hvsteady⟩ := hP.sides hPsteady
  have hcarries {e : Expr} (he : e.IsSteady) (f : Frame) (hf : S.setting.HasFrame f) := (he.ignores hc).carries f hf
  obtain ⟨xs, chosen, hxs, hchosen, rfl⟩ := (filter_each (hcarries hbase f hf)
    (fun x k size hx => hcarries hPsteady _ (hf.withFocus hx k size)) (hP.focus hPsteady hkey) hw).1 hys
  obtain ⟨rs, hrs, hinside⟩ := exists_draws_of_carries (hcarries hbase f hf)
  cases hrs.unique hxs
  have hinside (x : Item) (hx : x ∈ xs) : S.exchange.Has x := hinside x (List.mem_map_of_mem hx)
  have hvalues : S.Gets ((value.meaning S.context).values f).toList (.ok vs) := by
    obtain ⟨r, hr, -⟩ := exists_gets (hcarries hvsteady f hf).values.toList
    unfold Expr.atoms at hvs
    rw [hr.answer hw] at hvs
    rwa [hvs] at hr
  -- The values are the same for every item.
  have hdraws (q : Item × ℕ) : S.Draws ((value.meaning S.context).values (f.withFocus q.1 q.2 (P.countFor xs)))
      (vs.map .ok) := by
    rw [(Expr.matches_withoutFocus hvsteady.recorded hvsteady.formed hvalue q.1 q.2 (P.countFor xs)).values]
    exact draws_values (hcarries hvsteady f hf) hvalues
  by_cases hne : vs = []
  · subst hne
    have hnone (q : Item × ℕ) (hq : q ∈ xs.zipIdx 1) : chosen q = false := by
      have hframe := hf.withFocus (hinside q.1 (List.fst_mem_of_mem_zipIdx hq)) q.2 (P.countFor xs)
      exact hP.holdsAt_nil (hcarries hksteady _ hframe) (hcarries hvsteady _ hframe) (hdraws q) (hchosen q hq)
    have hselect : g.result S.context f w = .ok [] := by
      refine result_of_selectByKey (r := .ok []) hw ?_
      unfold Ways.selectByKey
      exact hvalues.bind (gets_pure [])
    rw [filtered_of_forall hnone, hselect]
    exact ⟨fun zs hzs => (Except.ok.inj hzs).symm, iff_of_true rfl fun h => absurd rfl h⟩
  · by_cases hitem : base.info.dependencies.focus → f.focus.isSome
    · have hmake := gets_makeIndex hksteady hc hf hkey hxs hinside
      have hselect := result_of_selectByKey (n := m) hw (gets_selectByKey (base, key) hvalues hne hmake
        (fun hindexed => gets_findIndex (Expr.determined _ base hbase.recorded hbase.formed)
          (Expr.determined _ key hksteady.recorded hksteady.formed) hbase.recorded.self hclosed hreads hindexed hmake)
        (by rwa [Expr.meaning_note]))
      have hresult (zs : List Item) : g.result S.context f w = .ok zs ↔ ∃ found : Item → Bool,
          (∀ x ∈ xs, ∃ ks, S.keysOf key f x = .ok ks ∧ Index.matchesAny ks vs = .ok (found x)) ∧ zs = xs.filter found := by
        rw [← lookup_mapM, show g.result S.context f w = _ from hselect]
        exact ⟨ok_of_mapError, fun h => by rw [h]; rfl⟩
      have hagrees {found : Item → Bool} (hfound : ∀ x ∈ xs, ∃ ks, S.keysOf key f x = .ok ks ∧
          Index.matchesAny ks vs = .ok (found x)) : xs.filter found = filtered chosen xs := by
        refine (filtered_eq_filter fun q hq => ?_).symm
        have hx := List.fst_mem_of_mem_zipIdx hq
        have hframe := hf.withFocus (hinside q.1 hx) q.2 (P.countFor xs)
        obtain ⟨ks, hks, hmatches⟩ := hfound q.1 hx
        exact hP.holdsAt (draws_values (hcarries hksteady _ hframe)
          (hks ▸ gets_keysOf hksteady hc hf hkey (hinside q.1 hx) q.2 (P.countFor xs))) (hdraws q) (hchosen q hq) hmatches
      have hkeys (x : Item) (hx : x ∈ xs) : key.atoms S.context (f.withFocus x 1 none) w = S.keysOf key f x :=
        (gets_keysOf hksteady hc hf hkey (hinside x hx) 1 none).answer hw
      refine ⟨fun zs hzs => ?_, fun hys _ => ⟨hitem, fun xs' hxs' x hx => ?_⟩, fun h => ?_⟩
      · obtain ⟨found, hfound, rfl⟩ := (hresult zs).1 hzs
        exact hagrees hfound
      · obtain ⟨found, hfound, -⟩ := (hresult _).1 hys
        rw [hxs.result hw, delivered_items] at hxs'
        cases hxs'
        obtain ⟨ks, hks, hmatches⟩ := hfound x hx
        exact ⟨ks, found x, (hkeys x hx).trans hks, hmatches⟩
      · have hcomparable := (h hne).2 xs (by rw [hxs.result hw, delivered_items])
        choose! ks found hks hmatches using hcomparable
        have hfound (x : Item) (hx : x ∈ xs) : ∃ ks, S.keysOf key f x = .ok ks ∧ Index.matchesAny ks vs = .ok (found x) :=
          ⟨ks x, (hkeys x hx).symm.trans (hks x hx), hmatches x hx⟩
        exact (hresult _).2 ⟨found, hfound, (hagrees hfound).symm⟩
    · obtain ⟨hfocus, habsent⟩ := Classical.not_imp.1 hitem
      have hselect := result_of_selectByKey (n := m) hw (gets_selectByKey_absent (base, key) hvalues hne
        (by rwa [Expr.meaning_note]) (Option.not_isSome_iff_eq_none.1 habsent))
      have hfails (zs : List Item) : g.result S.context f w ≠ .ok zs := by
        rw [show g.result S.context f w = _ from hselect]
        exact nofun
      exact ⟨fun zs hzs => absurd hzs (hfails zs), iff_of_false (hfails _) fun h => hitem (h hne).1⟩

end Filter

end Settlement

/-! Filters that become lookups. -/

namespace Expr
variable {base P key value e : Expr} {n : Note} {positional : Bool} {at' l : LocationId}

theorem select_ne_lookup (p : Positions) (at' : LocationId) : base.select p at' ≠ mkTernary .indexedFilter base key value l := by
  unfold select
  split
  · rintro ⟨⟩
  · split
    · intro h
      have := congrArg sizeOf h
      simp [mkTernary] at this
      omega
    · rintro ⟨⟩
    · split <;> rintro ⟨⟩

/-- A filter that is answered as a whole is no lookup. -/
theorem selectWhole_ne_lookup (h : base.selectWhole? P at' = some e) :
    e ≠ mkTernary .indexedFilter base key value l := by
  have hbase : base ≠ mkTernary .indexedFilter base key value l := select_ne_lookup ⟨1, none⟩ at'
  unfold selectWhole? at h
  split at h
  · next hconstant =>
    cases h
    obtain ⟨c, -, hc⟩ := Option.bind_eq_some_iff.1 hconstant
    cases c with
    | integer i =>
      cases hc
      exact select_ne_lookup _ _
    | boolean b =>
      cases hc
      cases b with
      | true => exact hbase
      | false => rintro ⟨⟩
    | string s =>
      cases hc
      split
      · rintro ⟨⟩
      · exact hbase
    | decimal d => cases hc
    | double x => cases hc
  · split at h
    · cases h
      exact select_ne_lookup _ _
    · split at h
      · cases h
        rintro ⟨⟩
      · cases h

/-- A lookup is what becomes of a filter that compares keys with values. -/
theorem indexKey_of_lookup (h : (specialize n positional true base P).1 = mkTernary .indexedFilter base key value l) :
    base.indexKey? P.unordered = some (key, value) ∧ n.location = l := by
  have hplainly (h : (filterPlainly n positional true base P).1 = mkTernary .indexedFilter base key value l) :
      base.indexKey? P.unordered = some (key, value) ∧ n.location = l := by
    unfold filterPlainly at h
    split at h
    · cases h
    · dsimp only at h
      split at h
      · next key' value' hkey =>
        cases h
        exact ⟨hkey, rfl⟩
      · cases h
  by_cases hsplit : base.selectWhole? P n.location = none ∧ P.splits
  · obtain ⟨hwhole, hsplit⟩ := hsplit
    unfold splits at hsplit
    split at hsplit
    · next m a b =>
      unfold specialize at h
      dsimp only at h
      rw [hwhole] at h
      generalize a.readsPosition = p, b.readsPosition = q at h hsplit
      cases p <;> cases q <;> simp [mkBinary, mkTernary] at h hsplit
    · cases hsplit
  · rw [specialize_of_not_splits hsplit] at h
    cases hwhole : base.selectWhole? P n.location with
    | some e =>
      rw [hwhole] at h
      exact absurd h (selectWhole_ne_lookup hwhole)
    | none =>
      rw [hwhole] at h
      exact hplainly h

theorem exists_of_indexKey (h : base.indexKey? P = some (key, value)) : ∃ m,
    (P = binary m (.generalComparison .eq) key value ∨ P = binary m (.generalComparison .eq) value key) ∧
      base.isIndexable ∧ key.isKeyPath ∧ value.isLookupValue := by
  unfold indexKey? at h
  split at h
  · next m a b =>
    split at h
    · cases h
    · next hindexable =>
      have hindexable : base.isIndexable := by simpa using hindexable
      split at h
      · next hsides =>
        cases h
        exact ⟨m, .inl rfl, hindexable, Bool.and_eq_true_iff.1 hsides⟩
      · split at h
        · next hsides =>
          cases h
          exact ⟨m, .inr rfl, hindexable, Bool.and_eq_true_iff.1 hsides⟩
        · cases h
  · cases h

theorem Resembles.wellBound {e' : Expr} (h : e.Resembles e') (he : WellBound [e]) : WellBound [e'] := by
  rw [wellBound_iff] at he ⊢
  unfold binders at he ⊢
  simpa only [h.needs, h.bound] using he

/-- An expression without free variables needs none. -/
theorem WellBound.closed (h : WellBound [e]) (hnone : e.freeSlots.isEmpty) (s : Slot) : e.needs s = false := by
  refine Bool.eq_false_iff.2 fun hs => ?_
  have hscoped : e.IsScoped := fun s hs => by
    have hnot := h.inScope e List.mem_cons_self s hs
    rwa [List.flatMap_singleton] at hnot
  have hmem := hscoped.mem_freeSlots hs
  rw [List.isEmpty_iff.1 hnone] at hmem
  cases hmem

end Expr

namespace Typing
open XPath.Expr
variable {context : StaticContext} {unit v : CompileUnit} {base P key value e : Expr} {n : Note} {positional : Bool}
  {l : LocationId}

/-- A checked comparison is no node, so there is no sort of nodes around it. -/
theorem eq_comparison_of_unordered {op : ComparisonOp} {m : Note} {a b : Expr} (hP : P.All (IsChecked context v))
    (h : P.unordered = binary m (.generalComparison op) a b) : P = binary m (.generalComparison op) a b := by
  unfold unordered at h
  split at h
  · next k x =>
    split at h
    · next hnode =>
      subst h
      obtain ⟨-, hinferred⟩ := (inferBinary_returns m (.generalComparison op) a b).of_run
        (all_unary.1 hP).2.self.inferred
      rw [hinferred] at hnode
      cases hnode
    · exact h
  · exact h

/-- A checked filter that is turned into a lookup. Where the filter gives something and the values of the lookup can be
had, the lookup gives the same if it does not fail; and it does not fail if the context item is there that the base asks
for, and the keys of each item of the base can be compared with the values. This holds whatever indexes have been kept,
wherever the filter is steady and the order of the trees is settled. -/
theorem check_looked_up (hcheck : (check e).run context unit = (.ok (binary n (.filter positional) base P), v))
    (hbound : WellBound [e])
    (hlookup : (specialize n positional true base P).1 = mkTernary .indexedFilter base key value l) :
    let filter := binary n (.filter positional) base P
    ∃ m, (check (specialize n positional true base P).1).run context v =
        (.ok (ternary m .indexedFilter base key value), v) ∧ m.location = n.location ∧
      ∀ (S : Settlement) f w vs ys, S.setting.HasContext S.context → S.setting.HasFrame f → S.Good w →
        filter.IsSteady → value.atoms S.context f w = .ok vs → filter.result S.context f w = .ok ys →
        (∀ zs, (ternary m .indexedFilter base key value).result S.context f w = .ok zs → zs = ys) ∧
        ((ternary m .indexedFilter base key value).result S.context f w = .ok ys ↔
          vs ≠ [] → (base.info.dependencies.focus → f.focus.isSome) ∧
            ∀ xs, base.result S.context f w = .ok xs → ∀ x ∈ xs, key.Comparable vs S.context f w x) := by
  intro filter
  have hall := check_isChecked e hcheck hbound (check_refines e hcheck).size fun _ _ => rfl
  obtain ⟨-, hbase, hP⟩ := all_binary.1 hall
  obtain ⟨-, hrbase, hrP⟩ := all_binary.1 (check_recorded e hcheck)
  have hwell := (check_resembles e hcheck).wellBound hbound
  obtain ⟨hkey, rfl⟩ := indexKey_of_lookup hlookup
  obtain ⟨k, hequates, hindexable, hkeypath, hvalue⟩ := exists_of_indexKey hkey
  replace hequates := hequates.imp (eq_comparison_of_unordered hP) (eq_comparison_of_unordered hP)
  have hsides : key.All (IsChecked context v) ∧ value.All (IsChecked context v) ∧ WellBound [key] := by
    have hwellP := hwell.binary.tail.head
    obtain rfl | rfl := hequates
    · exact ⟨(all_binary.1 hP).2.1, (all_binary.1 hP).2.2, hwellP.binary.head⟩
    · exact ⟨(all_binary.1 hP).2.2, (all_binary.1 hP).2.1, hwellP.binary.tail.head⟩
  obtain ⟨hkeyall, hvalueall, hkeywell⟩ := hsides
  rw [hlookup]
  refine ⟨_, (Pass.run_bind_eq (Rechecks.of_all hbase)).trans <| (Pass.run_bind_eq (Rechecks.of_all hkeyall)).trans <|
    Pass.run_bind_eq (Rechecks.of_all hvalueall), rfl, fun S f w vs ys hc hf hw hsteady hvs hys => ?_⟩
  unfold isIndexable at hindexable
  unfold isKeyPath at hkeypath
  unfold isLookupValue at hvalue
  simp only [Bool.and_eq_true, Bool.not_eq_true', decide_eq_true_iff] at hindexable hkeypath hvalue
  obtain ⟨⟨⟨⟨⟨⟨-, hfree⟩, -⟩, hposition⟩, hlast⟩, -⟩, -⟩ := hindexable
  obtain ⟨⟨⟨hreads, -⟩, hkeyfree⟩, -⟩ := hkeypath
  have hrecorded : base.info.dependencies = base.effects.reads := congrArg Effects.reads hrbase.self
  exact Settlement.lookup_of_filter ⟨k, hequates⟩ hsteady hreads hvalue.1
    (fun s => ⟨hwell.binary.head.closed hfree s, hkeywell.closed hkeyfree s⟩) (hrecorded ▸ ⟨hposition, hlast⟩) hc hf hw
    hvs hys

/-- The document `<r><a><b>z</b><b>k</b></a></r>`. -/
def keyed : Forest := ⟨7, [.node 0 .document [.node 1 (.element ⟨"r", ""⟩) [.node 2 (.element ⟨"a", ""⟩)
  [.node 3 (.element ⟨"b", ""⟩) [.node 4 (.text "z") []], .node 5 (.element ⟨"b", ""⟩) [.node 6 (.text "k") []]]]]]⟩

theorem isSound_keyed : keyed.IsSound where
  nodup := by decide
  below := by decide
  texts := by simp [keyed, Forest.nodes, Tree.preorder, Tree.preorderList, Tree.content, Tree.parts, Content.isText]
  roots := by simp [keyed, Tree.content, Content.isOrdinary, Content.role]

/-- The document is the context item. -/
def keyedFrame : Frame := ({} : Frame).withFocus (.node 0) 1 none

/-- `child::name` -/
def childNamed (name : String) : Expr := .mkLeaf (.step .child (.name (.name ⟨⟨name, none⟩, none⟩))) 0

/-- `/r/a` -/
def allOfA : Expr := .mkBinary .path (.mkBinary .path (.mkLeaf .root 0) (childNamed "r") 0) (childNamed "a") 0

/-- `base[b = values]` -/
def keyedBy (base : Expr) (values : List Constant) : Expr :=
  .mkBinary (.filter false) base
    (.mkBinary (.generalComparison .eq) (childNamed "b") (.mkLeaf (.literal values) 0) 0) 0

/-- The element with the key is looked up: its keys are texts, and so is the value. -/
theorem check_looked_up_element : ∃ n base P v m key value,
    (check (keyedBy allOfA [.string "k"])).run {} {} = (.ok (binary n (.filter false) base P), v) ∧
    (check (specialize n false true base P).1).run {} v = (.ok (ternary m .indexedFilter base key value), v) ∧
    (ternary m .indexedFilter base key value).result {} keyedFrame { forest := keyed } = .ok [.node 2] := by
  obtain ⟨S, hinside, hcontext, hgood⟩ := Settlement.exists_settlement isSound_keyed
    (DocumentOrder.follows_empty _) (by decide) {}
  have hnames : S.setting.HasContext {} := S.setting.hasContext_empty
  have hframe : S.setting.HasFrame keyedFrame := by
    have hempty : S.setting.HasFrame {} := S.setting.hasFrame_empty
    refine hempty.withFocus (Exchange.has_node.2 ?_) 1 none
    change S.inside 0
    rw [hinside]
    decide
  obtain ⟨n, base, P, v, key, value, hcheck, hlookup, hcreates, hkeys, hmodes, hatoms, hbase, hkey, hresult⟩ :
      ∃ n base P v key value,
        (check (keyedBy allOfA [.string "k"])).run {} {} = (.ok (.binary n (.filter false) base P), v) ∧
        (specialize n false true base P).1 = mkTernary .indexedFilter base key value 0 ∧
        (Expr.binary n (.filter false) base P).effects.creates = false ∧
        (Expr.binary n (.filter false) base P).All HasClosedKeys ∧
        (Expr.binary n (.filter false) base P).All (fun x => x.mode.defers = false) ∧
        value.atoms {} keyedFrame { forest := keyed } = .ok [.string "k"] ∧
        base.result {} keyedFrame { forest := keyed } = .ok [.node 2] ∧
        key.atoms {} (keyedFrame.withFocus (.node 2) 1 none) { forest := keyed } =
          .ok [.untyped "z", .untyped "k"] ∧
        (Expr.binary n (.filter false) base P).result {} keyedFrame { forest := keyed } = .ok [.node 2] :=
    ⟨_, _, _, _, _, _, rfl, rfl, rfl, by simp [annotate, withInfo, withNote, HasClosedKeys],
      by simp [annotate, withInfo, withNote, Expr.mode, note, Mode.defers], by cbv, by cbv, by cbv, by cbv⟩
  have hbound : WellBound [keyedBy allOfA [.string "k"]] := ⟨fun _ _ _ _ => List.not_mem_nil, List.nodup_nil⟩
  have hformed : (keyedBy allOfA [.string "k"]).All IsFormed := by simp [keyedBy, allOfA, childNamed, mkBinary, mkLeaf, IsFormed]
  obtain ⟨m, hm, -, hlooked⟩ := check_looked_up hcheck hbound hlookup
  obtain ⟨-, hsucceeds⟩ := hlooked S keyedFrame { forest := keyed } _ _ (hcontext ▸ hnames) hframe hgood
    ⟨check_recorded _ hcheck, (check_resembles _ hcheck).formed hformed, hkeys, hcreates, hmodes⟩
    (hcontext ▸ hatoms) (hcontext ▸ hresult)
  rw [hcontext] at hsucceeds
  refine ⟨n, base, P, v, m, key, value, hcheck, hm, hsucceeds.2 fun _ => ⟨fun _ => rfl, fun xs hxs x hx => ?_⟩⟩
  obtain rfl : [Item.node 2] = xs := Except.ok.inj (hbase.symm.trans hxs)
  obtain rfl := List.mem_singleton.1 hx
  exact ⟨_, true, hkey, by decide⟩

/-- What a checked filter gives, and what the lookup gives that it is turned into. -/
def resultsOfLookup (e : Expr) (f : Frame) : Option (Except Failure (List Item) × Except Failure (List Item)) :=
  let w : World := { forest := keyed }
  match (check e).run {} {} with
  | (.ok (.binary n (.filter positional) base P), v) =>
    match (check (specialize n positional true base P).1).run {} v with
    | (.ok (.ternary m .indexedFilter a key value), _) =>
      some ((binary n (.filter positional) base P).result {} f w,
        (ternary m .indexedFilter a key value).result {} f w)
    | _ => none
  | _ => none

/-- The filter finds that the key k is the value k. The lookup comes first to the key z, which is not compared with the
number. Where a base gives nothing whatever the context is, the lookup asks for the context and the filter does not. -/
theorem lookup_observed :
    resultsOfLookup (keyedBy allOfA [.string "k", .integer 1]) keyedFrame =
      some (.ok [.node 2], .error ⟨.invalidCast, some 0⟩) ∧
    resultsOfLookup (keyedBy (.mkBinary (.filter false) allOfA (.emptyAt 0) 0) [.string "k"]) {} =
      some (.ok [], .error ⟨.absentDynamic, some 0⟩) := by
  constructor <;> cbv

end Typing
end XPath
