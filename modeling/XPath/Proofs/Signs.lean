import XPath.Proofs.Coherence
import XPath.Proofs.Numbers
import XPath.Proofs.Parsing

/-!
Runs of signs. A run of signs before an operand is read as one sign or none, by its parity. That is as good as applying
each sign, from the operand outwards, for every operand but an integer of a derived type: a minus makes a plain integer
of it, and a second minus does not give the type back, while a run that is read as plus leaves it as it is.
-/
namespace XPath

/-- A sign before an operand. -/
inductive Sign where
  | minus
  | plus
  deriving DecidableEq, Repr

namespace Sign
variable {v u : Atomic} {run : List Sign}

def token : Sign → Token
  | minus => .symbol .minus
  | plus => .symbol .plus

def apply : Sign → Atomic → Except ErrorCode Atomic
  | minus => Atomic.negate
  | plus => Atomic.plus

/-- The signs of a run applied one after the other; the last one stands next to the operand. -/
def applyAll (run : List Sign) (v : Atomic) : Except ErrorCode Atomic := run.foldrM apply v

/-- An odd number of minus signs. -/
def negates : List Sign → Bool
  | [] => false
  | minus :: run => !negates run
  | plus :: run => negates run

/-- Whether the minus signs of a run cancel each other before an integer of a derived type. -/
def cancels (run : List Sign) : Atomic → Bool
  | .integer t _ => minus ∈ run && !negates run && t ≠ .integer
  | _ => false

/-- What the run is read as. -/
def collapsed (run : List Sign) (v : Atomic) : Except ErrorCode Atomic :=
  if negates run then v.negate else if run = [] then .ok v else v.plus

end Sign

namespace Atomic
variable {u v : Atomic}

/-- The number with the other sign; an integer becomes a plain one. -/
def opposite : Atomic → Atomic
  | integer _ i => ofInt (-i)
  | decimal d => decimal d.neg
  | float x => float x.neg
  | double x => double x.neg
  | a => a

theorem isNumeric_opposite (v : Atomic) : v.opposite.isNumeric = v.isNumeric := by cases v <;> rfl

theorem plus_of_isNumeric (h : v.isNumeric) : v.plus = .ok v := by
  cases v <;> first | rfl | cases h

/-- Text becomes no integer. -/
theorem eq_of_plus_integer {t : AtomicType} {i : ℤ} (h : v.plus = .ok (integer t i)) : v = integer t i := by
  cases v with
  | untyped s =>
    have hplus : (untyped s).plus = (untyped s).toDouble.map double := by
      rw [plus, untypedToDouble]
      cases (untyped s).toDouble <;> rfl
    rw [hplus] at h
    obtain ⟨x, -, hx⟩ := map_ok h
    cases hx
  | string | boolean => cases h
  | integer | decimal | float | double => exact Except.ok.inj h

/-- Unary minus takes the opposite of what unary plus gives. -/
theorem negate_eq (v : Atomic) : v.negate = v.plus.map opposite := by
  unfold negate plus
  cases v.untypedToDouble with
  | error e => rfl
  | ok a => cases a <;> rfl

theorem negate_of_isNumeric (h : v.isNumeric) : v.negate = .ok v.opposite := by
  rw [negate_eq, plus_of_isNumeric h]
  rfl

theorem opposite_opposite_opposite (v : Atomic) : v.opposite.opposite.opposite = v.opposite := by
  have hbinary (x : Binary) : x.neg.neg.neg = x.neg := by cases x <;> simp [Binary.neg]
  have hdecimal (d : Decimal) : d.neg.neg.neg = d.neg := by simp [Decimal.neg]
  cases v <;> simp [opposite, ofInt, hbinary, hdecimal]

/-- Only an integer of a derived type does not come back. -/
theorem opposite_opposite (h : ∀ t i, v = integer t i → t = .integer) : v.opposite.opposite = v := by
  have hbinary (x : Binary) : x.neg.neg = x := by cases x <;> simp [Binary.neg]
  have hdecimal (d : Decimal) : d.neg.neg = d := by simp [Decimal.neg]
  cases v with
  | integer t i =>
    obtain rfl := h t i rfl
    simp [opposite, ofInt]
  | _ => simp [opposite, hbinary, hdecimal]

end Atomic

namespace Sign
variable {v u : Atomic} {run : List Sign}

theorem applyAll_cons (s : Sign) (run : List Sign) (v : Atomic) :
    applyAll (s :: run) v = applyAll run v >>= s.apply := by
  rw [applyAll, List.foldrM_cons]
  rfl

/-- What the signs make of a number. -/
def turned (run : List Sign) (u : Atomic) : Atomic :=
  if negates run then u.opposite else if minus ∈ run then u.opposite.opposite else u

theorem isNumeric_turned (run : List Sign) (u : Atomic) : (turned run u).isNumeric = u.isNumeric := by
  unfold turned
  split
  · exact u.isNumeric_opposite
  · split
    · rw [Atomic.isNumeric_opposite, Atomic.isNumeric_opposite]
    · rfl

theorem mem_of_negates (h : negates run) : minus ∈ run := by
  induction run with
  | nil => cases h
  | cons s run ih =>
    cases s with
    | minus => exact List.mem_cons_self
    | plus => exact List.mem_cons_of_mem _ (ih h)

theorem turned_minus (run : List Sign) (u : Atomic) : turned (minus :: run) u = (turned run u).opposite := by
  unfold turned
  rw [negates]
  cases hrun : negates run with
  | true => simp [mem_of_negates hrun]
  | false =>
    simp only [Bool.not_false, if_true, Bool.false_eq_true, if_false]
    split
    · rw [Atomic.opposite_opposite_opposite]
    · rfl

theorem turned_plus (run : List Sign) (u : Atomic) : turned (plus :: run) u = turned run u := by
  unfold turned
  rw [negates]
  simp

/-- Where there are signs, the operand becomes a number, or there is an error, and the signs then turn the number. -/
theorem applyAll_eq (h : run ≠ []) (v : Atomic) : applyAll run v = v.plus.map (turned run) := by
  induction run with
  | nil => exact absurd rfl h
  | cons s run ih =>
    cases run with
    | nil =>
      rw [applyAll_cons]
      cases s with
      | minus => exact v.negate_eq
      | plus =>
        change v.plus = v.plus.map (turned [plus])
        cases v.plus <;> rfl
    | cons t run =>
      rw [applyAll_cons, ih (List.cons_ne_nil t run)]
      cases hv : v.plus with
      | error e => rfl
      | ok u =>
        have hnumeric : (turned (t :: run) u).isNumeric :=
          (isNumeric_turned (t :: run) u).trans (Atomic.isNumeric_plus hv)
        cases s with
        | minus => exact (Atomic.negate_of_isNumeric hnumeric).trans (congrArg Except.ok (turned_minus _ u).symm)
        | plus => exact (Atomic.plus_of_isNumeric hnumeric).trans (congrArg Except.ok (turned_plus _ u).symm)

/-- A run is read as what its signs do, unless they cancel each other before an integer of a derived type: then that is
left as it is. -/
theorem collapsed_eq (run : List Sign) (v : Atomic) :
    collapsed run v = if cancels run v then .ok v else applyAll run v := by
  by_cases hrun : run = []
  · subst hrun
    cases v <;> rfl
  rw [collapsed, applyAll_eq hrun, if_neg hrun]
  cases hneg : negates run with
  | true =>
    have hcancels : cancels run v = false := by
      unfold cancels
      split <;> simp [hneg]
    have hturned : turned run = Atomic.opposite := by
      funext u
      simp [turned, hneg]
    rw [if_pos rfl, if_neg (by simp [hcancels]), hturned, Atomic.negate_eq]
  | false =>
    rw [if_neg Bool.false_ne_true]
    split
    · next hcancels =>
      unfold cancels at hcancels
      split at hcancels
      · rfl
      · cases hcancels
    · next hcancels =>
      cases hv : v.plus with
      | error e => rfl
      | ok u =>
        refine congrArg Except.ok (Eq.symm ?_)
        unfold turned
        rw [hneg, if_neg Bool.false_ne_true]
        split
        · next hmem =>
          refine Atomic.opposite_opposite fun t i hu => ?_
          by_contra ht
          subst hu
          obtain rfl := Atomic.eq_of_plus_integer hv
          exact hcancels (by simp [cancels, hmem, hneg, ht])
        · rfl

end Sign

namespace Parser
variable {c : ParseContext} {scope : Scope} {ts : List Token} {run : List Sign} {n : ℕ}

/-- The signs are read up to the first token that is none. -/
theorem takes_run (hts : ∀ x : Sign, ts.head? ≠ some x.token) (hn : run.length ≤ n) (signed negative : Bool) :
    Takes c scope (run.map Sign.token ++ ts) (signs n signed negative)
      (· = (signed || !run.isEmpty, negative ^^ Sign.negates run)) ts := by
  induction run generalizing n signed negative with
  | nil =>
    rw [List.isEmpty_nil, Sign.negates, Bool.not_true, Bool.or_false, Bool.xor_false]
    cases n with
    | zero => exact .pure rfl
    | succ n =>
      rw [signs]
      exact (takes_eat_not (hts .minus)).next ((takes_eat_not (hts .plus)).next (.pure rfl))
  | cons x run ih =>
    obtain _ | n := n
    · cases hn
    have hrest := Nat.le_of_succ_le_succ hn
    rw [signs, List.map_cons, List.cons_append]
    cases x with
    | minus =>
      refine takes_eat.next ((ih hrest true (!negative)).imp fun r hr => hr.trans ?_)
      simp [Sign.negates]
    | plus =>
      refine (takes_eat_not (by simp [Sign.token])).next ?_
      refine takes_eat.next ((ih hrest true negative).imp fun r hr => hr.trans ?_)
      simp [Sign.negates]

/-- What is read where a run of signs stands before an operand. -/
theorem run_unary {s s' : ParseState} {e : Expr} (htokens : s.upcoming = run.map Sign.token ++ ts)
    (hts : ∀ x : Sign, ts.head? ≠ some x.token) (h : ((unary (n + 1) c).run).run s = (.ok e, s')) :
    ∃ a t at', t.upcoming = ts ∧ t.unit.scope = s.unit.scope ∧ ((path n c).run).run t = (.ok a, s') ∧
      e = applySigns (!run.isEmpty) (Sign.negates run) a at' := by
  obtain ⟨at', s₁, hlocation, -, htokens₁, hscope₁⟩ := takes_location (c := c) s htokens rfl
  have hlength : run.length ≤ s₁.tokens.lexemes.length := by
    have hupcoming := congrArg List.length htokens₁
    rw [ParseState.upcoming, List.length_map, List.length_append, List.length_map] at hupcoming
    omega
  obtain ⟨r, t, hsigns, rfl, htokens₂, hscope₂⟩ := takes_run hts hlength false false s₁ htokens₁ hscope₁
  have hget : (((get : Parser ParseState) c).run).run s₁ = (.ok s₁, s₁) := rfl
  rw [unary, run_bind, hlocation] at h
  dsimp only at h
  rw [run_bind, hget] at h
  dsimp only at h
  rw [run_bind, hsigns] at h
  dsimp only at h
  rw [run_bind] at h
  cases hpath : ((path n c).run).run t with
  | mk r t' =>
    rw [hpath] at h
    cases r with
    | error err => cases h
    | ok a =>
      cases h
      exact ⟨a, t, at', htokens₂, hscope₂, hpath, by simp⟩

end Parser

namespace Expr
variable {d : DynamicContext} {f : Frame} {w : World} {a : Expr} {run : List Sign}

theorem perform_liftValue (g : Atomic → Except ErrorCode Atomic) (o : Option Atomic) (w : World) :
    (o.mapM fun v => return .atomic (← Eval.ofExcept (g v)) : Eval (Option Item)).perform w =
      (((o.mapM g).mapError fun code => { code }).map (·.map .atomic), w) := by
  cases o with
  | none => rfl
  | some v =>
    have hvalue : (some v).mapM g = (g v).map some := by
      change (do return some (← g v)) = _
      cases g v <;> rfl
    rw [hvalue]
    change (do return some (← (do return .atomic (← Eval.ofExcept (g v)) : Eval Item)) :
      Eval (Option Item)).perform w = _
    cases g v <;> rfl

/-- What a function makes of the value of its operand. -/
theorem perform_lift (n : Note) (g : Atomic → Except ErrorCode Atomic) (x : Ways) (f : Frame) (w : World) :
    let operand := (x.value? f).perform w
    let all := ((Ways.ofItem n (UnaryOp.lift g x)).toList f).perform w
    all.1.mapError Failure.code =
      (operand.1.mapError Failure.code >>= fun o => o.mapM g).map (·.toList.map .atomic) ∧ all.2 = operand.2 := by
  intro operand all
  have hall : all = (do return (← (UnaryOp.lift g x f).orAt n.location).toList : Eval (List Item)).perform w :=
    congrArg (·.perform w) (Ways.toList_ofItem n (UnaryOp.lift g x) f)
  rw [hall, Regime.perform_bind, Eval.orAt, Regime.perform_mapError, UnaryOp.lift, Regime.perform_bind]
  change _ = (operand.1.mapError _ >>= _).map _ ∧ _ = operand.2
  cases hoperand : operand with
  | mk r w' =>
    rw [show (x.value? f).perform w = (r, w') from hoperand]
    cases r with
    | error e => exact ⟨rfl, rfl⟩
    | ok o =>
      dsimp only
      rw [perform_liftValue]
      change _ = (o.mapM g).map _ ∧ _
      cases o.mapM g with
      | error code => exact ⟨rfl, rfl⟩
      | ok u => cases u <;> exact ⟨rfl, rfl⟩

theorem eq_literal_of_constant? {k : Constant} (h : a.constant? = some k) : ∃ n, a = leaf n (.literal [k]) := by
  unfold constant? at h
  split at h
  · cases h
    exact ⟨_, rfl⟩
  · cases h

/-- Before a number a plus does not show. -/
theorem applySigns_number {k : Constant} (h : (Atomic.ofConstant k).isNumeric) (signed : Bool) (n : Note)
    (at' : LocationId) : Parser.applySigns signed false (leaf n (.literal [k])) at' = leaf n (.literal [k]) := by
  cases k <;> first | (cases signed <;> rfl) | cases h

theorem applySigns_plus (h : ∀ n k, a = leaf n (.literal [k]) → (Atomic.ofConstant k).isNumeric = false)
    (at' : LocationId) : Parser.applySigns true false a at' = .mkUnary .plus a at' := by
  unfold Parser.applySigns
  cases hk : a.constant? with
  | none => rfl
  | some k =>
    obtain ⟨n, ha⟩ := eq_literal_of_constant? hk
    have hnumeric := h n k ha
    cases k <;> first | rfl | cases hnumeric

/-- What a run of signs before an operand evaluates to. -/
theorem perform_applySigns (hrun : run ≠ []) (a : Expr) (at' : LocationId) (d : DynamicContext) (f : Frame)
    (w : World) :
    let operand := ((a.meaning d).value? f).perform w
    let all := (((Parser.applySigns (!run.isEmpty) (Sign.negates run) a at').meaning d).toList f).perform w
    all.1.mapError Failure.code =
      (operand.1.mapError Failure.code >>= fun o => o.mapM (Sign.collapsed run)).map (·.toList.map .atomic) ∧
      all.2 = operand.2 := by
  have hsigned : (!run.isEmpty) = true := by simp [hrun]
  have hcollapsed : Sign.collapsed run = if Sign.negates run then Atomic.negate else Atomic.plus := by
    funext v
    rw [Sign.collapsed, if_neg hrun]
    split <;> rfl
  rw [hsigned, hcollapsed]
  cases Sign.negates run with
  | true =>
    rw [show Parser.applySigns true true a at' = .mkUnary .negate a at' from rfl, mkUnary, meaning_unary]
    exact perform_lift { location := at' } Atomic.negate (a.meaning d).toWays f w
  | false =>
    rw [if_neg Bool.false_ne_true]
    by_cases hnumber : ∀ n k, a = leaf n (.literal [k]) → (Atomic.ofConstant k).isNumeric = false
    · rw [applySigns_plus hnumber, mkUnary, meaning_unary]
      exact perform_lift { location := at' } Atomic.plus (a.meaning d).toWays f w
    · push Not at hnumber
      obtain ⟨n, k, rfl, hnumeric⟩ := hnumber
      rw [Bool.ne_false_iff] at hnumeric
      rw [applySigns_number hnumeric, meaning_leaf]
      have hplus : (some (Atomic.ofConstant k)).mapM Atomic.plus = .ok (some (Atomic.ofConstant k)) := by
        change (do return some (← (Atomic.ofConstant k).plus)) = _
        rw [Atomic.plus_of_isNumeric hnumeric]
        rfl
      refine ⟨?_, rfl⟩
      change _ = ((some (Atomic.ofConstant k)).mapM Atomic.plus).map _
      rw [hplus]
      rfl

/-- A run of signs before an operand evaluates to what applying each sign to the value of the operand gives, from the
operand outwards, or fails with the same code; only an integer of a derived type before which the minus signs cancel
each other is left as it is. -/
theorem signs_apply {c : ParseContext} {n : ℕ} {s s' : ParseState} {ts : List Token} {e : Expr}
    (htokens : s.upcoming = run.map Sign.token ++ ts) (hts : ∀ x : Sign, ts.head? ≠ some x.token)
    (h : ((Parser.unary (n + 1) c).run).run s = (.ok e, s')) :
    ∃ a t, t.upcoming = ts ∧ t.unit.scope = s.unit.scope ∧ ((Parser.path n c).run).run t = (.ok a, s') ∧
      (run = [] → e = a) ∧ (run ≠ [] → ∀ (d : DynamicContext) (f : Frame) (w : World),
        let operand := ((a.meaning d).value? f).perform w
        let all := ((e.meaning d).toList f).perform w
        let signed v := if Sign.cancels run v then .ok v else Sign.applyAll run v
        all.1.mapError Failure.code =
          (operand.1.mapError Failure.code >>= fun o => o.mapM signed).map (·.toList.map .atomic) ∧
          all.2 = operand.2) := by
  obtain ⟨a, t, at', htokens', hscope, hpath, rfl⟩ := Parser.run_unary htokens hts h
  refine ⟨a, t, htokens', hscope, hpath, ?_, fun hrun d f w => ?_⟩
  · rintro rfl
    rfl
  · simp only [← Sign.collapsed_eq]
    exact perform_applySigns hrun a at' d f w

/-- Three minus signs and a plus. -/
theorem signs_apply_odd :
    let c : ParseContext := ⟨{}, .expression⟩
    let s : ParseState := ⟨.ofSource "-+--(5 cast as xs:byte)".toList 0 1, {}, []⟩
    ∃ e s' a t, ((Parser.unary 40 c).run).run s = (.ok e, s') ∧ t.upcoming = s.upcoming.drop 4 ∧
      ((Parser.path 39 c).run).run t = (.ok a, s') ∧ ∀ (d : DynamicContext) (f : Frame) (w : World),
        (((e.meaning d).toList f).perform w).1.mapError Failure.code =
          ((((a.meaning d).value? f).perform w).1.mapError Failure.code >>= fun o =>
            o.mapM (Sign.applyAll [.minus, .plus, .minus, .minus])).map (·.toList.map .atomic) := by
  intro c s
  have hread : (((Parser.unary 40 c).run).run s).1.toOption.isSome := by decide +kernel
  cases hunary : ((Parser.unary 40 c).run).run s with
  | mk r s' =>
    rw [hunary] at hread
    cases r with
    | error e => cases hread
    | ok e =>
      have htokens : s.upcoming = [Sign.minus, .plus, .minus, .minus].map Sign.token ++ s.upcoming.drop 4 := by
        decide +kernel
      have hts (x : Sign) : (s.upcoming.drop 4).head? ≠ some x.token := by cases x <;> decide +kernel
      obtain ⟨a, t, hupcoming, -, hpath, -, happly⟩ := signs_apply htokens hts hunary
      refine ⟨e, s', a, t, rfl, hupcoming, hpath, fun d f w => ?_⟩
      have hsigned := (happly (List.cons_ne_nil _ _) d f w).1
      have hcancels (v : Atomic) : Sign.cancels [.minus, .plus, .minus, .minus] v = false := by cases v <;> rfl
      simpa only [hcancels, Bool.false_eq_true, if_false] using hsigned

/-- The minus signs of a run cancel each other and leave a byte; each of them alone makes a plain integer. -/
theorem signs_cancel :
    let value (text : String) := (Expr.parse text 0 .endOfInput 1 {} {}).1.toOption.map fun e =>
      (((e.meaning {}).toList {}).perform { forest := {} }).1
    value "(5 cast as xs:byte)" = some (.ok [.atomic (.integer .byte 5)]) ∧
      value "--(5 cast as xs:byte)" = some (.ok [.atomic (.integer .byte 5)]) ∧
      value "-(-(5 cast as xs:byte))" = some (.ok [.atomic (.integer .integer 5)]) ∧
      Sign.applyAll [.minus, .minus] (.integer .byte 5) = .ok (.integer .integer 5) :=
  ⟨by decide +kernel, by decide +kernel, by decide +kernel, rfl⟩

end Expr
end XPath
