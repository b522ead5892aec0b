import XPath.Proofs.Reading
import XPath.Compile

/-!
What reading leaves of a compile unit, whether or not it succeeds. Wherever a text breaks off, the variables that
were in scope are in scope again, and locations and bindings are only appended. A binding expression is the one
place where a variable comes into scope; it is popped after what may mention it, and in between every parser
keeps the scope, so that no other variable can be popped in its stead.
-/
namespace XPath

namespace CompileUnit
variable {u v w : CompileUnit}

/-- The scope is the same, and locations and bindings have only been appended. -/
structure Keeps (u v : CompileUnit) : Prop where
  scope : v.scope = u.scope
  locations : u.locations.toList <+: v.locations.toList
  bindings : u.bindings.toList <+: v.bindings.toList

instance : IsPreorder CompileUnit Keeps where
  refl _ := ⟨rfl, List.prefix_rfl, List.prefix_rfl⟩
  trans _ _ _ h h' :=
    ⟨h'.scope.trans h.scope, h.locations.trans h'.locations, h.bindings.trans h'.bindings⟩

namespace Keeps

theorem refl (u : CompileUnit) : u.Keeps u := refl_of Keeps u

theorem trans (h : u.Keeps v) (h' : v.Keeps w) : u.Keeps w := trans_of Keeps h h'

/-- A name means what it meant. -/
theorem lookup (h : u.Keeps v) (name : QName) : v.lookup name = u.lookup name := by
  rw [CompileUnit.lookup, h.scope, CompileUnit.lookup]

/-- A slot belongs to the variable to which it belonged. -/
theorem binding (h : u.Keeps v) {slot : Slot} (hslot : slot < u.bindings.size) :
    v.binding slot = u.binding slot := by
  obtain ⟨more, hmore⟩ := h.bindings
  rw [CompileUnit.binding, CompileUnit.binding, ← Array.getElem?_toList, ← Array.getElem?_toList, ← hmore,
    List.getElem?_append_left hslot]

theorem location (h : u.Keeps v) {id : LocationId} (hid : id < u.locations.size) :
    v.locations[id]? = u.locations[id]? := by
  obtain ⟨more, hmore⟩ := h.locations
  rw [← Array.getElem?_toList, ← Array.getElem?_toList, ← hmore, List.getElem?_append_left hid]

theorem restore (h : u.Keeps v) : u.Keeps (v.restore u.scope.length) := by
  rw [restore_of_scope_eq h.scope]
  exact h

/-- The variable that is popped is the one that was pushed. -/
theorem pop {name : QName} {slot : Slot} (h : (u.push name slot).Keeps v) : u.Keeps v.pop.2 := by
  have hpop : v.pop.2 = { v with scope := u.scope } := by rw [CompileUnit.pop, h.scope, CompileUnit.push]
  rw [hpop]
  exact ⟨rfl, h.locations, h.bindings⟩

theorem allocateLocation (u : CompileUnit) (l : Location) : u.Keeps (u.allocateLocation l).2 := by
  obtain ⟨hlocations, hbindings, hscope, -⟩ := Parser.allocateLocation_spec u l
  exact ⟨hscope, hlocations, hbindings ▸ List.prefix_rfl⟩

theorem allocate (u : CompileUnit) (name : QName) (kind : BindingKind) (type : Option SequenceType) :
    u.Keeps (u.allocate name kind type).2 := by
  refine ⟨rfl, List.prefix_rfl, ?_⟩
  rw [CompileUnit.allocate, Array.toList_push]
  exact List.prefix_append _ _

end Keeps
end CompileUnit

/-- The unit is kept, whatever else has changed. -/
def ParseState.Keeps (s s' : ParseState) : Prop := s.unit.Keeps s'.unit

instance : IsPreorder ParseState ParseState.Keeps where
  refl s := .refl s.unit
  trans _ _ _ h h' := CompileUnit.Keeps.trans h h'

namespace Parser
variable {α β : Type} {p : Parser α} {n : ℕ}

/-- The parser keeps the unit, also when it fails. -/
abbrev Keeping (p : Parser α) : Prop := Leaves ParseState.Keeps p

theorem Skips.keeping (h : Skips p) : Keeping p :=
  h.mono fun _ _ hs => ⟨hs.scope, hs.locations, hs.bindings ▸ List.prefix_rfl⟩

theorem Looks.keeping (h : Looks p) : Keeping p := h.skips.keeping

theorem Fails.keeping (h : Fails p) : Keeping p := h.skips.keeping

theorem keeping_inScope (hp : Keeping p) : Keeping (inScope p) := by
  intro c s
  rw [run_inScope, run_unwinding]
  exact (hp c s).restore

/-- A variable comes into scope, the rest is read, and the variable goes out of scope. -/
theorem keeping_declare {f : Slot → Parser α} (name : QName) (type : Option SequenceType)
    (hf : ∀ slot, Keeping (f slot)) : Keeping (declare name type >>= fun slot => popping (f slot)) := by
  intro c s
  let slot := (s.unit.allocate name .range type).1
  let unit := (s.unit.allocate name .range type).2
  have hdeclare : ((declare name type c).run).run s = (.ok slot, { s with unit := unit.push name slot }) := rfl
  rw [run_bind, hdeclare]
  dsimp only
  rw [popping, run_unwinding]
  exact (CompileUnit.Keeps.allocate ..).trans (hf slot c { s with unit := unit.push name slot }).pop

/-! The functions of the grammar that do not call themselves. -/

theorem keeping_variableRef : Keeping variableRef := by
  refine skips_location.keeping.bind fun _ => (skips_expectSymbol _).keeping.bind fun _ => ?_
  refine (skips_qname _).keeping.bind fun r => looks_get.keeping.bind fun s => ?_
  split
  · exact .pure _
  · exact looks_static.keeping.bind fun _ => .ite (.pure _) (fails_failAt _ _ _).keeping

theorem keeping_applyFunction (name : QName) (l : Lexeme) (args : List Expr) (at' : LocationId) :
    Keeping (applyFunction name l args at') := by
  unfold applyFunction
  split
  · refine .ite ((looks_resolveCastTarget _ _).keeping.bind fun _ => .pure _) ?_
    exact (skips_resolveFunction _ _ _).keeping.bind fun _ => .pure _
  · exact (skips_resolveFunction _ _ _).keeping.bind fun _ => .pure _

theorem keeping_typeOperator (first second : String) {type : Parser UnaryOp} (htype : Skips type) (e : Expr) :
    Keeping (typeOperator first second type e) := by
  refine (looks_peekNth _).keeping.bind fun o => ?_
  split
  · refine (looks_checkName _).keeping.bind fun _ => .ite (skips_location.keeping.bind fun _ => ?_) (.pure _)
    exact skips_advance.keeping.bind fun _ => skips_advance.keeping.bind fun _ => htype.keeping.bind fun _ => .pure _
  · exact .pure _

theorem keeping_typeOperators (e : Expr) : Keeping (typeOperators e) := by
  refine (keeping_typeOperator _ _ (skips_singleType.bind fun _ => .pure _) e).bind fun e => ?_
  refine (keeping_typeOperator _ _ (skips_singleType.bind fun _ => .pure _) e).bind fun e => ?_
  refine (keeping_typeOperator _ _ (skips_sequenceType.bind fun _ => .pure _) e).bind fun e => ?_
  exact keeping_typeOperator _ _ (skips_sequenceType.bind fun _ => .pure _) e

theorem skips_clauseHead (k : BindingKeyword) : Skips (clauseHead k) := by
  have hword (r : QName × Option SequenceType) : Skips (do
      if k = .let then expectSymbol .colonEqual else expectName "in"
      return r) :=
    .ite ((skips_expectSymbol _).bind fun _ => .pure _) ((skips_expectName _).bind fun _ => .pure _)
  refine (skips_expectSymbol _).bind fun _ => (skips_qname _).bind fun r => ?_
  have htyped (typed : Bool) : Skips (do
      let type ← if typed then some <$> sequenceType else pure none
      if k = .let then expectSymbol .colonEqual else expectName "in"
      return (r.1, type)) :=
    .ite ((skips_sequenceType.map _).bind fun _ => hword _) ((Leaves.pure _).bind fun _ => hword _)
  exact .ite ((skips_eatName _).bind htyped) ((Leaves.pure _).bind htyped)

/-- What the functions of the grammar do with so much fuel. -/
structure IsKeeping (n : ℕ) : Prop where
  expr : Keeping (expr n)
  commaItems : Keeping (commaItems n)
  exprSingle : Keeping (exprSingle n)
  operators level : Keeping (operators n level)
  moreOperators level e : Keeping (moreOperators n level e)
  concatItems : Keeping (concatItems n)
  operand level : Keeping (operand n level)
  unary : Keeping (unary n)
  path : Keeping (path n)
  relativePath e sorted start : Keeping (relativePath n e sorted start)
  stepExpr : Keeping (stepExpr n)
  axisStep : Keeping (axisStep n)
  predicates e : Keeping (predicates n e)
  predicate e : Keeping (predicate n e)
  primary : Keeping (primary n)
  enclosed left right : Keeping (enclosed n left right)
  functionCall : Keeping (functionCall n)
  arguments : Keeping (arguments n)
  conditional : Keeping (conditional n)
  bindingExpr k : Keeping (bindingExpr n k)
  clauses k : Keeping (clauses n k)

namespace IsKeeping

theorem zero : IsKeeping 0 where
  expr := fails_tooDeep.keeping
  commaItems := fails_tooDeep.keeping
  exprSingle := fails_tooDeep.keeping
  operators _ := fails_tooDeep.keeping
  moreOperators _ _ := fails_tooDeep.keeping
  concatItems := fails_tooDeep.keeping
  operand _ := fails_tooDeep.keeping
  unary := fails_tooDeep.keeping
  path := fails_tooDeep.keeping
  relativePath _ _ _ := fails_tooDeep.keeping
  stepExpr := fails_tooDeep.keeping
  axisStep := fails_tooDeep.keeping
  predicates _ := fails_tooDeep.keeping
  predicate _ := fails_tooDeep.keeping
  primary := fails_tooDeep.keeping
  enclosed _ _ := fails_tooDeep.keeping
  functionCall := fails_tooDeep.keeping
  arguments := fails_tooDeep.keeping
  conditional := fails_tooDeep.keeping
  bindingExpr _ := fails_tooDeep.keeping
  clauses _ := fails_tooDeep.keeping

theorem expr_succ (h : IsKeeping n) : Keeping (Parser.expr (n + 1)) := by
  refine skips_location.keeping.bind fun _ => h.exprSingle.bind fun first => ?_
  refine (looks_checkSymbol _).keeping.bind fun _ => .ite ?_ (.pure _)
  exact h.commaItems.bind fun more => .pure _

theorem commaItems_succ (h : IsKeeping n) : Keeping (Parser.commaItems (n + 1)) := by
  refine (skips_eatSymbol _).keeping.bind fun _ => .ite ?_ (.pure _)
  exact h.exprSingle.bind fun e => h.commaItems.bind fun es => .pure _

theorem exprSingle_succ (h : IsKeeping n) : Keeping (Parser.exprSingle (n + 1)) := by
  have hoperators : Keeping (do
      if (← checkName "if") && (← checkNthSymbol 1 .leftParen) then return ← Parser.conditional n
      Parser.operators n .or) := by
    refine (looks_checkName _).keeping.bind fun _ => (looks_checkNthSymbol _ _).keeping.bind fun _ => ?_
    exact .ite h.conditional (h.operators _)
  refine (looks_checkNthSymbol _ _).keeping.bind fun _ => .ite (looks_peek.keeping.bind fun o => ?_) hoperators
  dsimp only
  split
  · next k _ => exact h.bindingExpr k
  · exact hoperators

theorem operators_succ (h : IsKeeping n) (level : OperatorLevel) : Keeping (Parser.operators (n + 1) level) := by
  refine (h.operand level).bind fun left => ?_
  split
  · refine (looks_checkSymbol _).keeping.bind fun _ => .ite (skips_location.keeping.bind fun _ => ?_) (.pure _)
    exact h.concatItems.bind fun more => .pure _
  · exact h.moreOperators level left

theorem moreOperators_succ (h : IsKeeping n) (level : OperatorLevel) (e : Expr) :
    Keeping (Parser.moreOperators (n + 1) level e) := by
  refine looks_peek.keeping.bind fun o => ?_
  split
  · exact .pure _
  · refine skips_location.keeping.bind fun _ => skips_advance.keeping.bind fun _ => ?_
    exact (h.operand level).bind fun right => .ite (.pure _) (h.moreOperators level _)

theorem concatItems_succ (h : IsKeeping n) : Keeping (Parser.concatItems (n + 1)) := by
  refine (skips_eatSymbol _).keeping.bind fun _ => .ite ?_ (.pure _)
  exact (h.operand _).bind fun e => h.concatItems.bind fun es => .pure _

theorem operand_succ (h : IsKeeping n) (level : OperatorLevel) : Keeping (Parser.operand (n + 1) level) := by
  unfold Parser.operand
  split
  · next tighter _ => exact h.operators tighter
  · exact h.unary.bind keeping_typeOperators

theorem unary_succ (h : IsKeeping n) : Keeping (Parser.unary (n + 1)) :=
  skips_location.keeping.bind fun _ => looks_get.keeping.bind fun _ => (skips_signs _ _ _).keeping.bind fun _ =>
    h.path.bind fun _ => .pure _

theorem path_succ (h : IsKeeping n) : Keeping (Parser.path (n + 1)) := by
  have hrest (step : Expr → Expr) (sorted : Bool) (start : Expr → LocationId) :
      Keeping (Parser.stepExpr n >>= fun e => Parser.relativePath n (step e) sorted (start e)) :=
    h.stepExpr.bind fun e => h.relativePath _ _ _
  refine skips_location.keeping.bind fun _ => (skips_eatSymbol _).keeping.bind fun _ => .ite ?_ ?_
  · exact looks_startsStep.keeping.bind fun _ => .ite (.pure _) (hrest _ _ _)
  · exact (skips_eatSymbol _).keeping.bind fun _ => .ite (hrest _ _ _) (hrest _ _ _)

theorem relativePath_succ (h : IsKeeping n) (e : Expr) (sorted : Bool) (start : LocationId) :
    Keeping (Parser.relativePath (n + 1) e sorted start) := by
  refine skips_location.keeping.bind fun _ => (skips_eatSymbol _).keeping.bind fun _ => .ite ?_ ?_
  · exact h.stepExpr.bind fun step => h.relativePath _ _ _
  · refine (skips_eatSymbol _).keeping.bind fun _ => .ite ?_ (.pure _)
    exact h.stepExpr.bind fun step => h.relativePath _ _ _

theorem stepExpr_succ (h : IsKeeping n) : Keeping (Parser.stepExpr (n + 1)) :=
  looks_startsAxisStep.keeping.bind fun _ => .ite h.axisStep (h.primary.bind h.predicates)

theorem axisStep_succ (h : IsKeeping n) : Keeping (Parser.axisStep (n + 1)) :=
  skips_location.keeping.bind fun _ => (skips_axisAndTest skips_nodeTest).keeping.bind fun _ =>
    (h.predicates _).bind fun _ => .pure _

theorem predicates_succ (h : IsKeeping n) (e : Expr) : Keeping (Parser.predicates (n + 1) e) :=
  (looks_checkSymbol _).keeping.bind fun _ => .ite ((h.predicate e).bind h.predicates) (.pure _)

theorem predicate_succ (h : IsKeeping n) (e : Expr) : Keeping (Parser.predicate (n + 1) e) :=
  skips_location.keeping.bind fun _ => (skips_expectSymbol _).keeping.bind fun _ => h.expr.bind fun _ =>
    (skips_expectSymbol _).keeping.bind fun _ => .pure _

theorem primary_succ (h : IsKeeping n) : Keeping (Parser.primary (n + 1)) := by
  have hcall : Keeping (do
      if (← checkQName) && (← checkNthSymbol 1 .leftParen) then Parser.functionCall n
      else expected "an expression") := by
    refine looks_checkQName.keeping.bind fun _ => (looks_checkNthSymbol _ _).keeping.bind fun _ => ?_
    exact .ite h.functionCall (fails_expected _).keeping
  refine skips_location.keeping.bind fun at' => looks_peek.keeping.bind fun o => ?_
  have hgive (e : Expr) : Keeping (advance >>= fun _ => pure e) := skips_advance.keeping.bind fun _ => .pure _
  split
  · exact hgive _
  · exact hgive _
  · exact hgive _
  · exact hgive _
  · exact keeping_variableRef
  · exact h.enclosed _ _
  · exact hgive _
  · refine (looks_checkNthQName _).keeping.bind fun _ => (looks_checkNthSymbol _ _).keeping.bind fun _ => ?_
    refine .ite (skips_advance.keeping.bind fun _ => (skips_qname _).keeping.bind fun r => ?_) ?_
    · exact (h.enclosed _ _).bind fun e => .pure _
    · refine (looks_checkNthSymbol _ _).keeping.bind fun _ => .ite (skips_advance.keeping.bind fun _ => ?_) hcall
      exact (h.enclosed _ _).bind fun e => .pure _
  · exact hcall

theorem enclosed_succ (h : IsKeeping n) (left right : Symbol) : Keeping (Parser.enclosed (n + 1) left right) := by
  refine skips_location.keeping.bind fun _ => (skips_expectSymbol _).keeping.bind fun _ => ?_
  refine (skips_eatSymbol _).keeping.bind fun _ => .ite (.pure _) (h.expr.bind fun e => ?_)
  exact (skips_expectSymbol _).keeping.bind fun _ => .pure _

theorem functionCall_succ (h : IsKeeping n) : Keeping (Parser.functionCall (n + 1)) := by
  refine skips_location.keeping.bind fun at' => (skips_qname _).keeping.bind fun r => ?_
  refine (skips_expectSymbol _).keeping.bind fun _ => (skips_eatSymbol _).keeping.bind fun _ => .ite ?_ ?_
  · exact (Leaves.pure _).bind fun args => keeping_applyFunction _ _ args _
  · exact h.arguments.bind fun args => keeping_applyFunction _ _ args _

theorem arguments_succ (h : IsKeeping n) : Keeping (Parser.arguments (n + 1)) := by
  refine h.exprSingle.bind fun e => (skips_eatSymbol _).keeping.bind fun _ => .ite (.pure _) ?_
  exact (skips_expectSymbol _).keeping.bind fun _ => h.arguments.bind fun es => .pure _

theorem conditional_succ (h : IsKeeping n) : Keeping (Parser.conditional (n + 1)) := by
  refine skips_location.keeping.bind fun _ => (skips_expectName _).keeping.bind fun _ => ?_
  refine (skips_expectSymbol _).keeping.bind fun _ => h.expr.bind fun condition => ?_
  refine (skips_expectSymbol _).keeping.bind fun _ => (skips_expectName _).keeping.bind fun _ => ?_
  refine h.exprSingle.bind fun yes => (skips_expectName _).keeping.bind fun _ => ?_
  exact h.exprSingle.bind fun no => .pure _

theorem bindingExpr_succ (h : IsKeeping n) (k : BindingKeyword) : Keeping (Parser.bindingExpr (n + 1) k) :=
  skips_advance.keeping.bind fun _ => (keeping_inScope (h.clauses k)).bind fun _ => .pure _

theorem clauses_succ (h : IsKeeping n) (k : BindingKeyword) : Keeping (Parser.clauses (n + 1) k) := by
  refine skips_location.keeping.bind fun _ => (skips_clauseHead k).keeping.bind fun r => ?_
  refine h.exprSingle.bind fun source => keeping_declare _ _ fun slot => ?_
  refine (skips_eatSymbol _).keeping.bind fun _ => .ite ((h.clauses k).bind fun r => .pure _) ?_
  exact (skips_expectName _).keeping.bind fun _ => h.exprSingle.bind fun body => .pure _

theorem succ (h : IsKeeping n) : IsKeeping (n + 1) where
  expr := h.expr_succ
  commaItems := h.commaItems_succ
  exprSingle := h.exprSingle_succ
  operators := h.operators_succ
  moreOperators := h.moreOperators_succ
  concatItems := h.concatItems_succ
  operand := h.operand_succ
  unary := h.unary_succ
  path := h.path_succ
  relativePath := h.relativePath_succ
  stepExpr := h.stepExpr_succ
  axisStep := h.axisStep_succ
  predicates := h.predicates_succ
  predicate := h.predicate_succ
  primary := h.primary_succ
  enclosed := h.enclosed_succ
  functionCall := h.functionCall_succ
  arguments := h.arguments_succ
  conditional := h.conditional_succ
  bindingExpr := h.bindingExpr_succ
  clauses := h.clauses_succ

/-- However much fuel there is. -/
theorem all (n : ℕ) : IsKeeping n := by
  induction n with
  | zero => exact zero
  | succ n ih => exact ih.succ

end IsKeeping

/-! Match patterns. -/

theorem keeping_patternPredicates (n : ℕ) (e : Expr) : Keeping (patternPredicates n e) := by
  induction n generalizing e with
  | zero => exact fails_tooDeep.keeping
  | succ n ih =>
    refine (looks_checkSymbol _).keeping.bind fun _ => .ite ?_ (.pure _)
    refine looks_fuel.keeping.bind fun k => ((IsKeeping.all k).predicate e).bind fun e => ?_
    exact (ih e).bind fun r => .pure _

theorem keeping_stepPattern (n : ℕ) : Keeping (stepPattern n) := by
  refine skips_location.keeping.bind fun at' => looks_peek.keeping.bind fun o => ?_
  refine (looks_checkNthSymbol _ _).keeping.bind fun b => ?_
  have hstep : Keeping (do
      let r ← axisAndTest nodeTest
      let x ← patternPredicates n (.mkLeaf (.step r.1 r.2) at')
      return (x.1, if r.1 = .child ∨ r.1 = .attr then some (PatternShape.step r.1 r.2 x.2) else none)) :=
    (skips_axisAndTest skips_nodeTest).keeping.bind fun r =>
      (keeping_patternPredicates n _).bind fun x => .pure _
  dsimp only
  split
  · exact .ite hstep ((fails_syntaxError _).keeping.bind fun _ => hstep)
  · exact .ite hstep ((fails_expected _).keeping.bind fun _ => hstep)

theorem keeping_moreStepPatterns (n : ℕ) (e : Expr) (more : Bool) : Keeping (moreStepPatterns n e more) := by
  induction n generalizing e more with
  | zero => exact fails_tooDeep.keeping
  | succ n ih =>
    refine skips_location.keeping.bind fun _ => (skips_eatSymbol _).keeping.bind fun _ => .ite ?_ ?_
    · exact (keeping_stepPattern n).bind fun r => ih _ _
    · refine (skips_eatSymbol _).keeping.bind fun _ => .ite ?_ (.pure _)
      exact (keeping_stepPattern n).bind fun r => ih _ _

theorem keeping_pathFrom (n : ℕ) (base : Expr) (anywhere : Bool) (at' : LocationId) :
    Keeping (pathFrom n base anywhere at') := by
  refine (keeping_stepPattern n).bind fun r => (keeping_moreStepPatterns n _ _).bind fun x => ?_
  dsimp only
  split
  · exact .pure _
  · exact .pure _

theorem keeping_rootedPattern (n : ℕ) (at' : LocationId) : Keeping (rootedPattern n at') := by
  refine looks_fuel.keeping.bind fun k => (IsKeeping.all k).primary.bind fun call => ?_
  refine (keeping_patternPredicates n _).bind fun r => (looks_checkSymbol _).keeping.bind fun _ => ?_
  refine (looks_checkSymbol _).keeping.bind fun _ => .ite (.pure _) (skips_location.keeping.bind fun _ => ?_)
  refine (skips_eatSymbol _).keeping.bind fun _ => .ite (keeping_pathFrom n _ _ _) ?_
  exact (skips_expectSymbol _).keeping.bind fun _ => keeping_pathFrom n _ _ _

theorem keeping_pathPattern (n : ℕ) : Keeping (pathPattern n) := by
  refine skips_location.keeping.bind fun at' => (skips_eatSymbol _).keeping.bind fun _ => .ite ?_ ?_
  · exact (keeping_patternPredicates n _).bind fun r => .pure _
  refine (skips_eatSymbol _).keeping.bind fun _ => .ite ?_ ?_
  · exact looks_startsStep.keeping.bind fun _ => .ite (.pure _) (keeping_pathFrom n _ _ _)
  refine (skips_eatSymbol _).keeping.bind fun _ => .ite (keeping_pathFrom n _ _ _) ?_
  refine (looks_checkName _).keeping.bind fun _ => (looks_checkName _).keeping.bind fun _ => ?_
  refine (looks_checkNthSymbol _ _).keeping.bind fun _ => ?_
  exact .ite (keeping_rootedPattern n _) (keeping_pathFrom n _ _ _)

theorem keeping_pattern (n : ℕ) : Keeping (pattern n) := by
  induction n with
  | zero => exact fails_tooDeep.keeping
  | succ n ih =>
    refine (keeping_pathPattern n).bind fun a => (skips_eatSymbol _).keeping.bind fun _ => ?_
    have hmore (more : Bool) : Keeping (if more then do return a :: (← pattern n) else return [a]) :=
      .ite (ih.bind fun as => .pure _) (.pure _)
    exact .ite ((Leaves.pure _).bind hmore) ((skips_eatName _).keeping.bind hmore)

/-! Whole texts. -/

theorem Keeping.run (h : Keeping p) (context : StaticContext) (kind : GrammarKind) (source : String)
    (start line : ℕ) (unit : CompileUnit) : unit.Keeps (p.run context kind source start line unit).2.1 :=
  h ⟨context, kind⟩ ⟨.ofSource source.toList start line, unit, []⟩

end Parser

open XPath.Parser

namespace CompileUnit
variable (unit : CompileUnit) (context : StaticContext) (text : String)

theorem keeps_expr (start : ℕ) (terminator : Terminator) (line : ℕ) :
    unit.Keeps (Expr.parse text start terminator line context unit).2.1 := by
  have hreader : Keeping (inScope do
      let e ← Parser.expr (← fuel)
      expectTerminator terminator
      return e) := keeping_inScope (looks_fuel.keeping.bind fun n =>
    (IsKeeping.all n).expr.bind fun e => (skips_expectTerminator _).keeping.bind fun _ => .pure _)
  exact hreader.run context .expression text start line unit

theorem keeps_pattern : unit.Keeps (Pattern.parse text context unit).2.1 := by
  have hreader : Keeping (inScope do
      let alternatives ← Parser.pattern (← fuel)
      expectTerminator .endOfInput
      return Pattern.mk alternatives) := keeping_inScope (looks_fuel.keeping.bind fun n =>
    (keeping_pattern n).bind fun as => (skips_expectTerminator _).keeping.bind fun _ => .pure _)
  exact hreader.run context .pattern text 0 1 unit

end CompileUnit

namespace ValueTemplate
variable (source : String) (context : StaticContext)

theorem keeps_enclosed (place : Place) (rest : List Char) (s : State) :
    s.unit.Keeps (enclosed source place rest context s).2.unit := by
  unfold enclosed
  split
  · exact .refl _
  · dsimp only
    split
    · exact .refl _
    · exact (s.unit.keeps_expr context source place.offset .rightBrace place.line).restore

theorem keeps_read (place : Place) (literal rest : List Char) (s : State) :
    s.unit.Keeps (read source context place literal rest s).2.unit := by
  induction place, literal, rest, s using read.induct source context with
  | case1 place literal s =>
    rw [read]
    exact .refl _
  | case2 place literal c cs s hbrace htwice ih =>
    rw [read, if_pos hbrace, if_pos htwice]
    exact ih
  | case3 place literal cs s hbrace hlone =>
    rw [read, if_pos hbrace, if_neg hlone, if_pos rfl]
    exact .refl _
  | case4 place literal c cs s hbrace hlone hopen e s₁ henclosed =>
    rw [read, if_pos hbrace, if_neg hlone, if_neg hopen, henclosed]
    have hkeeps := keeps_enclosed source context (place.advance c) cs s
    rwa [henclosed] at hkeeps
  | case5 place literal c cs s hbrace hlone hopen ps n s₁ henclosed r s₂ hmore ih =>
    rw [read, if_pos hbrace, if_neg hlone, if_neg hopen, henclosed]
    have hkeeps := keeps_enclosed source context (place.advance c) cs s
    rw [henclosed] at hkeeps
    exact hkeeps.trans ih
  | case6 place literal c cs s hbrace ih =>
    rw [read, if_neg hbrace]
    exact ih

end ValueTemplate

/-- Wherever a text breaks off, the unit is as it was but for new locations and new slots. -/
theorem CompileUnit.kept_by_texts (unit : CompileUnit) (context : StaticContext) (text : String) (line : ℕ) :
    (∀ start terminator, unit.Keeps (Expr.parse text start terminator line context unit).2.1) ∧
      unit.Keeps (Pattern.parse text context unit).2.1 ∧
      unit.Keeps (ValueTemplate.parse text line context unit).2.1 := by
  refine ⟨fun start terminator => unit.keeps_expr context text start terminator line,
    unit.keeps_pattern context text, ?_⟩
  let location : Location := ⟨line, 1, 0, text.utf8ByteSize⟩
  have hread := ValueTemplate.keeps_read text context ⟨0, line, 1⟩ [] text.toList
    ⟨(unit.allocateLocation location).2, []⟩
  exact (CompileUnit.Keeps.allocateLocation unit location).trans hread

end XPath
