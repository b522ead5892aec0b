import XPath.Query
import XPath.Proofs.Absence
import XPath.Proofs.Scoping
import XPath.Proofs.Texts

/-!
Variables from the text to the answer. A name in a text stands for the innermost variable of that name, the
passes leave every reference in the scope of its binder, and a run finds a value for every variable but
parameters that have not been set.
-/
namespace XPath
open XPath.Expr

namespace CompileUnit

theorem isParameter_iff {u : CompileUnit} {s : Slot} :
    u.IsParameter s ↔ s < u.bindings.size ∧ (u.binding s).kind = .parameter := by
  unfold IsParameter binding
  constructor
  · rintro ⟨b, hb, hkind⟩
    rw [hb]
    exact ⟨(Array.getElem?_eq_some_iff.1 hb).1, hkind⟩
  · rintro ⟨hs, hkind⟩
    rw [Array.getElem?_eq_getElem hs] at hkind ⊢
    exact ⟨_, rfl, hkind⟩

end CompileUnit

theorem Expr.Keeps.isParameter {unit unit' : CompileUnit} {e x : Expr} (h : Keeps unit e unit' x) {s : Slot}
    (hs : unit.IsParameter s) : unit'.IsParameter s := by
  rw [CompileUnit.isParameter_iff] at hs ⊢
  exact ⟨hs.1.trans_le h.size, (h.kind s hs.1).trans hs.2⟩

namespace IsRead
variable {context : StaticContext} {texts : Set (List Lexeme)} {unit unit' : CompileUnit}
  {es : List Expr} {e : Expr}

theorem isPlaced (h : IsRead context texts unit unit' es) (he : e ∈ es) : IsPlaced unit' e :=
  ⟨h.wellBound.of_mem he, fun _ hs => h.below he hs⟩

/-- An expression may also be put together from all that has been read. -/
theorem isPlaced_of (h : IsRead context texts unit unit' es) (hneeds : ∀ s, e.needs s → ∃ a ∈ es, a.needs s)
    (hbound : e.boundSlots = es.flatMap boundSlots) : IsPlaced unit' e := by
  refine ⟨⟨fun x hx s hs => ?_, ?_⟩, fun s hs => ?_⟩
  · obtain rfl := List.mem_singleton.1 hx
    obtain ⟨a, ha, hs⟩ := hneeds s hs
    rw [List.flatMap_singleton, hbound]
    exact h.wellBound.inScope a ha s hs
  · rw [List.flatMap_singleton, hbound]
    exact h.wellBound.once
  · obtain hs | hs := hs
    · obtain ⟨a, ha, hs⟩ := hneeds s hs
      exact (h.isParameter ha hs).lt
    · exact (h.fresh s (hbound ▸ hs)).2

end IsRead

/-- A compiled expression in which every variable is in the scope of its binder or is a parameter. When it
is evaluated, whatever would happen at a variable without a value, parameters apart, does not happen. -/
structure Expr.IsClosed (unit : CompileUnit) (x : Expr) : Prop where
  once : x.boundSlots.Nodup
  parameter : ∀ s, x.needs s → unit.IsParameter s
  run : ∀ absent, (∀ s, unit.IsParameter s → absent s = raiseAbsent s) → ∀ c f,
    (x.meaning c).Matches f (x.meaningOr absent c).toWays f

/-- In a later unit, in which there may be more parameters, there are fewer variables left to ask about. -/
theorem Expr.IsClosed.later {unit unit' : CompileUnit} {x : Expr} (h : x.IsClosed unit)
    (hunit : ∀ s, unit.IsParameter s → unit'.IsParameter s) : x.IsClosed unit' :=
  ⟨h.once, fun s hs => hunit s (h.parameter s hs), fun absent habsent =>
    h.run absent fun s hs => habsent s (hunit s hs)⟩

namespace Compile

variable {context : StaticContext} {unit unit' : CompileUnit} {e x : Expr}

/-- Compiling closes an expression that uses parameters only. -/
theorem expr_closes (he : IsPlaced unit e) (hneeds : ∀ s, e.needs s → unit.IsParameter s)
    (h : (expr e).run context unit = (.ok x, unit')) : x.IsClosed unit' := by
  obtain ⟨y, hy, rfl⟩ := expr_keeps he h
  have hkeeps := hy.trans (Modes.assign_keeps hy.placed)
  have hparameter (s : Slot) (hs : (Modes.assign unit' y).needs s) : unit'.IsParameter s :=
    hkeeps.isParameter (hneeds s (hkeeps.needs s hs))
  have hcaptures := Modes.assign_captures unit' y hy.placed.wellBound
  refine ⟨by simpa using hkeeps.placed.wellBound.once, hparameter, fun absent habsent c f => ?_⟩
  rw [← meaningOr_raise]
  exact (alike _ hcaptures f fun s hs _ => (habsent s (hparameter s hs)).symm).ways

/-- Expressions are compiled in turn. -/
inductive InTurn (context : StaticContext) : CompileUnit → List Expr → CompileUnit → List Expr → Prop
  | nil (unit : CompileUnit) : InTurn context unit [] unit []
  | cons {unit unit₁ unit₂ : CompileUnit} {e x : Expr} {es xs : List Expr}
    (first : (expr e).run context unit = (.ok x, unit₁)) (rest : InTurn context unit₁ es unit₂ xs) :
    InTurn context unit (e :: es) unit₂ (x :: xs)

/-- What is compiled before stays closed, since parameters stay parameters, and the variables of what is still
to be compiled stay known. -/
theorem InTurn.closes {es xs : List Expr} (h : InTurn context unit es unit' xs)
    (hes : ∀ e ∈ es, IsPlaced unit e ∧ ∀ s, e.needs s → unit.IsParameter s) :
    (∀ s, unit.IsParameter s → unit'.IsParameter s) ∧ ∀ x ∈ xs, x.IsClosed unit' := by
  induction h with
  | nil unit => exact ⟨fun _ => id, by simp⟩
  | cons first rest ih =>
    obtain ⟨⟨he, hneeds⟩, hes⟩ := List.forall_mem_cons.1 hes
    obtain ⟨y, hy, -⟩ := expr_keeps he first
    obtain ⟨hkept, hclosed⟩ := ih fun a ha =>
      ⟨⟨(hes a ha).1.wellBound, fun s hs => ((hes a ha).1.below s hs).trans_le hy.size⟩,
        fun s hs => hy.isParameter ((hes a ha).2 s hs)⟩
    refine ⟨fun s hs => hkept s (hy.isParameter hs), List.forall_mem_cons.2 ⟨?_, hclosed⟩⟩
    exact (expr_closes he hneeds first).later hkept

theorem alternatives_inTurn {as bs : List PatternAlternative}
    (h : (alternatives as).run context unit = (.ok bs, unit')) :
    InTurn context unit (as.map (·.expr)) unit' (bs.map (·.expr)) := by
  induction as generalizing bs unit with
  | nil =>
    cases h
    exact .nil _
  | cons a as ih =>
    obtain ⟨x, unit₁, hx, h⟩ := Pass.run_bind_ok h
    obtain ⟨xs, unit₂, hxs, h⟩ := Pass.run_bind_ok h
    cases h
    exact .cons hx (ih hxs)

theorem templateParts_inTurn {ps qs : List TemplatePart}
    (h : (templateParts ps).run context unit = (.ok qs, unit')) :
    InTurn context unit (ps.filterMap (·.expr?)) unit' (qs.filterMap (·.expr?)) := by
  induction ps generalizing qs unit with
  | nil =>
    cases h
    exact .nil _
  | cons part ps ih =>
    cases part with
    | text s =>
      obtain ⟨xs, unit₁, hxs, h⟩ := Pass.run_bind_ok h
      cases h
      have hrest := ih hxs
      exact hrest
    | expr e =>
      obtain ⟨x, unit₁, hx, h⟩ := Pass.run_bind_ok h
      obtain ⟨xs, unit₂, hxs, h⟩ := Pass.run_bind_ok h
      cases h
      exact .cons hx (ih hxs)

end Compile

namespace Program

/-- A run in which `absent` tells what happens where a range variable has no value. -/
def runOr (absent : Slot → Eval Value) (p : Program) (extent : Extent) (c : DynamicContext)
    (item : Option Item) (d : Documents) : Except Failure (List Item) × Documents :=
  d.evaluate ((p.expr.meaningOr absent c).answer (p.frame c item) extent)

theorem runOr_eq {p : Program} {absent : Slot → Eval Value} {c : DynamicContext}
    (h : ∀ f, (p.expr.meaning c).Matches f (p.expr.meaningOr absent c).toWays f) (extent : Extent)
    (item : Option Item) (d : Documents) : p.runOr absent extent c item d = p.run extent c item d := by
  have hf := h (p.frame c item)
  unfold runOr run Meaning.answer
  cases extent with
  | all => simp only [hf.toList]
  | pushed => simp only [hf.push]
  | single => simp only [hf.item]
  | first n => simp only [hf.items]

/-- A program in which every variable is in the scope of its binder or is a parameter. No run of it asks for a
variable without a value, but for parameters that have not been set. -/
structure IsClosed (unit : CompileUnit) (p : Program) : Prop where
  expr : p.expr.IsClosed unit
  run : ∀ absent, (∀ q ∈ p.parameters, absent q.2 = raiseAbsent q.2) →
    ∀ extent c item d, p.runOr absent extent c item d = p.run extent c item d

theorem ofExpr_closes {e : Expr} {context : StaticContext} {unit unit' : CompileUnit} {p : Program}
    (he : IsPlaced unit e) (hneeds : ∀ s, e.needs s → unit.IsParameter s)
    (h : ofExpr e context unit = (.ok p, unit')) : p.IsClosed unit' := by
  unfold ofExpr at h
  cases hrun : (Compile.expr e).run context unit with
  | mk r unit₁ =>
    rw [hrun] at h
    cases r with
    | error e => cases h
    | ok x =>
      cases h
      have hclosed := Compile.expr_closes he hneeds hrun
      refine ⟨hclosed, fun absent habsent extent c item d => runOr_eq (hclosed.run absent ?_ c) extent item d⟩
      intro s hs
      obtain ⟨q, hq, rfl⟩ := CompileUnit.isParameter_iff_mem.1 hs
      exact habsent q hq

/-- In every text that can be read, be it an expression, a pattern or a template, a reference stands for the
innermost variable of its name that is in scope there, or else for the latest parameter of that name, or else
for the variable that the static context declares; and every binder has a slot of its own. In what is compiled
of it every reference is in the scope of its binder or to a parameter, and no run asks for a variable that has
no value but for such parameters. The name of a reference is the one that stands at its place in the text, and every
variable of the text is a reference of the tree at its place, or a binder if it is at the head of a clause. -/
theorem compile_lexical {context : StaticContext} {unit : CompileUnit} (hunit : unit.IsReady) :
    (∀ {text start terminator line e unit₁ warnings},
      Expr.parse text start terminator line context unit = (.ok e, unit₁, warnings) →
      IsRead context {(TokenStream.ofSource text.toList start line).lexemes} unit unit₁ [e] ∧
      IsComplete text start line unit₁.locations e terminator ∧
      ∀ {p unit₂}, ofExpr e context unit₁ = (.ok p, unit₂) → p.IsClosed unit₂) ∧
    (∀ {text p unit₁ warnings}, Pattern.parse text context unit = (.ok p, unit₁, warnings) →
      IsRead context {(TokenStream.ofSource text.toList 0 1).lexemes} unit unit₁
        (p.alternatives.map (·.expr)) ∧
      Covers unit₁.locations (TokenStream.ofSource text.toList 0 1).lexemes [] (p.alternatives.map (·.expr)) ∧
      ∀ {as unit₂}, (Compile.alternatives p.alternatives).run context unit₁ = (.ok as, unit₂) →
        ∀ a ∈ as, a.expr.IsClosed unit₂) ∧
    (∀ {text line t unit₁ warnings}, ValueTemplate.parse text line context unit = (.ok t, unit₁, warnings) →
      IsRead context (ValueTemplate.textsOf text) unit unit₁ t.exprs ∧
      (∀ {opening stop}, ValueTemplate.Encloses text ⟨0, line, 1⟩ text.toList opening stop →
        CoversTo unit₁.locations (TokenStream.ofSource text.toList opening.offset opening.line).lexemes stop
          t.exprs) ∧
      (∀ {p unit₂}, ofExpr t.toExpr context unit₁ = (.ok p, unit₂) → p.IsClosed unit₂) ∧
      ∀ {ps unit₂}, (Compile.templateParts t.parts).run context unit₁ = (.ok ps, unit₂) →
        ∀ e, .expr e ∈ ps → e.IsClosed unit₂) ∧
    ∀ {text : String} {start line locations at' n m},
      IsWritten context (TokenStream.ofSource text.toList start line).lexemes locations at' n →
      IsWritten context (TokenStream.ofSource text.toList start line).lexemes locations at' m → n = m := by
  refine ⟨fun hparse => ⟨parse_isRead hunit hparse, parse_isComplete hparse, fun hcompile => ?_⟩,
    fun hparse => ⟨Pattern.parse_isRead hunit hparse, Pattern.parse_covers hparse, fun hcompile => ?_⟩,
    fun {_ _ t _ _} hparse => ⟨ValueTemplate.parse_isRead hunit hparse, ValueTemplate.parse_covers hunit hparse,
      fun hcompile => ?_, fun hcompile e he => ?_⟩,
    fun hn hm => ?_⟩
  · have hread := parse_isRead hunit hparse
    exact ofExpr_closes (hread.isPlaced List.mem_cons_self)
      (fun s hs => hread.isParameter List.mem_cons_self hs) hcompile
  · have hread := Pattern.parse_isRead hunit hparse
    intro a ha
    have hclosed := (Compile.alternatives_inTurn hcompile).closes fun a ha =>
      ⟨hread.isPlaced ha, fun s hs => hread.isParameter ha hs⟩
    exact hclosed.2 _ (List.mem_map_of_mem ha)
  · have hread := ValueTemplate.parse_isRead hunit hparse
    have hneeds (s : Slot) := (t.toExpr_needs s).1
    refine ofExpr_closes (hread.isPlaced_of hneeds t.toExpr_boundSlots) (fun s hs => ?_) hcompile
    obtain ⟨a, ha, hs⟩ := hneeds s hs
    exact hread.isParameter ha hs
  · have hread := ValueTemplate.parse_isRead hunit hparse
    have hclosed := (Compile.templateParts_inTurn hcompile).closes fun a ha =>
      ⟨hread.isPlaced ha, fun s hs => hread.isParameter ha hs⟩
    exact hclosed.2 e (List.mem_filterMap.2 ⟨_, he, rfl⟩)
  · exact hn.unique (Lexer.ofSource_advancing _ _ _) hm

/-- A text that can be read and compiled, and what is read of it passes a test. -/
theorem exists_ok {α β : Type} (parsed : Except StaticError α × CompileUnit × List Warning)
    (compiled : α → CompileUnit → Except StaticError β × CompileUnit) (test : α → Bool)
    (h : parsed.1.toOption.any fun a => (compiled a parsed.2.1).1.toOption.isSome && test a) :
    ∃ a unit₁ warnings b unit₂, parsed = (.ok a, unit₁, warnings) ∧ compiled a unit₁ = (.ok b, unit₂) ∧ test a := by
  obtain ⟨r, unit₁, warnings⟩ := parsed
  cases r with
  | error e => cases h
  | ok a =>
    obtain ⟨hcompiled, htest⟩ := (Bool.and_eq_true _ _).mp h
    cases hcompile : compiled a unit₁ with
    | mk r unit₂ =>
      cases r with
      | error e =>
        dsimp only at hcompiled
        rw [hcompile] at hcompiled
        cases hcompiled
      | ok b => exact ⟨a, unit₁, warnings, b, unit₂, rfl, hcompile, htest⟩

/-- The variables that are referred to, in the order of the text, and those that are bound. -/
def hasSlots (referenced bound : List Slot) (es : List Expr) : Bool :=
  es.flatMap referencedSlots = referenced && es.flatMap boundSlots = bound

/-- An expression, a pattern and a template in which an inner variable hides an outer one. -/
theorem compile_lexical_hidden : let unit := (({} : CompileUnit).declareParameter (.unprefixed "p") none).2
    (∃ e unit₁ p unit₂, let text := "for $x in 1 to 3 return (let $x := $x + $p return $x), $p"
      IsRead {} {(TokenStream.ofSource text.toList 0 1).lexemes} unit unit₁ [e] ∧
      IsComplete text 0 1 unit₁.locations e .endOfInput ∧ hasSlots [1, 0, 2, 0] [1, 2] [e] ∧
      ofExpr e {} unit₁ = (.ok p, unit₂) ∧ p.IsClosed unit₂) ∧
    (∃ p : Pattern, ∃ unit₁ as unit₂, let text := "a[some $p in b satisfies $p = 1]"
      IsRead {} {(TokenStream.ofSource text.toList 0 1).lexemes} unit unit₁ (p.alternatives.map (·.expr)) ∧
      Covers unit₁.locations (TokenStream.ofSource text.toList 0 1).lexemes [] (p.alternatives.map (·.expr)) ∧
      hasSlots [1] [1] (p.alternatives.map (·.expr)) ∧
      (Compile.alternatives p.alternatives).run {} unit₁ = (.ok as, unit₂) ∧
      ∀ a ∈ as, a.expr.IsClosed unit₂) ∧
    ∃ t : ValueTemplate, ∃ unit₁ ps unit₂, let text := "\x7blet $p := 1 return $p\x7d, \x7b$p\x7d"
      IsRead {} (ValueTemplate.textsOf text) unit unit₁ t.exprs ∧
      CoversTo unit₁.locations (TokenStream.ofSource text.toList 26 1).lexemes 28 t.exprs ∧
      hasSlots [1, 0] [1] t.exprs ∧
      (Compile.templateParts t.parts).run {} unit₁ = (.ok ps, unit₂) ∧
      ∀ e, .expr e ∈ ps → e.IsClosed unit₂ := by
  intro unit
  have hunit : unit.IsReady := CompileUnit.isReady_empty.declareParameter _ _
  obtain ⟨hexpr, hpattern, htemplate, -⟩ := @compile_lexical {} unit hunit
  refine ⟨?_, ?_, ?_⟩
  · obtain ⟨e, unit₁, warnings, p, unit₂, hparse, hcompile, hslots⟩ := exists_ok
      (Expr.parse "for $x in 1 to 3 return (let $x := $x + $p return $x), $p" 0 .endOfInput 1 {} unit)
      (fun e => ofExpr e {}) (fun e => hasSlots [1, 0, 2, 0] [1, 2] [e]) (by decide +kernel)
    obtain ⟨hread, hcomplete, hclosed⟩ := hexpr hparse
    exact ⟨e, unit₁, p, unit₂, hread, hcomplete, hslots, hcompile, hclosed hcompile⟩
  · obtain ⟨p, unit₁, warnings, as, unit₂, hparse, hcompile, hslots⟩ := exists_ok
      (Pattern.parse "a[some $p in b satisfies $p = 1]" {} unit)
      (fun p => (Compile.alternatives p.alternatives).run {})
      (fun p => hasSlots [1] [1] (p.alternatives.map (·.expr))) (by decide +kernel)
    obtain ⟨hread, hcovers, hclosed⟩ := hpattern hparse
    exact ⟨p, unit₁, as, unit₂, hread, hcovers, hslots, hcompile, hclosed hcompile⟩
  · obtain ⟨t, unit₁, warnings, ps, unit₂, hparse, hcompile, hslots⟩ := exists_ok
      (ValueTemplate.parse "\x7blet $p := 1 return $p\x7d, \x7b$p\x7d" 1 {} unit)
      (fun t => (Compile.templateParts t.parts).run {}) (fun t => hasSlots [1, 0] [1] t.exprs) (by decide +kernel)
    obtain ⟨hread, hcovers, -, hclosed⟩ := htemplate hparse
    -- the second expression, after the first one and two characters
    have hfirst : Scan.scan "\x7blet $p := 1 return $p\x7d, \x7b$p\x7d" 1 .rightBrace 1 = .ok 22 := by decide +kernel
    have hencloses : ValueTemplate.Encloses "\x7blet $p := 1 return $p\x7d, \x7b$p\x7d" ⟨0, 1, 1⟩
        "\x7blet $p := 1 return $p\x7d, \x7b$p\x7d".toList ⟨26, 1, 27⟩ 28 :=
      .after (n := 22) (by decide) hfirst (by decide +kernel)
        (.literal (by decide) (.literal (by decide) (.here (by decide) (by decide +kernel) (by decide +kernel))))
    exact ⟨t, unit₁, ps, unit₂, hread, hcovers hencloses, hslots, hcompile, hclosed hcompile⟩

end Program
end XPath
