import XPath.Compile
import XPath.Proofs.Balance
import XPath.Proofs.Naming

/-!
Texts that can be read: expressions, which may stand inside a value template, and match patterns. What is
read of them is resolved, and the unit is left as it was found but for new variables. Every variable of the text
is read.
-/
namespace XPath
open XPath.Expr

namespace Parser
variable {α : Type} {c : ParseContext} {s s₀ : ParseState} {es : List Expr} {e : Expr} {p : Parser α}
  {g : α → List Expr}

/-! Match patterns. -/

theorem reads_patternPredicates (n : ℕ) (h : ReadsAll c s₀ [e] s) :
    Ensures c (patternPredicates n e) s fun r s' => ReadsAll c s₀ [r.1] s' := by
  induction n generalizing e s with
  | zero => exact fails_tooDeep.ensures
  | succ n ih =>
    refine h.look (looks_checkSymbol _) fun _ s₁ hs => .ite (fun _ => ?_) fun _ => .pure hs
    refine hs.look looks_fuel fun k s₂ hs => .bind (((IsReading.all k).predicate hs).imp fun e s₃ hs => ?_)
    refine .bind ((ih hs).imp fun r s₄ hs => ?_)
    obtain ⟨e, count⟩ := r
    exact .pure hs

theorem reads_stepPattern (n : ℕ) : ReadsAs (fun r => [r.1]) (stepPattern n) := by
  intro c s
  refine (ReadsAll.refl s).skip silent_location fun at' s₁ hs => hs.look looks_peek fun o s₂ hs => ?_
  refine hs.look (looks_checkNthSymbol _ _) fun b s₃ hs => ?_
  have hstep {s₄ : ParseState} (hs : ReadsAll c s [] s₄) : Ensures c (do
      let r ← axisAndTest nodeTest
      let x ← patternPredicates n (mkLeaf (.step r.1 r.2) at')
      return (x.1, if r.1 = .child ∨ r.1 = .attr then some (PatternShape.step r.1 r.2 x.2) else none)) s₄
      fun r s' => ReadsAll c s [r.1] s' := by
    refine hs.skip silent_axisAndTest fun r s₅ hs => ?_
    exact .bind ((reads_patternPredicates n (hs.made (.leaf (by simp)))).imp fun x s₆ hx => .pure hx)
  dsimp only
  split
  · exact .ite (fun _ => hstep hs) fun _ => hs.skip (fails_syntaxError _).reads fun _ s₄ hs => hstep hs
  · exact .ite (fun _ => hstep hs) fun _ => hs.skip (fails_expected _).reads fun _ s₄ hs => hstep hs

theorem reads_moreStepPatterns (n : ℕ) (more : Bool) (h : ReadsAll c s₀ [e] s) :
    Ensures c (moreStepPatterns n e more) s fun r s' => ReadsAll c s₀ [r.1] s' := by
  induction n generalizing e s more with
  | zero => exact fails_tooDeep.ensures
  | succ n ih =>
    refine h.skip silent_location fun at' s₁ hs => hs.skip (silent_eatSymbol (by decide)) fun _ s₂ hs => ?_
    refine .ite (fun _ => ?_) fun _ => hs.skip (silent_eatSymbol (by decide)) fun _ s₃ hs => ?_
    · refine hs.add (reads_stepPattern n) fun r s₃ hs => ?_
      obtain ⟨step, shape⟩ := r
      exact ih _ (hs.made (.binary _ rfl (.self e) (.self step)))
    · refine .ite (fun _ => ?_) fun _ => .pure hs
      refine hs.add (reads_stepPattern n) fun r s₄ hs => ?_
      obtain ⟨step, shape⟩ := r
      exact ih _ (hs.made (.binary _ rfl (.descendantOrSelf (.self e)) (.self step)))

theorem reads_pathFrom (n : ℕ) (anywhere : Bool) (at' : LocationId) (h : ReadsAll c s₀ es s)
    (he : e.IsMadeOf es) :
    Ensures c (pathFrom n e anywhere at') s fun a s' => ReadsAll c s₀ [a.expr] s' := by
  refine h.add (reads_stepPattern n) fun r s₁ hs => ?_
  obtain ⟨first, shape⟩ := r
  have hpath : (mkBinary .path e first at').IsMadeOf (es ++ [first]) := .binary _ rfl he (.self first)
  refine .bind ((reads_moreStepPatterns n false (hs.made hpath)).imp fun r s₂ hr => ?_)
  obtain ⟨e, more⟩ := r
  dsimp only
  split
  · exact .pure hr
  · exact .pure hr

theorem reads_rootedPattern (n : ℕ) (at' : LocationId) :
    ReadsAs (fun a => [a.expr]) (rootedPattern n at') := by
  intro c s
  refine (ReadsAll.refl s).look looks_fuel fun k s₁ hs => hs.add (IsReading.all k).primary fun call s₂ hs => ?_
  refine .bind ((reads_patternPredicates n hs).imp fun r s₃ hs => ?_)
  obtain ⟨rooted, count⟩ := r
  refine hs.look (looks_checkSymbol _) fun _ s₄ hs => hs.look (looks_checkSymbol _) fun _ s₅ hs => ?_
  refine .ite (fun _ => .pure hs) fun _ => hs.skip silent_location fun step s₆ hs => ?_
  refine hs.skip (silent_eatSymbol (by decide)) fun _ s₇ hs => .ite (fun _ => ?_) fun _ => ?_
  · exact reads_pathFrom n _ _ hs (.descendantOrSelf (.self rooted))
  · exact hs.skip (silent_expectSymbol (by decide)) fun _ s₈ hs => reads_pathFrom n _ _ hs (.self rooted)

theorem reads_pathPattern (n : ℕ) : ReadsAs (fun a => [a.expr]) (pathPattern n) := by
  intro c s
  refine (ReadsAll.refl s).skip silent_location fun at' s₁ hs => hs.skip (silent_eatSymbol (by decide)) fun _ s₂ hs => ?_
  have hcontext : (contextRoot at').IsMadeOf [] := .nary _ _ []
  have hdocument : (documentRoot at').IsMadeOf [] := .binary _ rfl hcontext (.leaf (by simp))
  refine .ite (fun _ => ?_) fun _ => hs.skip (silent_eatSymbol (by decide)) fun _ s₃ hs => .ite (fun _ => ?_) fun _ => ?_
  · refine .bind ((reads_patternPredicates n (hs.made (.leaf (by simp)))).imp fun r s₃ hr => ?_)
    obtain ⟨e, count⟩ := r
    exact .pure hr
  · refine hs.look looks_startsStep fun _ s₄ hs => .ite (fun _ => .pure (hs.made hdocument)) fun _ => ?_
    exact reads_pathFrom n _ _ hs hdocument
  · refine hs.skip (silent_eatSymbol (by decide)) fun _ s₄ hs => .ite (fun _ => ?_) fun _ => ?_
    · exact reads_pathFrom n _ _ hs (.descendantOrSelf hdocument)
    · refine hs.look (looks_checkName _) fun _ s₅ hs => hs.look (looks_checkName _) fun _ s₆ hs => ?_
      refine hs.look (looks_checkNthSymbol _ _) fun _ s₇ hs => .ite (fun _ => ?_) fun _ => ?_
      · exact hs.last (reads_rootedPattern n at')
      · exact reads_pathFrom n _ _ hs (.descendantOrSelf hcontext)

theorem reads_pattern (n : ℕ) : ReadsAs (fun as => as.map (·.expr)) (pattern n) := by
  induction n with
  | zero => exact fails_tooDeep.reads
  | succ n ih =>
    intro c s
    refine (ReadsAll.refl s).add (reads_pathPattern n) fun a s₁ hs => ?_
    have hmore (more : Bool) {s₂ : ParseState} (hs : ReadsAll c s [a.expr] s₂) :
        Ensures c (if more then do return a :: (← pattern n) else return [a]) s₂
          fun as s' => ReadsAll c s (as.map (·.expr)) s' :=
      .ite (fun _ => hs.add ih fun as s₃ hs => .pure hs) fun _ => .pure hs
    refine hs.skip (silent_eatSymbol (by decide)) fun _ s₂ hs => .ite (fun _ => ?_) fun _ => ?_
    · exact .bind (.pure (hmore _ hs))
    · exact hs.skip (silent_eatName _) fun more s₃ hs => hmore more hs

/-- What has been read of a text up to a terminator. -/
theorem ReadsAs.terminated {β : Type} {p : ℕ → Parser β} {f : β → α} (terminator : Terminator)
    (hp : ∀ n, ReadsAs (fun b => g (f b)) (p n)) :
    Ensures c (inScope do
        let b ← p (← fuel)
        expectTerminator terminator
        return f b) s fun a s' => ReadsAll c s (g a) s' ∧ (terminator = .endOfInput → s'.tokens.lexemes = []) := by
  refine .inScope (.imp (Q := fun a s' =>
    ReadsAll c s (g a) s' ∧ (terminator = .endOfInput → s'.tokens.lexemes = [])) ?_ fun a s' hs =>
      ⟨hs.1.restore, hs.2⟩)
  refine (ReadsAll.refl s).look looks_fuel fun n s₁ hs => hs.add (hp n) fun b s₂ hs => ?_
  cases terminator with
  | endOfInput =>
    refine .bind (ensures_expectEnd.imp fun _ s₃ hend => ?_)
    obtain ⟨rfl, hend⟩ := hend
    exact .pure ⟨hs, fun _ => hend⟩
  | rightBrace => exact hs.skip (silent_expectSymbol (by decide)) fun _ s₃ hs => .pure ⟨hs, nofun⟩

theorem Ensures.exists_of_run {Q : α → ParseState → Prop} {context : StaticContext} {kind : GrammarKind}
    {text : String} {start line : ℕ} {unit unit' : CompileUnit} {a : α} {warnings : List Warning}
    (hp : Ensures ⟨context, kind⟩ p ⟨.ofSource text.toList start line, unit, []⟩ Q)
    (h : p.run context kind text start line unit = (.ok a, unit', warnings)) :
    ∃ s' : ParseState, s'.unit = unit' ∧ Q a s' :=
  ⟨_, congrArg (·.2.1) h, hp.of_run (congrArg Prod.fst h)⟩

end Parser

namespace CompileUnit

/-- Between two texts the parameters are in scope, the latest first. -/
def IsReady (u : CompileUnit) : Prop := u.scope = (Program.parametersOf u).reverse

/-- The slot belongs to a variable that the host sets. -/
def IsParameter (u : CompileUnit) (s : Slot) : Prop := ∃ b, u.bindings[s]? = some b ∧ b.kind = .parameter

variable {u u' : CompileUnit}

theorem isParameter_iff_mem {s : Slot} : u.IsParameter s ↔ ∃ p ∈ Program.parametersOf u, p.2 = s := by
  constructor
  · rintro ⟨b, hb, hkind⟩
    rw [← Array.getElem?_toList] at hb
    refine ⟨(b.name, s), List.mem_filterMap.2 ⟨(b, s), List.mem_zipIdx_iff_getElem?.2 hb, ?_⟩, rfl⟩
    exact if_pos hkind
  · rintro ⟨p, h, rfl⟩
    obtain ⟨⟨b, s⟩, hb, hp⟩ := List.mem_filterMap.1 h
    have hget := List.mem_zipIdx_iff_getElem?.1 hb
    dsimp only at hp
    split at hp
    · next hkind =>
      cases hp
      exact ⟨b, by rwa [← Array.getElem?_toList], hkind⟩
    · cases hp

theorem IsParameter.lt {s : Slot} (h : u.IsParameter s) : s < u.bindings.size := by
  obtain ⟨b, hb, -⟩ := h
  exact (Array.getElem?_eq_some_iff.1 hb).1

theorem IsParameter.congr {s : Slot} (h : u.IsParameter s)
    (hu : Program.parametersOf u' = Program.parametersOf u) : u'.IsParameter s := by
  rw [isParameter_iff_mem] at h ⊢
  rwa [hu]

/-- New variables that are no parameters do not count. -/
theorem parametersOf_append {new : List Binding} (h : u'.bindings.toList = u.bindings.toList ++ new)
    (hnew : ∀ b ∈ new, b.kind ≠ .parameter) : Program.parametersOf u' = Program.parametersOf u := by
  unfold Program.parametersOf
  rw [h, List.zipIdx_append, List.filterMap_append, List.append_right_eq_self, List.filterMap_eq_nil_iff]
  rintro ⟨b, slot⟩ hb
  exact if_neg (hnew b (List.fst_mem_of_mem_zipIdx hb))

theorem isReady_empty : ({} : CompileUnit).IsReady := rfl

theorem IsReady.declareParameter (h : u.IsReady) (n : QName) (type : Option SequenceType) :
    (u.declareParameter n type).2.IsReady := by
  unfold IsReady Program.parametersOf CompileUnit.declareParameter
  dsimp only
  rw [Array.toList_push, List.zipIdx_append, List.filterMap_append, List.reverse_append]
  rw [IsReady, Program.parametersOf] at h
  simp [h]

end CompileUnit

/-- Expressions that have been read, each from one of the texts. Of two variables of one name the inner one
counts, the parameters are outside, and of those the latest counts. -/
structure IsRead (context : StaticContext) (texts : Set (List Lexeme)) (unit unit' : CompileUnit)
    (es : List Expr) : Prop where
  resolved : ∀ e ∈ es, ∃ text ∈ texts, e.Resolved (IsWritten context text unit'.locations)
    (fun n => (context.variableType n).isSome) (Program.parametersOf unit).reverse
  /-- Every binder has a slot of its own. -/
  wellBound : WellBound es
  fresh : ∀ s ∈ es.flatMap boundSlots, unit.bindings.size ≤ s ∧ s < unit'.bindings.size
  parameters : Program.parametersOf unit' = Program.parametersOf unit
  ready : unit'.IsReady
  locations : unit.locations.toList <+: unit'.locations.toList
  size : unit.bindings.size ≤ unit'.bindings.size

namespace IsRead
variable {context : StaticContext} {texts : Set (List Lexeme)} {unit unit₁ unit₂ unit' : CompileUnit}
  {es fs : List Expr} {e : Expr}

/-- What is used without being bound was a parameter before. -/
theorem wasParameter (h : IsRead context texts unit unit' es) (he : e ∈ es) {s : Slot} (hs : e.needs s) :
    unit.IsParameter s := by
  obtain ⟨text, -, hresolved⟩ := h.resolved e he
  obtain ⟨p, hp, hps⟩ := hresolved.mem_of_needs e hs
  exact CompileUnit.isParameter_iff_mem.2 ⟨p, List.mem_reverse.1 hp, hps⟩

theorem isParameter (h : IsRead context texts unit unit' es) (he : e ∈ es) {s : Slot} (hs : e.needs s) :
    unit'.IsParameter s :=
  (h.wasParameter he hs).congr h.parameters

theorem below (h : IsRead context texts unit unit' es) (he : e ∈ es) {s : Slot} (hs : e.Mentions s) :
    s < unit'.bindings.size :=
  hs.elim (fun hs => (h.isParameter he hs).lt) fun hs => (h.fresh s (List.mem_flatMap_of_mem he hs)).2

theorem empty (hunit : unit.IsReady) (hparameters : Program.parametersOf unit' = Program.parametersOf unit)
    (hscope : unit'.scope = unit.scope) (hlocations : unit.locations.toList <+: unit'.locations.toList)
    (hsize : unit.bindings.size ≤ unit'.bindings.size) : IsRead context texts unit unit' [] where
  resolved := by simp
  wellBound := ⟨by simp, by simp⟩
  fresh := by simp
  parameters := hparameters
  ready := by rw [CompileUnit.IsReady, hscope, hparameters]; exact hunit
  locations := hlocations
  size := hsize

theorem refl (hunit : unit.IsReady) : IsRead context texts unit unit [] :=
  empty hunit rfl rfl (List.prefix_refl _) le_rfl

/-- Reading on gives other slots, so what has been read before is not disturbed. -/
theorem append (h : IsRead context texts unit unit₁ es) (h' : IsRead context texts unit₁ unit₂ fs) :
    IsRead context texts unit unit₂ (es ++ fs) where
  resolved e he := by
    obtain he | he := List.mem_append.1 he
    · obtain ⟨text, htext, hresolved⟩ := h.resolved e he
      exact ⟨text, htext, hresolved.mono (fun _ _ hw => hw.mono (List.suffix_refl _) h'.locations) e⟩
    · rw [← h.parameters]
      exact h'.resolved e he
  wellBound := by
    constructor
    · intro e he s hs hmem
      rw [List.flatMap_append, List.mem_append] at hmem
      have hlt : s < unit.bindings.size := by
        obtain he | he := List.mem_append.1 he
        · exact (h.wasParameter he hs).lt
        · exact ((h'.wasParameter he hs).congr h.parameters.symm).lt
      obtain hmem | hmem := hmem
      · exact absurd ((h.fresh s hmem).1.trans_lt hlt) (lt_irrefl _)
      · exact absurd ((h.size.trans (h'.fresh s hmem).1).trans_lt hlt) (lt_irrefl _)
    · rw [List.flatMap_append]
      refine List.nodup_append.2 ⟨h.wellBound.once, h'.wellBound.once, fun s hs t ht hst => ?_⟩
      subst hst
      exact absurd ((h'.fresh s ht).1.trans_lt (h.fresh s hs).2) (lt_irrefl _)
  fresh s hs := by
    rw [List.flatMap_append, List.mem_append] at hs
    obtain hs | hs := hs
    · exact ⟨(h.fresh s hs).1, (h.fresh s hs).2.trans_le h'.size⟩
    · exact ⟨h.size.trans (h'.fresh s hs).1, (h'.fresh s hs).2⟩
  parameters := h'.parameters.trans h.parameters
  ready := h'.ready
  locations := h.locations.trans h'.locations
  size := h.size.trans h'.size

theorem mono {texts' : Set (List Lexeme)} (h : IsRead context texts unit unit' es) (ht : texts ⊆ texts') :
    IsRead context texts' unit unit' es :=
  { h with
    resolved := fun e he => (h.resolved e he).imp fun _ hx => ⟨ht hx.1, hx.2⟩ }

end IsRead

theorem Parser.Reads.isRead {context : StaticContext} {kind : GrammarKind} {tokens : TokenStream}
    {unit : CompileUnit} {s' : ParseState} {es : List Expr}
    (h : Reads ⟨context, kind⟩ ⟨tokens, unit, []⟩ es s') (hunit : unit.IsReady) :
    IsRead context {tokens.lexemes} unit s'.unit es := by
  obtain ⟨new, hnew, hrange⟩ := h.grows.bindings
  have hparameters : Program.parametersOf s'.unit = Program.parametersOf unit :=
    CompileUnit.parametersOf_append hnew fun b hb => by simp [hrange b hb]
  have hscope : unit.scope = (Program.parametersOf unit).reverse := hunit
  have hresolved (e : Expr) (he : e ∈ es) : e.Resolved (IsWritten context tokens.lexemes s'.unit.locations)
      (fun n => (context.variableType n).isSome) (Program.parametersOf unit).reverse := by
    rw [← hscope]
    exact h.names e he
  have hneeds (e : Expr) (he : e ∈ es) (s : Slot) (hs : e.needs s) : s < unit.bindings.size := by
    obtain ⟨p, hp, hps⟩ := (hresolved e he).mem_of_needs e hs
    exact (CompileUnit.isParameter_iff_mem.2 ⟨p, List.mem_reverse.1 hp, hps⟩).lt
  refine ⟨fun e he => ⟨_, rfl, hresolved e he⟩, ⟨fun e he s hs hmem => ?_, h.once⟩, h.fresh, hparameters, ?_,
    h.grows.locations, h.grows.size⟩
  · exact absurd ((h.fresh s hmem).1.trans_lt (hneeds e he s hs)) (lt_irrefl _)
  · rw [CompileUnit.IsReady, hparameters]
    exact h.closed.trans hscope

namespace Expr
variable {text : String} {start line : ℕ} {terminator : Terminator} {context : StaticContext}
  {unit unit' : CompileUnit} {e : Expr} {warnings : List Warning}

/-- Every variable of a text that begins before an offset is found in the expressions. -/
def CoversTo (locations : Array Location) (text : List Lexeme) (stop : ℕ) (es : List Expr) : Prop :=
  ∀ dollar after, dollar :: after <:+ text → dollar.place.offset < stop → dollar.token = .symbol .dollar →
    IsFound locations es dollar after

theorem CoversTo.mono {locations locations' : Array Location} {lexemes : List Lexeme} {stop : ℕ} {es fs : List Expr}
    (h : CoversTo locations lexemes stop es) (hes : es ⊆ fs) (hlocations : locations.toList <+: locations'.toList) :
    CoversTo locations' lexemes stop fs := by
  intro dollar after hsuffix hlt hdollar
  obtain ⟨e, he, x, hx, hlocation, hfound⟩ := h dollar after hsuffix hlt hdollar
  exact ⟨e, hes he, x, hx, getElem?_of_prefix hlocations hlocation, hfound⟩

/-- Of the tokens of a text those before one have smaller offsets. -/
theorem Covers.to {locations : Array Location} {read rest : List Lexeme} {brace : Lexeme} {es : List Expr}
    (h : Covers locations (read ++ brace :: rest) rest es)
    (htext : Lexer.Advancing ((read ++ brace :: rest).map (·.place))) :
    CoversTo locations (read ++ brace :: rest) brace.place.offset es := by
  intro dollar after hsuffix hlt hdollar
  refine h dollar after hsuffix ?_ hdollar
  obtain hle | hle := List.suffix_or_suffix_of_suffix hsuffix (List.suffix_append read (brace :: rest))
  · obtain heq | hle := List.suffix_cons_iff.1 hle
    · obtain ⟨rfl, -⟩ := List.cons.inj heq
      exact absurd hlt (lt_irrefl _)
    · rw [List.map_append] at htext
      have hafter := (List.pairwise_cons.1 (List.pairwise_append.1 htext).2.1).1 dollar.place
      exact absurd hlt (hafter (List.mem_map_of_mem (hle.subset List.mem_cons_self))).not_gt
  · obtain heq | hle := List.suffix_cons_iff.1 hle
    · obtain ⟨rfl, -⟩ := List.cons.inj heq
      exact absurd hlt (lt_irrefl _)
    · exact (List.suffix_cons brace rest).trans hle

theorem reads_reader {c : ParseContext} {s : ParseState} (terminator : Terminator) :
    Parser.Ensures c (reader terminator) s fun e s' =>
      Parser.ReadsAll c s [e] s' ∧ (terminator = .endOfInput → s'.tokens.lexemes = []) :=
  Parser.ReadsAs.terminated (f := id) (g := fun e => [e]) terminator fun n => (Parser.IsReading.all n).expr

/-- What can be read from a text. The same holds of what a value template encloses, which is read from its
place on. -/
theorem parse_isRead (hunit : unit.IsReady)
    (h : parse text start terminator line context unit = (.ok e, unit', warnings)) :
    IsRead context {(TokenStream.ofSource text.toList start line).lexemes} unit unit' [e] := by
  obtain ⟨s', rfl, hreads, -⟩ := (reads_reader terminator).exists_of_run h
  exact hreads.toReads.isRead hunit

/-- Every variable of an expression in a text is found in the tree. The expression goes to the end of the text, or
to the brace that the scanner finds. -/
def IsComplete (text : String) (start line : ℕ) (locations : Array Location) (e : Expr) : Terminator → Prop
  | .endOfInput => Covers locations (TokenStream.ofSource text.toList start line).lexemes [] [e]
  | .rightBrace => ∃ stop, Scan.scan text start .rightBrace line = .ok stop ∧
      CoversTo locations (TokenStream.ofSource text.toList start line).lexemes stop [e]

theorem parse_isComplete (h : parse text start terminator line context unit = (.ok e, unit', warnings)) :
    IsComplete text start line unit'.locations e terminator := by
  cases terminator with
  | endOfInput =>
    obtain ⟨s', rfl, hreads, hend⟩ := (reads_reader .endOfInput).exists_of_run h
    rw [IsComplete, ← hend rfl]
    exact hreads.covers
  | rightBrace =>
    obtain ⟨s', rfl, ⟨hreads, -⟩, read, brace, htokens, hbrace, hleads⟩ :=
      ((reads_reader .rightBrace).and (ensures_reader_brace _ _)).exists_of_run h
    have hadvancing := Lexer.ofSource_advancing text.toList start line
    have hcovers := hreads.covers
    dsimp only at htokens hcovers
    rw [htokens] at hadvancing hcovers
    refine ⟨brace.place.offset, ?_, htokens ▸ hcovers.to hadvancing⟩
    unfold Scan.scan
    dsimp only
    rw [htokens]
    exact Scan.walk_brace _ hleads hbrace

end Expr

namespace Pattern
variable {text : String} {context : StaticContext} {unit unit' : CompileUnit} {p : Pattern} {warnings : List Warning}

theorem parse_reads (h : parse text context unit = (.ok p, unit', warnings)) :
    ∃ s' : ParseState, s'.unit = unit' ∧
      Parser.ReadsAll ⟨context, .pattern⟩ ⟨.ofSource text.toList 0 1, unit, []⟩ (p.alternatives.map (·.expr)) s' ∧
      s'.tokens.lexemes = [] := by
  have hreads {c : ParseContext} {s : ParseState} := Parser.ReadsAs.terminated (c := c) (s := s) (f := Pattern.mk)
    (g := fun p => p.alternatives.map (·.expr)) .endOfInput Parser.reads_pattern
  unfold parse at h
  obtain ⟨s', hunit, hreads, hend⟩ := hreads.exists_of_run h
  exact ⟨s', hunit, hreads, hend rfl⟩

theorem parse_isRead (hunit : unit.IsReady) (h : parse text context unit = (.ok p, unit', warnings)) :
    IsRead context {(TokenStream.ofSource text.toList 0 1).lexemes} unit unit'
      (p.alternatives.map (·.expr)) := by
  obtain ⟨s', rfl, hreads, -⟩ := parse_reads h
  exact hreads.toReads.isRead hunit

theorem parse_covers (h : parse text context unit = (.ok p, unit', warnings)) :
    Covers unit'.locations (TokenStream.ofSource text.toList 0 1).lexemes [] (p.alternatives.map (·.expr)) := by
  obtain ⟨s', rfl, hreads, hend⟩ := parse_reads h
  exact hend ▸ hreads.covers

end Pattern

/-! Value templates. -/

def TemplatePart.expr? : TemplatePart → Option Expr
  | .text _ => none
  | .expr e => some e

namespace ValueTemplate

/-- The enclosed expressions. -/
def exprs (t : ValueTemplate) : List Expr := t.parts.filterMap (·.expr?)

/-- The texts in a template, each of which goes from a place to the end. -/
def textsOf (source : String) : Set (List Lexeme) :=
  Set.range fun place : ℕ × ℕ => (TokenStream.ofSource source.toList place.1 place.2).lexemes

theorem textPart_exprs (literal : List Char) : (textPart literal).filterMap (·.expr?) = [] := by
  unfold textPart
  split <;> rfl

variable {source : String} {context : StaticContext} {place : Place} {literal rest cs : List Char}
  {s s' : State} {parts : List TemplatePart} {n : ℕ}

/-- An expression in a template goes to the brace that the scanner finds. A blank one gives no part. -/
theorem exists_of_enclosed (h : enclosed source place cs context s = (.ok (parts, n), s')) :
    ∃ stop, Scan.scan source place.offset .rightBrace place.line = .ok stop ∧
      n = (Place.splitAtOffset (stop - place.offset) cs).1.length + 1 ∧
      if (Blank.trim (Place.splitAtOffset (stop - place.offset) cs).1).isEmpty then parts = [] ∧ s' = s
      else ∃ e unit warnings,
        Expr.parse source place.offset .rightBrace place.line context s.unit = (.ok e, unit, warnings) ∧
          parts = [.expr e] ∧ s'.unit = unit.restore s.unit.scope.length := by
  unfold enclosed at h
  split at h
  · cases h
  · next stop hstop =>
    refine ⟨stop, hstop, ?_⟩
    dsimp only at h
    split at h
    · next hblank =>
      cases h
      exact ⟨rfl, by rw [if_pos hblank]; exact ⟨rfl, rfl⟩⟩
    · next hfilled =>
      rw [if_neg hfilled]
      generalize Expr.parse source place.offset .rightBrace place.line context s.unit = r at h ⊢
      obtain ⟨r, unit, warnings⟩ := r
      cases r with
      | error e => cases h
      | ok e =>
        cases h
        exact ⟨rfl, e, unit, warnings, rfl, rfl, rfl⟩

theorem enclosed_isRead (hs : s.unit.IsReady)
    (h : enclosed source place cs context s = (.ok (parts, n), s')) :
    IsRead context (textsOf source) s.unit s'.unit (parts.filterMap (·.expr?)) := by
  obtain ⟨stop, -, -, h⟩ := exists_of_enclosed h
  split at h
  · obtain ⟨rfl, rfl⟩ := h
    exact .refl hs
  · obtain ⟨e, unit, warnings, hparse, rfl, hunit⟩ := h
    have hread := Expr.parse_isRead hs hparse
    have hscope : unit.scope = s.unit.scope := by rw [hread.ready, hread.parameters, ← hs]
    rw [hunit, CompileUnit.restore_of_scope_eq hscope]
    exact hread.mono (Set.singleton_subset_iff.2 ⟨(place.offset, place.line), rfl⟩)

theorem read_isRead (hs : s.unit.IsReady)
    (h : read source context place literal rest s = (.ok parts, s')) :
    IsRead context (textsOf source) s.unit s'.unit (parts.filterMap (·.expr?)) := by
  induction place, literal, rest, s using read.induct source context generalizing parts s' with
  | case1 place literal s =>
    rw [read] at h
    cases h
    rw [textPart_exprs]
    exact .refl hs
  | case2 place literal c cs s hbrace htwice ih =>
    rw [read, if_pos hbrace, if_pos htwice] at h
    exact ih hs h
  | case3 place literal cs s hbrace hlone =>
    rw [read, if_pos hbrace, if_neg hlone, if_pos rfl] at h
    cases h
  | case4 place literal c cs s hbrace hlone hopen e s₁ henclosed =>
    rw [read, if_pos hbrace, if_neg hlone, if_neg hopen, henclosed] at h
    cases h
  | case5 place literal c cs s hbrace hlone hopen ps n s₁ henclosed r s₂ hmore ih =>
    rw [read, if_pos hbrace, if_neg hlone, if_neg hopen, henclosed] at h
    dsimp only at h
    rw [hmore] at h
    cases r with
    | error e => cases h
    | ok more =>
      cases h
      have hps := enclosed_isRead hs henclosed
      rw [List.filterMap_append, List.filterMap_append, textPart_exprs, List.nil_append]
      exact hps.append (ih hps.ready hmore)
  | case6 place literal c cs s hbrace ih =>
    rw [read, if_neg hbrace] at h
    exact ih hs h

/-- In the rest of a template that is left at a place, an expression that is not blank begins at another place,
and its brace is at an offset. -/
inductive Encloses (source : String) : Place → List Char → Place → ℕ → Prop
  | here {place : Place} {cs : List Char} {stop : ℕ} (alone : cs.head? ≠ some '\x7b')
    (ends : Scan.scan source (place.advance '\x7b').offset .rightBrace (place.advance '\x7b').line = .ok stop)
    (filled : (Blank.trim (Place.splitAtOffset (stop - (place.advance '\x7b').offset) cs).1).isEmpty = false) :
    Encloses source place ('\x7b' :: cs) (place.advance '\x7b') stop
  | after {place opening : Place} {cs : List Char} {stop stop' : ℕ} (alone : cs.head? ≠ some '\x7b')
    (ends : Scan.scan source (place.advance '\x7b').offset .rightBrace (place.advance '\x7b').line = .ok stop')
    {n : ℕ} (size : n = (Place.splitAtOffset (stop' - (place.advance '\x7b').offset) cs).1.length + 1)
    (later : Encloses source ((place.advance '\x7b').after (cs.take n)) (cs.drop n) opening stop) :
    Encloses source place ('\x7b' :: cs) opening stop
  | doubled {place opening : Place} {c : Char} {cs : List Char} {stop : ℕ} (brace : c = '\x7b' ∨ c = '\x7d')
    (twice : cs.head? = some c)
    (later : Encloses source ((place.advance c).advance c) (cs.drop 1) opening stop) :
    Encloses source place (c :: cs) opening stop
  | literal {place opening : Place} {c : Char} {cs : List Char} {stop : ℕ} (other : ¬ (c = '\x7b' ∨ c = '\x7d'))
    (later : Encloses source (place.advance c) cs opening stop) : Encloses source place (c :: cs) opening stop

/-- At a single brace an expression is read, and then the rest. -/
theorem exists_of_read_brace (alone : cs.head? ≠ some '\x7b')
    (h : read source context place literal ('\x7b' :: cs) s = (.ok parts, s')) :
    ∃ ps n s₁ more, enclosed source (place.advance '\x7b') cs context s = (.ok (ps, n), s₁) ∧
      read source context ((place.advance '\x7b').after (cs.take n)) [] (cs.drop n) s₁ = (.ok more, s') ∧
      parts = textPart literal ++ ps ++ more := by
  rw [read, if_pos (.inl rfl), if_neg alone, if_neg (by decide)] at h
  generalize henclosed : enclosed source (place.advance '\x7b') cs context s = r at h
  obtain ⟨r, s₁⟩ := r
  cases r with
  | error e => cases h
  | ok p =>
    obtain ⟨ps, n⟩ := p
    generalize hmore : read source context ((place.advance '\x7b').after (cs.take n)) [] (cs.drop n) s₁ = r at h
    obtain ⟨r, s₂⟩ := r
    dsimp only at h
    rw [hmore] at h
    cases r with
    | error e => cases h
    | ok more =>
      cases h
      exact ⟨ps, n, s₁, more, rfl, hmore, rfl⟩

theorem enclosed_covers {stop : ℕ} (ends : Scan.scan source place.offset .rightBrace place.line = .ok stop)
    (filled : (Blank.trim (Place.splitAtOffset (stop - place.offset) cs).1).isEmpty = false)
    (h : enclosed source place cs context s = (.ok (parts, n), s')) :
    CoversTo s'.unit.locations (TokenStream.ofSource source.toList place.offset place.line).lexemes stop
      (parts.filterMap (·.expr?)) := by
  obtain ⟨stop', hstop, -, h⟩ := exists_of_enclosed h
  obtain rfl : stop = stop' := Except.ok.inj (ends.symm.trans hstop)
  rw [if_neg (by simp [filled])] at h
  obtain ⟨e, unit, warnings, hparse, rfl, hunit⟩ := h
  obtain ⟨stop', hstop, hcovers⟩ := Expr.parse_isComplete hparse
  obtain rfl : stop = stop' := Except.ok.inj (ends.symm.trans hstop)
  rw [hunit]
  exact hcovers

/-- Of each expression in a template, every variable is found in the parts. -/
theorem read_covers (hs : s.unit.IsReady) (h : read source context place literal rest s = (.ok parts, s'))
    {opening : Place} {stop : ℕ} (hencloses : Encloses source place rest opening stop) :
    CoversTo s'.unit.locations (TokenStream.ofSource source.toList opening.offset opening.line).lexemes stop
      (parts.filterMap (·.expr?)) := by
  induction hencloses generalizing literal s parts with
  | here alone ends filled =>
    obtain ⟨ps, n, s₁, more, henclosed, hmore, rfl⟩ := exists_of_read_brace alone h
    have hlocations := (read_isRead (enclosed_isRead hs henclosed).ready hmore).locations
    refine (enclosed_covers ends filled henclosed).mono (fun e he => ?_) hlocations
    rw [List.filterMap_append, List.filterMap_append]
    exact List.mem_append_left _ (List.mem_append_right _ he)
  | after alone ends size later ih =>
    obtain ⟨ps, n, s₁, more, henclosed, hmore, rfl⟩ := exists_of_read_brace alone h
    obtain ⟨stop', hstop, hn, -⟩ := exists_of_enclosed henclosed
    obtain rfl := Except.ok.inj (ends.symm.trans hstop)
    obtain rfl := size.trans hn.symm
    refine (ih (enclosed_isRead hs henclosed).ready hmore).mono (fun e he => ?_) List.prefix_rfl
    rw [List.filterMap_append]
    exact List.mem_append_right _ he
  | doubled brace twice later ih =>
    rw [read, if_pos brace, if_pos twice] at h
    exact ih hs h
  | literal other later ih =>
    rw [read, if_neg other] at h
    exact ih hs h

variable {line : ℕ} {unit unit' : CompileUnit} {t : ValueTemplate} {warnings : List Warning}

theorem exists_of_parse (hunit : unit.IsReady) (h : parse source line context unit = (.ok t, unit', warnings)) :
    ∃ s s' : State, IsRead context (textsOf source) unit s.unit [] ∧ s'.unit = unit' ∧
      read source context ⟨0, line, 1⟩ [] source.toList s = (.ok t.parts, s') := by
  unfold parse at h
  dsimp only at h
  cases hread : read source context ⟨0, line, 1⟩ [] source.toList
      ⟨(unit.allocateLocation ⟨line, 1, 0, source.utf8ByteSize⟩).2, []⟩ with
  | mk r s =>
    rw [hread] at h
    cases r with
    | error e => cases h
    | ok parts =>
      cases h
      obtain ⟨hkept, hbindings, hscope, -⟩ :=
        Parser.allocateLocation_spec unit ⟨line, 1, 0, source.utf8ByteSize⟩
      exact ⟨_, s, .empty hunit (by simp only [Program.parametersOf, hbindings]) hscope hkept (by rw [hbindings]),
        rfl, hread⟩

/-- What is enclosed in a template is read in turn, so its variables are not those of another part. -/
theorem parse_isRead (hunit : unit.IsReady) (h : parse source line context unit = (.ok t, unit', warnings)) :
    IsRead context (textsOf source) unit unit' t.exprs := by
  obtain ⟨s, s', hlocated, rfl, hread⟩ := exists_of_parse hunit h
  exact hlocated.append (read_isRead hlocated.ready hread)

theorem parse_covers (hunit : unit.IsReady) (h : parse source line context unit = (.ok t, unit', warnings))
    {opening : Place} {stop : ℕ} (hencloses : Encloses source ⟨0, line, 1⟩ source.toList opening stop) :
    CoversTo unit'.locations (TokenStream.ofSource source.toList opening.offset opening.line).lexemes stop
      t.exprs := by
  obtain ⟨s, s', hlocated, rfl, hread⟩ := exists_of_parse hunit h
  exact read_covers hlocated.ready hread hencloses

theorem partExpr_needs (at' : LocationId) (part : TemplatePart) (slot : Slot) :
    (partExpr at' part).needs slot ↔ ∃ e ∈ part.expr?, e.needs slot := by
  cases part with
  | text s => simp [partExpr, constantAt, mkLeaf, needs, TemplatePart.expr?]
  | expr e => simp [partExpr, callAt, mkNary, constantAt, mkLeaf, needs, needsList, TemplatePart.expr?]

theorem partExpr_boundSlots (at' : LocationId) (part : TemplatePart) :
    (partExpr at' part).boundSlots = part.expr?.toList.flatMap boundSlots := by
  cases part with
  | text s => rfl
  | expr e =>
    have hleaf (n : Note) (c : Constant) : (leaf n (.literal [c])).boundSlots = [] := rfl
    simp [partExpr, callAt, mkNary, constantAt, mkLeaf, boundSlots_nary, hleaf, TemplatePart.expr?]

/-- A template as one expression uses what its parts use, -/
theorem toExpr_needs (t : ValueTemplate) (slot : Slot) :
    t.toExpr.needs slot ↔ ∃ e ∈ t.exprs, e.needs slot := by
  have hparts : t.toExpr.needs slot ↔ ∃ a ∈ t.parts.map (partExpr t.location), a.needs slot := by
    unfold toExpr
    split
    · next h => simp [h, constantAt, mkLeaf, needs]
    · next h => simp [h]
    · rw [callAt, mkNary, needs, needsList_iff]
  rw [hparts]
  simp only [List.mem_map, exprs, List.mem_filterMap]
  constructor
  · rintro ⟨_, ⟨part, hpart, rfl⟩, h⟩
    obtain ⟨e, he, h⟩ := (partExpr_needs _ part slot).1 h
    exact ⟨e, ⟨part, hpart, he⟩, h⟩
  · rintro ⟨e, ⟨part, hpart, he⟩, h⟩
    exact ⟨_, ⟨part, hpart, rfl⟩, (partExpr_needs _ part slot).2 ⟨e, he, h⟩⟩

/-- and binds what they bind. -/
theorem toExpr_boundSlots (t : ValueTemplate) : t.toExpr.boundSlots = t.exprs.flatMap boundSlots := by
  have hparts : t.toExpr.boundSlots = (t.parts.map (partExpr t.location)).flatMap boundSlots := by
    unfold toExpr
    split
    · next h =>
      rw [h]
      rfl
    · next h => rw [h, List.flatMap_singleton]
    · rw [callAt, mkNary, boundSlots_nary]
  rw [hparts, exprs, List.filterMap_eq_flatMap_toList, List.flatMap_map, List.flatMap_assoc]
  simp only [partExpr_boundSlots]

end ValueTemplate
end XPath
