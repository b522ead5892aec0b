import XPath.Grammar.Expression
import XPath.Proofs.Scope

/-!
Which variable a reference stands for. Names are looked up from the inside: the innermost binder of a name
that has the reference in its scope hides all others of that name. The names themselves are read off the
text, at the places that the tree records; and all that the text names is in the tree.
-/
namespace XPath

namespace Token

/-- The name that a variable has there. Variables have no default namespace. -/
def variableName? (ns : Namespaces) : Token → Option QName
  | name s => some (.unprefixed s)
  | prefixedName p s => (ns.lookup p).map fun uri => ⟨⟨s, some uri⟩, some p⟩
  | uriName u s => some (.uriQualified u s)
  | _ => none

end Token

namespace Lexeme

def location (l : Lexeme) : Location := ⟨l.place.line, l.place.column, l.place.offset, l.stop⟩

end Lexeme

namespace Place

theorem offset_after (p : Place) (cs : List Char) : (p.after cs).offset = p.offset + String.utf8Len cs := by
  induction cs generalizing p with
  | nil => rfl
  | cons c cs ih =>
    have hadvance : (p.advance c).offset = p.offset + c.utf8Size := by
      unfold advance
      split <;> rfl
    rw [after, List.foldl_cons, ← after, ih, hadvance, String.utf8Len_cons, add_assoc, add_comm c.utf8Size]

theorem offset_start (before : List Char) (line : ℕ) : (start before line).offset = String.utf8Len before := by
  change ((Place.mk 0 1 1).after before).offset = _
  rw [offset_after, zero_add]

end Place

theorem utf8Len_pos {cs : List Char} (h : cs ≠ []) : 0 < String.utf8Len cs := by
  obtain ⟨c, cs, rfl⟩ := List.exists_cons_of_ne_nil h
  rw [String.utf8Len_cons]
  exact Nat.add_pos_right _ c.utf8Size_pos

namespace Lexer

/-- Tokens of which each begins after the one before. -/
def Advancing (places : List Place) : Prop := places.Pairwise fun p q => p.offset < q.offset

theorem rawLexemes_advancing (place : Place) (cs : List Char) :
    (∀ r ∈ rawLexemes place cs, place.offset ≤ r.place.offset) ∧
      Advancing ((rawLexemes place cs).map (·.place)) := by
  fun_induction rawLexemes place cs with
  | case1 place => exact ⟨by simp, .nil⟩
  | case2 place c cs raw n hraw text ih =>
    have hafter : place.offset < (place.after text).offset := by
      rw [Place.offset_after]
      exact Nat.lt_add_of_pos_right (utf8Len_pos (List.cons_ne_nil _ _))
    refine ⟨fun r hr => ?_, List.pairwise_cons.2 ⟨fun p hp => ?_, ih.2⟩⟩
    · obtain rfl | hr := List.mem_cons.1 hr
      · exact Nat.le_refl _
      · exact hafter.le.trans (ih.1 r hr)
    · obtain ⟨r, hr, rfl⟩ := List.mem_map.1 hp
      exact hafter.trans_le (ih.1 r hr)

theorem joinNames_places (rs : List RawLexeme) :
    ((joinNames rs).map (·.place)).Sublist (rs.map (·.place)) := by
  fun_induction joinNames rs <;> grind

theorem delimit_places (o : Option OpenComment) (rs : List RawLexeme) :
    ((delimit o rs).map (·.place)).Sublist (o.toList.map (·.place) ++ rs.map (·.place)) := by
  fun_induction delimit o rs <;> grind

theorem ofSource_advancing (source : List Char) (start line : ℕ) :
    Advancing ((TokenStream.ofSource source start line).lexemes.map (·.place)) :=
  ((rawLexemes_advancing _ _).2.sublist (joinNames_places _)).sublist (delimit_places none _)

end Lexer

/-- A text begins with a dollar sign and a name. -/
def BeginsVariable (ns : Namespaces) (text : List Lexeme) (l : Location) (n : QName) : Prop :=
  ∃ dollar name rest, text = dollar :: name :: rest ∧ dollar.token = .symbol .dollar ∧
    dollar.location = l ∧ name.token.variableName? ns = some n

/-- A text begins with the head of a clause: a variable, and what stands between it and its source. -/
def BeginsClause (text : List Lexeme) : Prop :=
  ∃ dollar name sign rest, text = dollar :: name :: sign :: rest ∧ dollar.token = .symbol .dollar ∧
    name.token.isQName ∧ (sign.token = .name "as" ∨ sign.token = .name "in" ∨ sign.token = .symbol .colonEqual)

/-- At that location of a text stands a dollar sign, and the name after it. -/
def IsWritten (context : StaticContext) (text : List Lexeme) (locations : Array Location)
    (at' : LocationId) (n : QName) : Prop :=
  ∃ rest l, rest <:+ text ∧ locations[at']? = some l ∧ BeginsVariable context.namespaces rest l n

/-- What has been recorded stays where it is. -/
theorem getElem?_of_prefix {locations locations' : Array Location} (h : locations.toList <+: locations'.toList)
    {at' : LocationId} {l : Location} (hl : locations[at']? = some l) : locations'[at']? = some l := by
  obtain ⟨more, hmore⟩ := h
  rw [← Array.getElem?_toList] at hl ⊢
  rw [← hmore, List.getElem?_append_left (List.getElem?_eq_some_iff.1 hl).1, hl]

theorem IsWritten.mono {context : StaticContext} {text text' : List Lexeme}
    {locations locations' : Array Location} {at' : LocationId} {n : QName}
    (h : IsWritten context text locations at' n) (ht : text <:+ text')
    (hl : locations.toList <+: locations'.toList) : IsWritten context text' locations' at' n := by
  obtain ⟨rest, l, hrest, hget, hbegins⟩ := h
  exact ⟨rest, l, hrest.trans ht, getElem?_of_prefix hl hget, hbegins⟩

/-- A location belongs to one token, so only one name is written there. -/
theorem IsWritten.unique {context : StaticContext} {text : List Lexeme} {locations : Array Location}
    {at' : LocationId} {n m : QName} (htext : Lexer.Advancing (text.map (·.place)))
    (hn : IsWritten context text locations at' n) (hm : IsWritten context text locations at' m) : n = m := by
  obtain ⟨r, l, hr, hl, dollar, name, after, rfl, -, hdollar, hname⟩ := hn
  obtain ⟨r', l', hr', hl', dollar', name', after', rfl, -, hdollar', hname'⟩ := hm
  obtain rfl : l = l' := Option.some.inj (hl.symm.trans hl')
  have hoffset : dollar.place.offset = dollar'.place.offset :=
    congrArg Location.start (hdollar.trans hdollar'.symm)
  -- of two places in a text, one comes first
  have hsame {x y : Lexeme} {xs ys : List Lexeme} (hx : x :: xs <:+ y :: ys) (hy : y :: ys <:+ text)
      (hxy : x.place.offset = y.place.offset) : xs = ys := by
    obtain ⟨before, hbefore⟩ := hx
    cases before with
    | nil => exact (List.cons.inj hbefore).2
    | cons z before =>
      obtain ⟨rfl, rfl⟩ := List.cons.inj hbefore
      have := List.pairwise_cons.1 (htext.sublist (hy.sublist.map _))
      have := this.1 x.place (by simp)
      omega
  have hrest : name :: after = name' :: after' := by
    obtain h | h := List.suffix_or_suffix_of_suffix hr hr'
    · exact hsame h hr' hoffset
    · exact (hsame h hr hoffset.symm).symm
  obtain ⟨rfl, -⟩ := List.cons.inj hrest
  exact Option.some.inj (hname.symm.trans hname')

namespace Scope

/-- The innermost variable of a name is in the slot. -/
def Resolves (scope : Scope) (n : QName) (slot : Slot) : Prop :=
  ∃ inner m outer, scope = inner ++ (m, slot) :: outer ∧ m.toName = n.toName ∧
    ∀ p ∈ inner, p.1.toName ≠ n.toName

/-- There is no variable of that name. -/
def Lacks (scope : Scope) (n : QName) : Prop := ∀ p ∈ scope, p.1.toName ≠ n.toName

theorem Resolves.mem {scope : Scope} {n : QName} {slot : Slot} (h : scope.Resolves n slot) :
    ∃ p ∈ scope, p.2 = slot := by
  obtain ⟨inner, m, outer, rfl, -, -⟩ := h
  exact ⟨(m, slot), List.mem_append_right _ List.mem_cons_self, rfl⟩

end Scope

namespace CompileUnit

theorem resolves_of_lookup {u : CompileUnit} {n : QName} {slot : Slot} (h : u.lookup n = some slot) :
    u.scope.Resolves n slot := by
  obtain ⟨⟨m, t⟩, hfind, rfl⟩ := Option.map_eq_some_iff.1 h
  obtain ⟨hname, inner, outer, hscope, hinner⟩ := List.find?_eq_some_iff_append.1 hfind
  refine ⟨inner, m, outer, hscope, eq_of_beq hname, fun p hp heq => ?_⟩
  have := hinner p hp
  simp [heq] at this

theorem lacks_of_lookup {u : CompileUnit} {n : QName} (h : u.lookup n = none) : u.scope.Lacks n := by
  intro p hp heq
  have := List.find?_eq_none.1 (Option.map_eq_none_iff.1 h) p hp
  simp [heq] at this

end CompileUnit

namespace Expr

mutual

/-- Every reference stands for the innermost variable of its name, or if there is none for the global one.
The names at the places that the tree records are given. -/
def Resolved (written : LocationId → QName → Prop) (globals : QName → Prop) (scope : Scope) : Expr → Prop
  | leaf n (.variable (.range slot)) => ∃ name, written n.location name ∧ scope.Resolves name slot
  | leaf n (.variable (.global name)) => written n.location name ∧ scope.Lacks name ∧ globals name
  | leaf .. => True
  | unary _ _ a => a.Resolved written globals scope
  | binary n op a b => a.Resolved written globals scope ∧ match op.slot? with
    | some slot => ∃ name, written n.location name ∧ b.Resolved written globals ((name, slot) :: scope)
    | none => b.Resolved written globals scope
  | ternary _ _ a b d =>
    a.Resolved written globals scope ∧ b.Resolved written globals scope ∧ d.Resolved written globals scope
  | nary _ _ args => ResolvedList written globals scope args

def ResolvedList (written : LocationId → QName → Prop) (globals : QName → Prop) (scope : Scope) :
    List Expr → Prop
  | [] => True
  | e :: es => e.Resolved written globals scope ∧ ResolvedList written globals scope es

end

variable {written written' : LocationId → QName → Prop} {globals : QName → Prop} {scope : Scope}

theorem resolvedList_iff {es : List Expr} :
    ResolvedList written globals scope es ↔ ∀ e ∈ es, e.Resolved written globals scope := by
  induction es with
  | nil => simp [ResolvedList]
  | cons e es ih => simp [ResolvedList, ih]

theorem Resolved.mono (hw : ∀ at' n, written at' n → written' at' n) (e : Expr) {scope : Scope}
    (h : e.Resolved written globals scope) : e.Resolved written' globals scope := by
  match e with
  | leaf n op =>
    cases op with
    | «variable» r =>
      cases r with
      | range slot =>
        obtain ⟨name, hname, hslot⟩ := h
        exact ⟨name, hw _ _ hname, hslot⟩
      | global name => exact ⟨hw _ _ h.1, h.2⟩
    | _ => trivial
  | unary n op a =>
    rw [Resolved] at h ⊢
    exact Resolved.mono hw a h
  | binary n op a b =>
    rw [Resolved] at h ⊢
    refine ⟨Resolved.mono hw a h.1, ?_⟩
    have hb := h.2
    cases hslot : op.slot? with
    | none =>
      rw [hslot] at hb
      exact Resolved.mono hw b hb
    | some slot =>
      rw [hslot] at hb
      obtain ⟨name, hname, hb⟩ := hb
      exact ⟨name, hw _ _ hname, Resolved.mono hw b hb⟩
  | ternary n op a b d =>
    rw [Resolved] at h ⊢
    exact ⟨Resolved.mono hw a h.1, Resolved.mono hw b h.2.1, Resolved.mono hw d h.2.2⟩
  | nary n op args =>
    rw [Resolved, resolvedList_iff] at h ⊢
    exact fun e he => Resolved.mono hw e (h e he)

/-- What a resolved expression uses from outside is in scope. -/
theorem Resolved.mem_of_needs (e : Expr) {scope : Scope} (h : e.Resolved written globals scope) {s : Slot}
    (hs : e.needs s) : ∃ p ∈ scope, p.2 = s := by
  match e with
  | leaf n op =>
    cases op with
    | «variable» r =>
      cases r with
      | range slot =>
        obtain ⟨name, -, hslot⟩ := h
        obtain rfl : slot = s := eq_of_beq hs
        exact hslot.mem
      | global name => cases hs
    | _ => cases hs
  | unary n op a =>
    rw [Resolved] at h
    rw [needs] at hs
    exact Resolved.mem_of_needs a h hs
  | binary n op a b =>
    rw [Resolved] at h
    rw [needs, Bool.or_eq_true, Bool.and_eq_true, bne_iff_ne] at hs
    obtain hs | ⟨hs, hne⟩ := hs
    · exact Resolved.mem_of_needs a h.1 hs
    · have hb := h.2
      cases hslot : op.slot? with
      | none =>
        rw [hslot] at hb
        exact Resolved.mem_of_needs b hb hs
      | some slot =>
        rw [hslot] at hb
        obtain ⟨name, -, hb⟩ := hb
        obtain ⟨p, hp, rfl⟩ := Resolved.mem_of_needs b hb hs
        obtain rfl | hp := List.mem_cons.1 hp
        · exact absurd hslot hne
        · exact ⟨p, hp, rfl⟩
  | ternary n op a b d =>
    rw [Resolved] at h
    rw [needs, Bool.or_eq_true, Bool.or_eq_true] at hs
    obtain (hs | hs) | hs := hs
    · exact Resolved.mem_of_needs a h.1 hs
    · exact Resolved.mem_of_needs b h.2.1 hs
    · exact Resolved.mem_of_needs d h.2.2 hs
  | nary n op args =>
    rw [Resolved, resolvedList_iff] at h
    rw [needs] at hs
    obtain ⟨a, ha, hs⟩ := needsList_iff.1 hs
    exact Resolved.mem_of_needs a (h a ha) hs

/-! Which variables of a text are in a tree. -/

/-- A reference to a variable. -/
def IsReference (e : Expr) : Prop := ∃ n r, e = leaf n (.variable r)

/-- What is in a part of an expression is in the expression. -/
theorem preorder_subset {a : Expr} (e : Expr) (h : a ∈ e.preorder) : a.preorder ⊆ e.preorder :=
  All.all (P := fun x => x ∈ e.preorder) e (fun _ hx => hx) a h

/-- The variable with which a text begins is that of a reference in one of the expressions, or of a binder if it
is at the head of a clause. -/
def IsFound (locations : Array Location) (es : List Expr) (dollar : Lexeme) (after : List Lexeme) : Prop :=
  ∃ e ∈ es, ∃ x ∈ e.preorder, locations[x.location]? = some dollar.location ∧
    (x.IsReference ∨ x.boundSlot?.isSome ∧ BeginsClause (dollar :: after))

/-- Every variable from one place of a text to another one is found in the expressions. -/
def Covers (locations : Array Location) (text rest : List Lexeme) (es : List Expr) : Prop :=
  ∀ dollar after, dollar :: after <:+ text → rest <:+ after → dollar.token = .symbol .dollar →
    IsFound locations es dollar after

namespace Covers
variable {locations locations' : Array Location} {text mid rest after : List Lexeme} {es fs : List Expr} {e : Expr}
  {l : Lexeme}

theorem refl (locations : Array Location) (text : List Lexeme) (es : List Expr) :
    Covers locations text text es := by
  intro l after h h' _
  have := (h.trans h').length_le
  simp at this

/-- All that is between the two places. -/
theorem of_read (h : ∀ l ∈ mid, l.token ≠ .symbol .dollar) : Covers locations (mid ++ rest) rest es := by
  rintro l after ⟨before, hbefore⟩ hrest hdollar
  obtain ⟨between, rfl⟩ := hrest
  rw [← List.cons_append, ← List.append_assoc] at hbefore
  refine absurd hdollar (h l ?_)
  rw [← List.append_cancel_right hbefore]
  simp

theorem mono (h : Covers locations text rest es) (hes : ∀ e ∈ es, ∃ f ∈ fs, e ∈ f.preorder)
    (hlocations : locations.toList <+: locations'.toList) : Covers locations' text rest fs := by
  intro l after hl hrest hdollar
  obtain ⟨e, he, x, hx, hlocation, hfound⟩ := h l after hl hrest hdollar
  obtain ⟨f, hf, hef⟩ := hes e he
  exact ⟨f, hf, x, preorder_subset f hef hx, getElem?_of_prefix hlocations hlocation, hfound⟩

theorem later (h : Covers locations text rest es) (hlocations : locations.toList <+: locations'.toList) :
    Covers locations' text rest es :=
  h.mono (fun e he => ⟨e, he, e.mem_preorder_self⟩) hlocations

theorem within (h : Covers locations text rest es) (hes : es ⊆ e.preorder) : Covers locations text rest [e] :=
  h.mono (fun _ hx => ⟨e, List.mem_singleton_self e, hes hx⟩) List.prefix_rfl

theorem append (h : Covers locations text mid es) (h' : Covers locations mid rest fs) (hmid : mid <:+ text) :
    Covers locations text rest (es ++ fs) := by
  intro l after hl hrest hdollar
  have hes : mid <:+ after → IsFound locations (es ++ fs) l after := fun hafter => by
    obtain ⟨e, he, hfound⟩ := h l after hl hafter hdollar
    exact ⟨e, List.mem_append_left fs he, hfound⟩
  have hfs : l :: after <:+ mid → IsFound locations (es ++ fs) l after := fun hl => by
    obtain ⟨e, he, hfound⟩ := h' l after hl hrest hdollar
    exact ⟨e, List.mem_append_right es he, hfound⟩
  obtain hle | hle := List.suffix_or_suffix_of_suffix hl hmid
  · exact hfs hle
  · obtain rfl | hle := List.suffix_cons_iff.1 hle
    · exact hfs List.suffix_rfl
    · exact hes hle

theorem cons (h : Covers locations text rest es) (hl : l.token = .symbol .dollar → IsFound locations es l text) :
    Covers locations (l :: text) rest es := by
  intro x after hx hrest hdollar
  obtain heq | hx := List.suffix_cons_iff.1 hx
  · obtain ⟨rfl, rfl⟩ := List.cons.inj heq
    exact hl hdollar
  · exact h x after hx hrest hdollar

end Covers

/-- An expression that is put together from others, and neither binds a variable nor refers to one
itself. -/
structure IsMadeOf (e : Expr) (es : List Expr) : Prop where
  resolved : ∀ {written globals scope}, (∀ x ∈ es, x.Resolved written globals scope) →
    e.Resolved written globals scope
  bound : e.boundSlots.Perm (es.flatMap boundSlots)
  parts : es ⊆ e.preorder

namespace IsMadeOf
variable {a b d e : Expr} {es : List Expr} {at' : LocationId}

theorem self (e : Expr) : e.IsMadeOf [e] :=
  ⟨fun h => h e List.mem_cons_self, by rw [List.flatMap_singleton], by simp [mem_preorder_self]⟩

theorem leaf {n : Note} {op : LeafOp} (h : ∀ r, op ≠ .variable r) : (Expr.leaf n op).IsMadeOf [] := by
  refine ⟨fun {written globals scope} _ => ?_, ?_, List.nil_subset _⟩
  · cases op with
    | «variable» r => exact absurd rfl (h r)
    | _ => trivial
  · cases op <;> exact .refl _

theorem unary (n : Note) (op : UnaryOp) (h : a.IsMadeOf es) : (Expr.unary n op a).IsMadeOf es :=
  ⟨fun hes => by rw [Resolved]; exact h.resolved hes, h.bound, List.subset_cons_of_subset _ h.parts⟩

theorem binary (n : Note) {op : BinaryOp} (hop : op.slot? = none) {fs : List Expr} (ha : a.IsMadeOf es)
    (hb : b.IsMadeOf fs) : (Expr.binary n op a b).IsMadeOf (es ++ fs) := by
  refine ⟨fun {written globals scope} h => ?_, ?_, ?_⟩
  · rw [Resolved, hop]
    exact ⟨ha.resolved fun x hx => h x (List.mem_append_left _ hx),
      hb.resolved fun x hx => h x (List.mem_append_right _ hx)⟩
  · rw [boundSlots_binary, hop, List.flatMap_append]
    exact ha.bound.append hb.bound
  · refine List.subset_cons_of_subset _ (List.append_subset.2 ⟨?_, ?_⟩)
    · exact List.subset_append_of_subset_left _ ha.parts
    · exact List.subset_append_of_subset_right _ hb.parts

theorem ternary (n : Note) (op : TernaryOp) : (Expr.ternary n op a b d).IsMadeOf [a, b, d] := by
  refine ⟨fun {written globals scope} h => ?_, ?_, fun x hx => ?_⟩
  · rw [Resolved]
    exact ⟨h a (by simp), h b (by simp), h d (by simp)⟩
  · rw [boundSlots_ternary]
    simp
  · obtain rfl | rfl | rfl : x = a ∨ x = b ∨ x = d := by simpa using hx
    all_goals simp [preorder, mem_preorder_self]

theorem nary (n : Note) (op : NaryOp) (es : List Expr) : (Expr.nary n op es).IsMadeOf es := by
  refine ⟨fun {written globals scope} h => ?_, ?_, fun x hx => List.mem_cons_of_mem _ ?_⟩
  · rw [Resolved, resolvedList_iff]
    exact h
  · rw [boundSlots_nary]
  · exact mem_preorderList.2 ⟨x, hx, x.mem_preorder_self⟩

/-! The forms that the grammar stands for. -/

theorem descendantOrSelf (h : e.IsMadeOf es) : (e.descendantOrSelf at').IsMadeOf es := by
  rw [← List.append_nil es]
  exact .binary _ rfl h (.leaf (by simp))

theorem sortedPath (h : e.IsMadeOf es) : e.sortedPath.IsMadeOf es := by
  unfold Expr.sortedPath
  split
  · exact .unary _ _ h
  · exact h

theorem pathStep {fs : List Expr} (ha : a.IsMadeOf es) (hb : b.IsMadeOf fs) :
    (a.pathStep b at').IsMadeOf (es ++ fs) :=
  .binary _ rfl ha.sortedPath hb

theorem applySigns (signed negative : Bool) (h : e.IsMadeOf es) :
    (Parser.applySigns signed negative e at').IsMadeOf es := by
  have hplus (isNumber : Bool) : (if signed && !isNumber then mkUnary .plus e at' else e).IsMadeOf es := by
    split
    · exact .unary _ _ h
    · exact h
  unfold Parser.applySigns
  dsimp only
  split
  · exact .unary _ _ h
  · exact hplus _

end IsMadeOf
end Expr
end XPath
