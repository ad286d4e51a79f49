import ScriptLens.Proofs.Grammar.Placed
import ScriptLens.Proofs.Lint.Codes
import ScriptLens.Proofs.Scan.Comments

/-!
Assignments to read-only variables of the engine, in the tree and among the tokens. The linter looks
for a name with `:=` right behind it; the tree says what is assigned to. Between a target and its
sign nothing but parentheses can close, so the two agree but where a target stands in parentheses,
and where a name is not written like a variable of the engine.
-/

namespace ScriptLens

open ScriptLens.Parser Grammar

namespace Expr

/-- The name that an expression assigns to, its mark and its span. -/
def assignedName? : Expr → Option (String × Bool × Span)
  | assignment (name n builtin span) _ _ => some (n, builtin, span)
  | _ => none

/-- The property that an expression looks up, and the span of the whole. -/
def property? : Expr → Option (String × Span)
  | member _ property span => some (property, span)
  | _ => none

theorem assignedName?_some {e : Expr} {n : String} {builtin : Bool} {span : Span}
    (h : e.assignedName? = some (n, builtin, span)) :
    ∃ value whole, e = .assignment (.name n builtin span) value whole := by
  unfold assignedName? at h
  split at h
  · cases h
    exact ⟨_, _, rfl⟩
  · cases h

theorem property?_some {e : Expr} {property : String} {span : Span}
    (h : e.property? = some (property, span)) : ∃ object, e = .member object property span := by
  unfold property? at h
  split at h
  · cases h
    exact ⟨_, rfl⟩
  · cases h

end Expr

namespace Grammar

variable {gap : List Token → Prop} {level : Nat} {all ts : List Token} {e : Expr}

/-- What the tokens of a name, a member or an assignment are without parentheses around them. -/
def Bare (gap : List Token → Prop) (ts : List Token) : Expr → Prop
  | .assignment target _ _ => ∃ us sign vs, ts = us ++ sign :: vs ∧ Derives gap 1 us target ∧
      sign.kind = .assign
  | .member object property span => ∃ us dot t, ts = us ++ [dot, t] ∧ Derives gap 8 us object ∧
      dot.kind = .dot ∧ t.kind ≠ .newline ∧ t.text = property ∧ span = object.span.cover t.span
  | .name n builtin span =>
    ∃ t, ts = [t] ∧ t.kind = (if builtin then .builtinVar else .identifier) ∧
      t.text = n ∧ t.span = span
  | _ => True

theorem bare_leaf {t : Token} (leaf : t.leaf? = some e) : Bare gap [t] e := by
  unfold Token.leaf? at leaf
  split at leaf
  case h_6 kind =>
    cases leaf
    exact ⟨t, rfl, kind, rfl, rfl⟩
  case h_7 kind =>
    cases leaf
    exact ⟨t, rfl, kind, rfl, rfl⟩
  case h_8 => cases leaf
  all_goals
    cases leaf
    trivial

/-- Only parentheses close behind an expression. -/
theorem Derives.bare (h : Derives gap level ts e) : ∃ front us closings,
    ts = front ++ (us ++ closings) ∧ (∀ c ∈ closings, c.kind = .rParen) ∧ Bare gap us e := by
  have whole {us : List Token} {e : Expr} (bare : Bare gap us e) : ∃ front vs closings,
      us = front ++ (vs ++ closings) ∧ (∀ c ∈ closings, c.kind = .rParen) ∧ Bare gap vs e :=
    ⟨[], us, [], by simp, List.forall_mem_nil _, bare⟩
  induction h with
  | assignment left _ kind _ => exact whole ⟨_, _, _, rfl, left, kind⟩
  | @member object ts dot t before kind named =>
      have other : t.kind ≠ .newline := by rcases named with named | named <;> rw [named] <;> decide
      exact whole ⟨ts, dot, t, rfl, before, kind, other, rfl, rfl⟩
  | binary => exact whole trivial
  | unary => exact whole trivial
  | call => exact whole trivial
  | leaf leaf => exact whole (bare_leaf leaf)
  | @group e ts opening closing _ _ closes ih =>
      obtain ⟨front, us, closings, rfl, parens, bare⟩ := ih
      refine ⟨opening :: front, us, closings ++ [closing], by simp, ?_, bare⟩
      exact List.forall_mem_append.mpr ⟨parens, List.forall_mem_singleton.mpr closes⟩
  | tighter _ ih => exact ih

/-- A name that is assigned to: parentheses may close behind it, then its sign comes. -/
theorem Placed.assigned {value : Expr} {n : String} {builtin : Bool} {span whole : Span}
    (h : Placed all (.assignment (.name n builtin span) value whole)) :
    ∃ (front closings back : List Token) (t sign : Token),
    all = front ++ t :: (closings ++ sign :: back) ∧
      t.kind = (if builtin then .builtinVar else .identifier) ∧ t.text = n ∧ t.span = span ∧
      (∀ c ∈ closings, c.kind = .rParen) ∧ sign.kind = .assign := by
  obtain ⟨ts, ⟨before, behind, rfl⟩, derives⟩ := h
  obtain ⟨front, _, after, rfl, _, us, sign, vs, rfl, target, assigns⟩ := derives.bare
  obtain ⟨front', _, closings, rfl, closes, t, rfl, kind, text, same⟩ := target.bare
  exact ⟨before ++ (front ++ front'), closings, vs ++ (after ++ behind), t, sign, by simp, kind,
    text, same, closes, assigns⟩

theorem cover_stop (a b : Span) : (a.cover b).stop = a.stop ∨ (a.cover b).stop = b.stop := by
  unfold Span.cover
  dsimp only
  split
  · exact .inr rfl
  · exact .inl rfl

/-- An expression ends where one of its tokens does. -/
theorem Derives.stop (h : Derives gap level ts e) : ∃ t ∈ ts, e.span.stop = t.stop := by
  have pair {a b : Span} {us vs : List Token}
      (left : ∃ t ∈ us, a.stop = t.stop) (right : ∃ t ∈ vs, b.stop = t.stop) :
      ∃ t ∈ us ++ vs, (a.cover b).stop = t.stop := by
    obtain ⟨x, first, start⟩ := left
    obtain ⟨y, last, stop⟩ := right
    rcases cover_stop a b with same | same
    · exact ⟨x, List.mem_append_left vs first, same.trans start⟩
    · exact ⟨y, List.mem_append_right us last, same.trans stop⟩
  induction h with
  | assignment _ _ _ _ ihl ihr =>
      obtain ⟨y, last, stop⟩ := ihr
      exact pair ihl ⟨y, List.mem_cons_of_mem _ last, stop⟩
  | binary _ _ _ ihl ihr =>
      obtain ⟨y, last, stop⟩ := ihr
      exact pair ihl ⟨y, List.mem_cons_of_mem _ last, stop⟩
  | @unary operator argument ts sign _ _ ih =>
      exact @pair sign.span argument.span [sign] ts ⟨sign, List.mem_cons_self, rfl⟩ ih
  | @call callee items ts inside opening closing _ _ _ _ _ ih _ =>
      exact pair ih ⟨closing, by simp, rfl⟩
  | @member object ts dot t _ _ _ ih => exact pair ih ⟨t, by simp, rfl⟩
  | @leaf t e leaf =>
      refine ⟨t, List.mem_cons_self, ?_⟩
      unfold Token.leaf? at leaf
      split at leaf
      case h_8 => cases leaf
      all_goals
        cases leaf
        rfl
  | group _ _ _ ih =>
      obtain ⟨t, member, stop⟩ := ih
      exact ⟨t, by simp [member], stop⟩
  | tighter _ ih => exact ih

/-- A property is the last token of its member, behind a dot. -/
theorem Placed.property {object : Expr} {property : String} {span : Span} (order : InOrder all)
    (h : Placed all (.member object property span)) : ∃ (front back : List Token) (dot t : Token),
      all = front ++ dot :: t :: back ∧ dot.kind = .dot ∧ t.kind ≠ .newline ∧ t.text = property ∧
      t.stop = span.stop := by
  obtain ⟨ts, ⟨before, behind, rfl⟩, derives⟩ := h
  obtain ⟨front, _, closings, rfl, _, us, dot, t, rfl, accessed, dotted, other, text, rfl⟩ :=
    derives.bare
  have place : before ++ (front ++ (us ++ [dot, t] ++ closings)) ++ behind =
      (before ++ front ++ us) ++ dot :: t :: (closings ++ behind) := by simp
  rw [place] at order ⊢
  refine ⟨_, _, dot, t, rfl, dotted, other, text, ?_⟩
  obtain ⟨u, member, stop⟩ := accessed.stop
  have before : u.stop.offset ≤ t.start.offset := order.le (by simp [member]) (by simp)
  have wide := order.nonempty t (by simp)
  have further : t.span.stop.offset > object.span.stop.offset := by
    rw [stop]
    exact Nat.lt_of_le_of_lt before wide
  rw [Span.cover, if_pos further]
  rfl

end Grammar

namespace Diagnostic

/-- The findings with a code about a range. -/
def about (c : Code) (range : Span) (found : List Diagnostic) : List Diagnostic :=
  (found.filter (·.code = c)).filter (·.range = range)

end Diagnostic

namespace Lint

/-- The finding about an assignment to a read-only variable. -/
def readOnlyFinding (name : String) (span : Span) : Diagnostic :=
  .lint .error .readOnlyAssignment ("Cannot assign to read-only variable '" ++ name ++ "'") span

/-- The token is taken as a target: the sign of an assignment is the next token, line breaks
aside. -/
def isAssigned (rest : List Token) : Bool :=
  (rest.find? (·.kind != .newline)).any (·.kind = .assign)

variable {tokens front back : List Token} {t : Token}

theorem readOnlyAssignments_cons (t : Token) (rest : List Token) : readOnlyAssignments (t :: rest) =
    (if t.kind = .builtinVar ∧ Names.isReadOnly t.text = true ∧ isAssigned rest =
      true then [readOnlyFinding t.text t.span] else []) ++ readOnlyAssignments rest := by
  rw [readOnlyAssignments]
  simp only [Bool.and_eq_true, decide_eq_true_eq, and_assoc]
  rfl

/-- A token has the findings at its place to itself. -/
theorem readOnlyAssignments_at
    (apart : (front ++ t :: back).Pairwise fun a b => a.stop.offset ≤ b.start.offset)
    (wide : t.start.offset < t.stop.offset) :
      (readOnlyAssignments (front ++ t :: back)).filter (·.range = t.span) =
      if t.kind = .builtinVar ∧ Names.isReadOnly t.text = true ∧
        isAssigned back = true then [readOnlyFinding t.text t.span]
      else [] := by
  induction front with
  | nil =>
      have others : ∀ u ∈ back, u.span ≠ t.span := by
        intro u member same
        have behind := (List.pairwise_cons.mp apart).1 u member
        rw [show u.start = t.start from congrArg Span.start same] at behind
        omega
      have none : (readOnlyAssignments back).filter (·.range = t.span) = [] :=
        List.filter_eq_nil_iff.mpr fun d member same =>
          readOnlyAssignments_ranges (P := (· ≠ t.span)) others d member (of_decide_eq_true same)
      rw [List.nil_append, readOnlyAssignments_cons, List.filter_append, none, List.append_nil]
      split
      · exact List.filter_cons_of_pos (decide_eq_true rfl)
      · rfl
  | cons u front ih =>
      obtain ⟨first, later⟩ := List.pairwise_cons.mp apart
      have other : u.span ≠ t.span := by
        intro same
        have before := first t (by simp)
        rw [show u.stop = t.stop from congrArg Span.stop same] at before
        omega
      have gone : [readOnlyFinding u.text u.span].filter (·.range = t.span) = [] :=
        List.filter_cons_of_neg fun same => other (of_decide_eq_true same)
      rw [List.cons_append, readOnlyAssignments_cons, List.filter_append, ih later]
      split
      · rw [gone, List.nil_append]
      · rfl

/-- The linter's findings about read-only variables are those of the walk over the tokens. -/
theorem listing_readOnlyAssignments (settings : LintSettings) {source : String}
    (clean : (scan source).fault = none) :
    (listing settings source).filter (·.code = .readOnlyAssignment) =
      Diagnostic.inOrder (readOnlyAssignments (scan source).tokens) := by
  rw [listing_tree settings clean (by decide), tree, Diagnostic.filter_inOrder]
  simp only [List.filter_append,
    (undefinedCalls_coded _).none (c := .readOnlyAssignment) (by decide), (lists_coded _).none
    (c := .readOnlyAssignment) (by decide), (readOnlyAssignments_coded _).all, List.nil_append]

/-- The linter's findings at a token of a script that scans. -/
theorem listing_readOnly (settings : LintSettings) {source : String} {last : Token}
    {behind : List Token}
    (scanned : Scanned source (front ++ t :: behind) last) :
    Diagnostic.about .readOnlyAssignment t.span (listing settings source) =
      if t.kind = .builtinVar ∧ Names.isReadOnly t.text = true ∧
        isAssigned (behind ++ [last]) = true then
        [readOnlyFinding t.text t.span] else [] := by
  obtain ⟨clean, tokens⟩ := fault_of_tokenize scanned.tokens
  have apart := scanned.apart
  have wide := scanned.inOrder.nonempty t (by simp)
  rw [List.append_assoc, List.cons_append] at apart tokens
  rw [Diagnostic.about, listing_readOnlyAssignments settings clean, Diagnostic.filter_inOrder,
    tokens, readOnlyAssignments_at apart wide]
  split <;> rfl

end Lint

/-- Tokens among which a name is assigned to: only parentheses close between it and its sign. -/
structure AssignedAt (tokens : List Token) (name : String) (builtin : Bool) (span : Span)
    (closings : List Token) : Prop where
  place : ∃ (front back : List Token) (t sign : Token),
    tokens = front ++ t :: (closings ++ sign :: back) ∧ t.span = span ∧ t.text = name ∧
    t.kind = (if builtin then .builtinVar else .identifier) ∧ sign.kind = .assign
  closes : ∀ c ∈ closings, c.kind = .rParen

/-- The token is the property of a member with this span, behind its dot. -/
structure AccessedAt (tokens : List Token) (property : String) (whole : Span)
    (t : Token) : Prop where
  place : ∃ (front back : List Token) (dot : Token), tokens = front ++ dot :: t :: back ∧
    dot.kind = .dot
  text : t.text = property
  stop : t.stop = whole.stop

section Script

variable {source property name : String} {builtin : Bool} {span whole : Span}
  {front closings : List Token} {last t : Token}

theorem AssignedAt.append (h : AssignedAt front name builtin span closings) (more : List Token) :
    AssignedAt (front ++ more) name builtin span closings := by
  obtain ⟨⟨before, back, t, sign, rfl, rest⟩, closes⟩ := h
  exact ⟨⟨before, back ++ more, t, sign, by simp, rest⟩, closes⟩

theorem AccessedAt.append (h : AccessedAt front property whole t) (more : List Token) :
    AccessedAt (front ++ more) property whole t := by
  obtain ⟨⟨before, back, dot, rfl, dotted⟩, text, stop⟩ := h
  exact ⟨⟨before, back ++ more, dot, by simp, dotted⟩, text, stop⟩

/-- Comments stand neither in front of a parenthesis nor of a sign. -/
theorem Scanned.assignedAt {value : Expr} (scanned : Scanned source front last) (placed : Placed
      (front.filter (·.kind != .comment)) (.assignment (.name name builtin span) value whole)) :
    ∃ closings, AssignedAt front name builtin span closings := by
  obtain ⟨before, closings, after, t, sign, kept, kind, text, same, closes, assigns⟩ :=
    placed.assigned
  have other : t.kind ≠ .newline := by
    rw [kind]
    split <;> decide
  obtain ⟨before', rest, rfl, _, behind, _⟩ := scanned.commentsEnd.place kept other
  have solid : ∀ u ∈ closings ++ [sign], u.kind ≠ .newline := by
    refine List.forall_mem_append.mpr ⟨fun u closing => ?_, List.forall_mem_singleton.mpr ?_⟩
    · rw [closes u closing]
      decide
    · rw [assigns]
      decide
  rw [← List.singleton_append, ← List.append_assoc] at behind
  obtain ⟨after', rfl, _⟩ := scanned.commentsEnd.row behind solid
  exact ⟨closings, ⟨before', after', t, sign, by simp, same, text, kind, assigns⟩, closes⟩

theorem Scanned.accessedAt {object : Expr} (scanned : Scanned source front last)
    (placed : Placed (front.filter (·.kind != .comment)) (.member object property whole)) :
    ∃ t, AccessedAt front property whole t := by
  have order := scanned.inOrder.sublist (List.filter_sublist (p := (·.kind != .comment)))
  obtain ⟨before, after, dot, t, kept, dotted, other, text, stop⟩ := placed.property order
  obtain ⟨before', rest, rfl, _, behind, _⟩ :=
    scanned.commentsEnd.place kept (by rw [dotted]; decide)
  obtain ⟨after', rfl, _⟩ := scanned.commentsEnd.next behind other
  exact ⟨t, ⟨before', after', dot, rfl, dotted⟩, text, stop⟩

/-- The linter sees an assignment to a variable of the engine unless a parenthesis closes first. -/
theorem AssignedAt.findings (settings : LintSettings) (scanned : Scanned source front last)
    (h : AssignedAt front name builtin span closings) (readOnly : Names.isReadOnly name = true) :
    Diagnostic.about .readOnlyAssignment span (Lint.listing settings source) =
      if builtin = true ∧ closings = [] then [Lint.readOnlyFinding name span] else [] := by
  obtain ⟨⟨before, back, t, sign, rfl, rfl, rfl, kind, assigns⟩, closes⟩ := h
  have engine : t.kind = .builtinVar ↔ builtin = true := by
    rw [kind]
    cases builtin <;> decide
  have next : Lint.isAssigned (closings ++ sign :: back ++ [last]) = true ↔ closings = [] := by
    cases closings with
    | nil => simp [Lint.isAssigned, assigns]
    | cons c closings =>
        have closing := closes c List.mem_cons_self
        simp [Lint.isAssigned, closing]
  rw [Lint.listing_readOnly settings scanned]
  simp only [engine, readOnly, next, true_and]

theorem AccessedAt.findings (settings : LintSettings) (scanned : Scanned source front last)
    (h : AccessedAt front property whole t) (apart :
      Lint.isAssigned ((front ++ [last]).filter (whole.stop.offset ≤ ·.start.offset)) = false) :
    Diagnostic.about .readOnlyAssignment t.span (Lint.listing settings source) = [] := by
  obtain ⟨⟨before, back, dot, rfl, _⟩, _, stop⟩ := h
  have split : before ++ dot :: t :: back = (before ++ [dot]) ++ t :: back := by simp
  rw [split] at scanned apart
  have place :
    before ++ [dot] ++ t :: back ++ [last] = (before ++ [dot]) ++ t :: (back ++ [last]) := by simp
  rw [← stop,
    scanned.filter_from place (scanned.inOrder.nonempty t (by simp)) (Nat.le_refl _)] at apart
  rw [Lint.listing_readOnly settings scanned, apart]
  simp

end Script

/-- Wherever in the tree a read-only name is assigned to, only parentheses close between it and its
sign, and the linter reports it, once and as an error, if it is written like a variable of the
engine and stands in no parentheses; else it reports nothing there. At a property it reports nothing
unless the sign of an assignment comes next. -/
theorem readOnly_assignments (settings : LintSettings) {source : String} {tokens : List Token}
    (scans : tokenize source = .ok tokens) : ∃ out, parse source = .ok out ∧
      (∀ (name : String) (builtin : Bool) (span : Span) (value : Expr) (whole : Span),
        .assignment (.name name builtin span) value whole ∈ out.program.expressions →
          Names.isReadOnly name = true →
            ∃ closings, AssignedAt tokens name builtin span closings ∧
              Lint.Yields settings source (lint settings source) fun found =>
                Diagnostic.about .readOnlyAssignment span found =
                  if builtin = true ∧ closings = [] then [Lint.readOnlyFinding name span] else []) ∧
      (∀ (object : Expr) (property : String) (whole : Span),
        .member object property whole ∈ out.program.expressions →
          ∃ t, AccessedAt tokens property whole t ∧
            (Lint.isAssigned (tokens.filter (whole.stop.offset ≤ ·.start.offset)) = false →
              Lint.Yields settings source (lint settings source) fun found =>
                Diagnostic.about .readOnlyAssignment t.span found = [])) := by
  obtain ⟨front, last, rfl, scanned⟩ := tokenize_scanned scans
  obtain ⟨_, ahead, _⟩ := State.ofTokens_split source scanned.closing scanned.others
  have placed := parseTokens_placed source (front ++ [last])
  rw [ahead] at placed
  refine ⟨_, by rw [parse, scans]; rfl, ?_, ?_⟩
  · intro name builtin span value whole member readOnly
    obtain ⟨closings, assigned⟩ := scanned.assignedAt (placed _ member)
    exact ⟨closings, assigned.append [last],
      Lint.yields_listing (assigned.findings settings scanned readOnly)⟩
  · intro object property whole member
    obtain ⟨t, accessed⟩ := scanned.accessedAt (placed _ member)
    exact ⟨t, accessed.append [last],
      fun apart => Lint.yields_listing (accessed.findings settings scanned apart)⟩

/-- A target in a chain, one in parentheses inside a call, and a property of the same name. -/
theorem readOnly_assignments_chained : ∃ source tokens out found,
    source = "x := A_NOW := 1\nF((A_TickCount) := y.A_Now)\n" ∧
    tokenize source = .ok tokens ∧ parse source = .ok out ∧ lint {} source = some found ∧
    (AssignedAt tokens "A_NOW" true ⟨⟨1, 6, 5⟩, ⟨1, 11, 10⟩⟩ [] ∧
      Diagnostic.about .readOnlyAssignment ⟨⟨1, 6, 5⟩, ⟨1, 11, 10⟩⟩ found =
        [Lint.readOnlyFinding "A_NOW" ⟨⟨1, 6, 5⟩, ⟨1, 11, 10⟩⟩]) ∧
    (∃ c closings,
      AssignedAt tokens "A_TickCount" true ⟨⟨2, 4, 19⟩, ⟨2, 15, 30⟩⟩ (c :: closings) ∧
      Diagnostic.about .readOnlyAssignment ⟨⟨2, 4, 19⟩, ⟨2, 15, 30⟩⟩ found = []) ∧
    ∃ t, AccessedAt tokens "A_Now" ⟨⟨2, 20, 35⟩, ⟨2, 27, 42⟩⟩ t ∧
      Diagnostic.about .readOnlyAssignment t.span found = [] := by
  obtain ⟨source, text⟩ : ∃ source, source = "x := A_NOW := 1\nF((A_TickCount) := y.A_Now)\n" :=
    ⟨_, rfl⟩
  obtain ⟨tokens, scans, unassigned⟩ := ok_of_toOption (show (tokenize source).toOption.map
    (fun tokens => Lint.isAssigned (tokens.filter (42 ≤ ·.start.offset))) = some false by
      rw [text]
      decide +kernel)
  have trees : (parse source).toOption.map (fun out =>
      (out.program.expressions.filterMap Expr.assignedName?,
        out.program.expressions.filterMap Expr.property?)) =
      some ([("x", false, ⟨⟨1, 1, 0⟩, ⟨1, 2, 1⟩⟩), ("A_NOW", true, ⟨⟨1, 6, 5⟩, ⟨1, 11, 10⟩⟩),
        ("A_TickCount", true, ⟨⟨2, 4, 19⟩, ⟨2, 15, 30⟩⟩)],
        [("A_Now", ⟨⟨2, 20, 35⟩, ⟨2, 27, 42⟩⟩)]) := by
    rw [text]
    decide +kernel
  obtain ⟨found, returns, findings⟩ := Option.map_eq_some_iff.mp (show (lint {} source).map
      (·.filter (·.code = .readOnlyAssignment)) =
        some [Lint.readOnlyFinding "A_NOW" ⟨⟨1, 6, 5⟩, ⟨1, 11, 10⟩⟩] by
    rw [text]
    decide +kernel)
  have reported : Diagnostic.about .readOnlyAssignment ⟨⟨1, 6, 5⟩, ⟨1, 11, 10⟩⟩ found =
      [Lint.readOnlyFinding "A_NOW" ⟨⟨1, 6, 5⟩, ⟨1, 11, 10⟩⟩] := by
    rw [Diagnostic.about, findings]
    decide
  have silent : Diagnostic.about .readOnlyAssignment ⟨⟨2, 4, 19⟩, ⟨2, 15, 30⟩⟩ found = [] := by
    rw [Diagnostic.about, findings]
    decide
  obtain ⟨out, parsed, assigned, accessed⟩ := readOnly_assignments {} scans
  rw [parsed] at trees
  obtain ⟨names, properties⟩ := Prod.mk.inj (Option.some.inj trees)
  have target {n : String} {builtin : Bool} {span : Span}
      (member : (n, builtin, span) ∈ out.program.expressions.filterMap Expr.assignedName?) :
      ∃ value whole, .assignment (.name n builtin span) value whole ∈ out.program.expressions := by
    obtain ⟨e, inside, same⟩ := List.mem_filterMap.mp member
    obtain ⟨value, whole, rfl⟩ := Expr.assignedName?_some same
    exact ⟨value, whole, inside⟩
  rw [names] at target
  obtain ⟨_, _, chained⟩ := target (List.mem_cons_of_mem _ List.mem_cons_self)
  obtain ⟨_, _, grouped⟩ :=
    target (List.mem_cons_of_mem _ (List.mem_cons_of_mem _ List.mem_cons_self))
  obtain ⟨e, inside, same⟩ := List.mem_filterMap.mp (properties ▸ List.mem_cons_self)
  obtain ⟨object, rfl⟩ := Expr.property?_some same
  obtain ⟨closings, bare, yields⟩ := assigned _ _ _ _ _ chained (by decide)
  obtain ⟨closings', parens, yields'⟩ := assigned _ _ _ _ _ grouped (by decide)
  obtain ⟨t, property, free⟩ := accessed _ _ _ inside
  have here := yields.of_some returns
  have there := yields'.of_some returns
  cases closings with
  | cons c closings =>
      rw [reported, if_neg (by simp)] at here
      cases here
  | nil =>
      cases closings' with
      | nil =>
          rw [silent, if_pos ⟨rfl, rfl⟩] at there
          cases there
      | cons c closings' =>
          exact ⟨source, _, out, found, text, scans, parsed, returns, ⟨bare, reported⟩,
            ⟨c, closings', parens, silent⟩, t, property, (free unassigned).of_some returns⟩

/-- Between parentheses and in small letters an assignment is overlooked; a property is taken for a
variable. -/
theorem readOnly_overlooked :
    (∃ out found, parse "(A_Now) := 5\n" = .ok out ∧
      out.program.expressions.filterMap Expr.assignedName? =
        [("A_Now", true, ⟨⟨1, 2, 1⟩, ⟨1, 7, 6⟩⟩)] ∧
      lint {} "(A_Now) := 5\n" = some found ∧
      Diagnostic.about .readOnlyAssignment ⟨⟨1, 2, 1⟩, ⟨1, 7, 6⟩⟩ found = []) ∧
    (∃ out found, parse "a_now := 5\n" = .ok out ∧
      out.program.expressions.filterMap Expr.assignedName? =
        [("a_now", false, ⟨⟨1, 1, 0⟩, ⟨1, 6, 5⟩⟩)] ∧
      Names.isReadOnly "a_now" = true ∧ lint {} "a_now := 5\n" = some found ∧
      Diagnostic.about .readOnlyAssignment ⟨⟨1, 1, 0⟩, ⟨1, 6, 5⟩⟩ found = []) ∧
    ∃ out found, parse "x.A_Now := 5\n" = .ok out ∧
      out.program.expressions.filterMap Expr.property? = [("A_Now", ⟨⟨1, 1, 0⟩, ⟨1, 8, 7⟩⟩)] ∧
      lint {} "x.A_Now := 5\n" = some found ∧
      Diagnostic.about .readOnlyAssignment ⟨⟨1, 3, 2⟩, ⟨1, 8, 7⟩⟩ found =
        [Lint.readOnlyFinding "A_Now" ⟨⟨1, 3, 2⟩, ⟨1, 8, 7⟩⟩] := by
  obtain ⟨grouped, first, names⟩ := ok_of_toOption (show (parse "(A_Now) := 5\n").toOption.map
    (fun out => out.program.expressions.filterMap Expr.assignedName?) =
      some [("A_Now", true, ⟨⟨1, 2, 1⟩, ⟨1, 7, 6⟩⟩)] by decide +kernel)
  obtain ⟨small, second, names'⟩ := ok_of_toOption (show (parse "a_now := 5\n").toOption.map
    (fun out => out.program.expressions.filterMap Expr.assignedName?) =
      some [("a_now", false, ⟨⟨1, 1, 0⟩, ⟨1, 6, 5⟩⟩)] by decide +kernel)
  obtain ⟨dotted, third, properties⟩ := ok_of_toOption (show (parse "x.A_Now := 5\n").toOption.map
    (fun out => out.program.expressions.filterMap Expr.property?) =
      some [("A_Now", ⟨⟨1, 1, 0⟩, ⟨1, 8, 7⟩⟩)] by decide +kernel)
  have found (source : String) (span : Span) (about : List Diagnostic)
      (h : (lint {} source).map (Diagnostic.about .readOnlyAssignment span) = some about) :
      ∃ found, lint {} source = some found ∧
        Diagnostic.about .readOnlyAssignment span found = about := Option.map_eq_some_iff.mp h
  obtain ⟨groupedFound, returns, silent⟩ := found "(A_Now) := 5\n" ⟨⟨1, 2, 1⟩, ⟨1, 7, 6⟩⟩ []
    (by decide +kernel)
  obtain ⟨smallFound, returns', silent'⟩ := found "a_now := 5\n" ⟨⟨1, 1, 0⟩, ⟨1, 6, 5⟩⟩ []
    (by decide +kernel)
  obtain ⟨dottedFound, returns'', reported⟩ := found "x.A_Now := 5\n" ⟨⟨1, 3, 2⟩, ⟨1, 8, 7⟩⟩
    [Lint.readOnlyFinding "A_Now" ⟨⟨1, 3, 2⟩, ⟨1, 8, 7⟩⟩] (by decide +kernel)
  exact ⟨⟨grouped, groupedFound, first, names, returns, silent⟩,
    ⟨small, smallFound, second, names', by decide, returns', silent'⟩,
    dotted, dottedFound, third, properties, returns'', reported⟩

end ScriptLens
