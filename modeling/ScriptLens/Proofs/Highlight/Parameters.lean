import ScriptLens.Proofs.Highlight.Declarations

/-!
Parameters as the highlighter sees them. It walks back from a name to the parenthesis that is still
open and asks whether a declaration starts before that. What the parser took for a list of
parameters has matching parentheses, so the walk gets there; but it gives up at a line break, and a
parameter behind one is shown as a variable.
-/

namespace ScriptLens

open ScriptLens.Parser

namespace Highlight

variable {t : Token} (depth : Nat) (before after : List Token)

theorem inParameters_plain (kind : t.kind ∉ [.lParen, .rParen, .lBrace, .rBrace]) :
    inParameters depth (t :: before) after =
    (!decide (t.kind = .newline) && inParameters depth before (t :: after)) := by
  simp only [List.mem_cons, List.not_mem_nil, or_false, not_or] at kind
  rw [inParameters.eq_def]
  by_cases newline : t.kind = .newline
  · simp [newline]
  · simp [newline, kind]

theorem inParameters_closing (kind : t.kind = .rParen) :
    inParameters depth (t :: before) after = inParameters (depth + 1) before (t :: after) := by
  rw [inParameters.eq_def]
  simp [kind]

theorem inParameters_inner (kind : t.kind = .lParen) :
    inParameters (depth + 1) (t :: before) after = inParameters depth before (t :: after) := by
  rw [inParameters.eq_def]
  simp [kind]

theorem inParameters_outer (kind : t.kind = .lParen) (name : Token) :
    inParameters 0 (t :: name :: before) after =
    (decide (name.kind = .identifier) && isDeclarationName before.head? (name :: t :: after)) := by
  rw [inParameters.eq_def]
  simp [kind]

end Highlight

namespace Matched

/-- Comments do not change which parentheses match. -/
theorem unkept {ts us : List Token} (h : Matched us) (kept : ts.filter (·.kind != .comment) = us) :
    Matched ts := by
  have comments {cs : List Token} (dropped : ∀ c ∈ cs, ¬(c.kind != .comment) = true) :
      Matched cs := by
    apply Matched.all
    intro c member
    have comment : c.kind = .comment := by simpa using dropped c member
    rw [comment]
    decide
  induction h generalizing ts with
  | nil => exact comments (List.filter_eq_nil_iff.mp kept)
  | plain kind =>
      obtain ⟨before, after, rfl, dropped, _, rest⟩ := List.filter_eq_cons_iff.mp kept
      exact (comments dropped).append
        ((plain kind).append (comments (List.filter_eq_nil_iff.mp rest)))
  | @group opening closing inside opens closes _ ih =>
      obtain ⟨before, after, rfl, dropped, _, rest⟩ := List.filter_eq_cons_iff.mp kept
      obtain ⟨inner, behind, rfl, hinner, hbehind⟩ := List.filter_eq_append_iff.mp rest
      obtain ⟨before', after', rfl, dropped', _, rest'⟩ := List.filter_eq_cons_iff.mp hbehind
      have grouped := Matched.group opens closes ((ih hinner).append (comments dropped'))
      have whole :=
        (comments dropped).append (grouped.append (comments (List.filter_eq_nil_iff.mp rest')))
      simpa using whole
  | append _ _ ihBefore ihBehind =>
      obtain ⟨first, second, rfl, hfirst, hsecond⟩ := List.filter_eq_append_iff.mp kept
      exact (ihBefore hfirst).append (ihBehind hsecond)

/-- The walk back passes over tokens in which parentheses match, unless a line break is among
them. -/
theorem inParameters {inside : List Token} (h : Matched inside) (depth : Nat)
    (before after : List Token) : Highlight.inParameters depth (inside.reverse ++ before) after =
      (!inside.any (·.kind = .newline) &&
        Highlight.inParameters depth before (inside ++ after)) := by
  induction h generalizing depth before after with
  | nil => rfl
  | @plain t kind =>
      rw [List.reverse_singleton, List.singleton_append,
        Highlight.inParameters_plain depth before after kind]
      simp
  | @group opening closing inside opens closes _ ih =>
      have turn : (opening :: (inside ++ [closing])).reverse ++ before =
          closing :: (inside.reverse ++ opening :: before) := by simp
      rw [turn, Highlight.inParameters_closing depth _ after closes, ih,
        Highlight.inParameters_inner depth _ _ opens]
      simp [opens, closes]
  | @append first second _ _ ihFirst ihSecond =>
      rw [List.reverse_append, List.append_assoc, ihSecond, ihFirst]
      simp [Bool.and_assoc, Bool.and_comm]

end Matched

/-- A parameter's name among all tokens, behind the parenthesis of its function; in front of a name
by reference stands the mark, with which the parameter starts. -/
structure Param.Place (tokens : List Token) (nameSpan : Span) (p : Param) (inside : List Token)
    (name : Token) : Prop where
  place : ∃ before head paren after, tokens = before ++ head :: paren :: (inside ++ name :: after) ∧
    head.span = nameSpan ∧ paren.kind = .lParen
  kind : name.kind = .identifier
  text : name.text = p.name
  start : if p.byRef then ∃ mark, inside.getLast? = some mark ∧ mark.kind = .ampersand ∧
    p.span.start = mark.start
    else p.span.start = name.start

/-- One stretch over a parameter's name shows it as a parameter, or as a variable where a line break
stands between it and the parenthesis. -/
def Param.Shown (source : String) (tokens : List Token) (nameSpan : Span) (p : Param) : Prop :=
  ∃ inside name h, p.Place tokens nameSpan inside name ∧
    Highlight.at? name.start (Highlight.ofSource source) = some h ∧
    h.length = p.name.length ∧ h.modifiers = [] ∧
    h.type = if inside.any (·.kind = .newline) then .var else .parameter

/-- All parameters of a function are shown. -/
def Stmt.ParamsShown (source : String) (tokens : List Token) : Stmt → Prop
  | .function _ nameSpan params .. => ∀ p ∈ params, p.Shown source tokens nameSpan
  | _ => True

theorem Highlight.classifyIdentifier_param {before after : List Token} {name previous : Token}
    (last : before.head? = some previous)
    (kind : previous.kind ∈ [.newline, .comma, .ampersand, .lParen])
    (apart : ∀ t ∈ after.head?, t.kind ≠ .lParen) : classifyIdentifier before name after =
      (if inParameters 0 before (name :: after) then .parameter else .var, []) := by
  have other : (after.head?.any fun t => t.kind = .lParen) = false := by
    cases first : after.head? with
    | none => rfl
    | some t => simpa using apart t first
  simp only [List.mem_cons, List.not_mem_nil, or_false] at kind
  rw [classifyIdentifier]
  cases walked : inParameters 0 before (name :: after) <;>
    rcases kind with kind | kind | kind | kind <;> simp [last, kind, other]

/-- What stands before a parameter's name. -/
theorem Param.At.previous {p : Param} {inside : List Token} {name next paren : Token}
    (h : p.At inside name next) (opens : paren.kind = .lParen) (f : List Token) :
    ∃ u, (f ++ paren :: inside).getLast? = some u ∧
      u.kind ∈ [.newline, .comma, .ampersand, .lParen] := by
  rw [List.getLast?_append, List.getLast?_cons]
  cases last : inside.getLast? with
  | none => exact ⟨paren, rfl, by rw [opens]; decide⟩
  | some u =>
      refine ⟨u, rfl, ?_⟩
      rcases h.before u last with separates | mark
      · revert separates
        generalize u.kind = kind
        cases kind <;> decide
      · rw [mark]
        decide

namespace FunctionHead

variable {source : String} {front f inside rest : List Token} {last t paren identifier next : Token}
  {name : String} {nameSpan : Span} {params : List Param} {p : Param}

/-- The head of a function and one of its parameters among all tokens. -/
theorem param_place (h : Scanned source front last)
    (head : FunctionHead (front.filter (·.kind != .comment)) name nameSpan params f t paren
      (inside ++ identifier :: next :: rest)) (written : p.At inside identifier next) :
    ∃ outer inner after, front = outer ++ t :: paren :: (inner ++ identifier :: after) ∧
      inner.filter (·.kind != .comment) = inside ∧
      after.filter (·.kind != .comment) = next :: rest ∧ outer.getLast? = f.getLast? ∧
      (outer ++ t :: paren :: inner).getLast? = (f ++ t :: paren :: inside).getLast? := by
  have split := head.place
  rw [← List.cons_append, ← List.cons_append, ← List.append_assoc] at split
  obtain ⟨before, after, place, kept, behind, previous⟩ :=
    h.commentsEnd.place split (by rw [written.kind]; decide)
  have ends := h.commentsEnd
  rw [place] at ends
  obtain ⟨outer, tail, rfl, _, behind', previous'⟩ :=
    CommentsEnd.place ends.left_of_append kept (by rw [head.kind]; decide)
  obtain ⟨inner, rfl, within⟩ :=
    CommentsEnd.next ends.left_of_append behind' (by rw [head.opening]; decide)
  exact ⟨outer, inner, after, by rw [place]; simp, within, behind, previous', previous⟩

/-- The walk back from a parameter passes the tokens inside and comes to the head of the
declaration. -/
theorem walk {outer inner after : List Token} (h : Scanned source front last)
    (head : FunctionHead (front.filter (·.kind != .comment)) name nameSpan params f t paren
      (inside ++ identifier :: next :: rest)) (written : p.At inside identifier next)
    (place : front = outer ++ t :: paren :: (inner ++ identifier :: after))
    (within : inner.filter (·.kind != .comment) = inside)
    (behind : after.filter (·.kind != .comment) = next :: rest)
    (same : outer.getLast? = f.getLast?) : Highlight.inParameters 0
    (outer ++ t :: paren :: inner).reverse (identifier :: (after ++ [last])) =
      !inner.any (·.kind = .newline) := by
  have turn :
    (outer ++ t :: paren :: inner).reverse = inner.reverse ++ paren :: t :: outer.reverse := by simp
  have kept : (paren :: (inner ++ identifier :: after)).filter (·.kind != .comment) =
      paren :: (inside ++ identifier :: next :: rest) := by
    rw [List.filter_cons_of_pos (by simp [head.opening]), List.filter_append, within,
      List.filter_cons_of_pos (by simp [written.kind]), behind]
  have declares := h.isDeclarationName_eq place (same ▸ head.undotted)
  rw [kept, head.declares] at declares
  rw [turn, (written.matched.unkept within).inParameters,
    Highlight.inParameters_outer _ _ head.opening, head.kind, List.head?_reverse]
  simpa using fun _ => declares

theorem param_shown (h : Scanned source front last)
    (head : FunctionHead (front.filter (·.kind != .comment)) name nameSpan params f t paren
      (inside ++ identifier :: next :: rest)) (written : p.At inside identifier next) :
    p.Shown source (front ++ [last]) nameSpan := by
  obtain ⟨outer, inner, after, place, within, behind, same, previous⟩ := head.param_place h written
  have walked := head.walk h written place within behind same
  obtain ⟨u, final, kind⟩ := written.previous head.opening (f ++ [t])
  rw [List.append_assoc, List.singleton_append, ← previous, ← List.head?_reverse] at final
  have split : front = (outer ++ t :: paren :: inner) ++ identifier :: after := by rw [place]; simp
  obtain ⟨shown, found, classified, length⟩ := h.at?_name split written.kind
  rw [Highlight.classifyIdentifier_param final kind (uncalled_of_kept behind written.apart last),
    walked] at classified
  obtain ⟨type, modifiers⟩ := Prod.mk.inj classified
  refine ⟨inner, identifier, shown,
    ⟨⟨outer, t, paren, after ++ [last], by rw [place]; simp, head.span, head.opening⟩,
    written.kind, written.text, ?_⟩, found, by rw [length, written.text], modifiers, ?_⟩
  · -- the mark before the name is not the parenthesis, so it is inside among all tokens too
    have start := written.start
    split at start
    · obtain ⟨mark, last', ampersand, place'⟩ := start
      rw [if_pos (by assumption)]
      refine ⟨mark, ?_, ampersand, place'⟩
      simp only [List.getLast?_append, List.getLast?_cons, last'] at previous
      cases final' : inner.getLast? with
      | none =>
          rw [final'] at previous
          cases previous
          cases ampersand.symm.trans head.opening
      | some v =>
          rw [final'] at previous
          exact previous
    · rw [if_neg (by assumption)]
      exact start
  · rw [type]
    cases inner.any (·.kind = .newline) <;> rfl

end FunctionHead

/-- Every parameter of every function of the tree has one stretch over its name, which shows it as a
parameter where no line break stands between the name and the opening parenthesis, and as a variable
otherwise. -/
theorem parameters_shown {source : String} {tokens : List Token}
    (lexes : tokenize source = .ok tokens) : ∃ out, parse source = .ok out ∧
      ∀ body ∈ Stmt.lists out.program.body, ∀ stmt ∈ body, stmt.ParamsShown source tokens := by
  obtain ⟨front, last, rfl, scanned⟩ := tokenize_scanned lexes
  obtain ⟨_, ahead, _⟩ := State.ofTokens_split source scanned.closing scanned.others
  refine ⟨_, by rw [parse, lexes]; rfl, ?_⟩
  intro body listed stmt member
  have written := parseTokens_writes source (front ++ [last]) body listed stmt member
  rw [ahead] at written
  cases stmt with
  | function name nameSpan params body isStatic span =>
      obtain ⟨f, t, paren, back, head⟩ := written
      intro p param
      obtain ⟨inside, identifier, next, rest, rfl, place⟩ := head.params p param
      exact head.param_shown scanned place
  | _ => trivial

/-- The parameters of the functions in a list of statements. -/
def Stmt.paramsIn (body : List Stmt) : List Param :=
  body.flatMap fun
    | .function _ _ params .. => params
    | _ => []

/-- A default in parentheses on the first line, and a parameter on the second one. -/
theorem parameters_shown_lines : ∃ out, parse "F(a, &b := (1),\nc*) \x7b\n\x7d\n" = .ok out ∧
    (Stmt.paramsIn out.program.body).map (·.name) = ["a", "b", "c"] ∧
    (∀ stmt ∈ out.program.body, stmt.ParamsShown "F(a, &b := (1),\nc*) \x7b\n\x7d\n"
      (scan "F(a, &b := (1),\nc*) \x7b\n\x7d\n").tokens) ∧
    (Highlight.ofSource "F(a, &b := (1),\nc*) \x7b\n\x7d\n").filterMap
    (fun h => if h.type ∈ [.parameter, .var] then some (h.line, h.type) else none) =
      [(0, .parameter), (0, .parameter), (1, .var)] := by
  have lexes : tokenize "F(a, &b := (1),\nc*) \x7b\n\x7d\n" =
    .ok (scan "F(a, &b := (1),\nc*) \x7b\n\x7d\n").tokens := by decide +kernel
  obtain ⟨out, parses, shown⟩ := parameters_shown lexes
  obtain ⟨out', parses', names⟩ :=
    ok_of_toOption (show (parse "F(a, &b := (1),\nc*) \x7b\n\x7d\n").toOption.map (fun out =>
    (Stmt.paramsIn out.program.body).map (·.name)) = some ["a", "b", "c"] by decide +kernel)
  cases Except.ok.inj (parses.symm.trans parses')
  exact ⟨out, parses, names, shown _ List.mem_cons_self, by decide +kernel⟩

/-- Not every parameter is shown as one: the second one of a function is not where it stands on a
line of its own. -/
theorem parameters_lost_behind_newline : ¬∀ (source : String) (out : ParseOutput),
    parse source = .ok out → ∀ p ∈ Stmt.paramsIn out.program.body, p.byRef = false → ∃ h,
      Highlight.at? p.span.start (Highlight.ofSource source) = some h ∧ h.type = .parameter := by
  intro always
  obtain ⟨out, parses, places⟩ := ok_of_toOption (show (parse "F(a,\nb) \x7b\n\x7d\n").toOption.map
    (fun out => (Stmt.paramsIn out.program.body).map fun p => (p.byRef, p.span.start)) =
      some [(false, ⟨1, 3, 2⟩), (false, ⟨2, 1, 5⟩)] by decide +kernel)
  have second : (false, ⟨2, 1, 5⟩) ∈ (Stmt.paramsIn out.program.body).map fun p =>
      (p.byRef, p.span.start) := by
    rw [places]
    simp
  obtain ⟨p, member, same⟩ := List.mem_map.mp second
  obtain ⟨byValue, start⟩ := Prod.mk.inj same
  obtain ⟨h, found, type⟩ := always _ out parses p member byValue
  have variable' : (Highlight.at? ⟨2, 1, 5⟩ (Highlight.ofSource "F(a,\nb) \x7b\n\x7d\n")).map
      (·.type) = some .var := by
    decide +kernel
  rw [← start, found, Option.map_some, type] at variable'
  cases variable'

end ScriptLens
