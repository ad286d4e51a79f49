import ScriptLens.Proofs.Lockstep.Statements
import ScriptLens.Proofs.Padding.Tokens
import ScriptLens.Proofs.Shift.Trees

/-!
Parsers before tokens that were moved. They keep in step, and what a rule gives is the same tree
with its spans moved.
-/

namespace ScriptLens

open ParseM ScriptLens.Parser

namespace Kind

theorem isSolid_ne {k l : Kind} (solid : k.isSolid = true) (other : l.isSolid = false) : k ≠ l := by
  rintro rfl
  rw [solid] at other
  cases other

end Kind

namespace Token

theorem pastParens_shifted {σ : Shift} {ts us : List Token} (h : List.Forall₂ (Shifted σ) ts us)
    (depth : Nat) :
    Option.Rel (List.Forall₂ (Shifted σ)) (pastParens depth ts) (pastParens depth us) := by
  induction h generalizing depth with
  | nil => exact .none
  | @cons t u ts us first rest ih =>
      rw [pastParens, pastParens, first.kind]
      split
      · exact ih _
      · split
        · exact .some rest
        · exact ih _
      · exact .none
      · exact .none
      · exact .none
      · exact ih _

/-- Moved tokens are passed over alike. -/
theorem dropFeeds_shifted {σ : Shift} {ts us : List Token} (h : List.Forall₂ (Shifted σ) ts us) :
    List.Forall₂ (Shifted σ)
    (ts.dropWhile (·.kind = .newline)) (us.dropWhile (·.kind = .newline)) := by
  induction h with
  | nil => exact .nil
  | @cons t u ts us first rest ih =>
      rw [List.dropWhile_cons, List.dropWhile_cons, first.kind]
      split
      · exact ih
      · exact .cons first rest

theorem headsDeclaration_shifted {σ : Shift} {ts us : List Token}
    (h : List.Forall₂ (Shifted σ) ts us) :
    headsDeclaration (· = .newline) us = headsDeclaration (· = .newline) ts := by
  cases h with
  | nil => rfl
  | cons named rest =>
      cases rest with
      | nil => rfl
      | cons opened rest =>
          rw [headsDeclaration, headsDeclaration, named.kind, opened.kind]
          have closed := pastParens_shifted rest 1
          generalize pastParens 1 _ = past at closed
          generalize pastParens 1 _ = past' at closed
          cases closed with
          | none => rfl
          | some behind =>
              have next := dropFeeds_shifted behind
              dsimp only
              generalize List.dropWhile _ _ = ts at next
              generalize List.dropWhile _ _ = us at next
              cases next with
              | nil => rfl
              | cons first _ =>
                  dsimp only
                  rw [first.kind]

theorem beforeEnd_shifted {σ : Shift} {ts us : List Token}
    (h : List.Forall₂ (Shifted σ) ts us) :
    List.Forall₂ (Shifted σ) (ts.takeWhile (·.kind != .eof)) (us.takeWhile (·.kind != .eof)) := by
  induction h with
  | nil => exact .nil
  | cons first _ ih =>
      rw [List.takeWhile_cons, List.takeWhile_cons, first.kind]
      split
      · exact .cons first ih
      · exact .nil

end Token

namespace Parser

/-- Two parsers whose tokens ahead are the same up to a shift. -/
structure Moved (σ : Shift) (s t : State) : Prop where
  ahead : List.Forall₂ (Token.Shifted σ) s.ahead t.ahead
  readable : ∀ a ∈ s.ahead, a.kind ≠ .comment ∧ a.kind ≠ .eof
  final : s.final.kind = .eof ∧ t.final.kind = .eof
  last : t.last.stop = s.last.stop.shift σ
  depth : t.depth = s.depth

namespace Moved

variable {σ : Shift} {s t : State}

theorem atDepth (h : Moved σ s t) {d e : Nat} (same : e = d) :
    Moved σ { s with depth := d } { t with depth := e } :=
  ⟨h.ahead, h.readable, h.final, h.last, same⟩

theorem begin (h : Moved σ s t) : Moved σ s.begin t.begin :=
  ⟨h.ahead, h.readable, h.final, h.last, h.depth⟩

theorem peek_kind (h : Moved σ s t) : t.peek.kind = s.peek.kind := by
  have ahead := h.ahead
  rw [State.peek, State.peek]
  generalize s.ahead = ts at ahead
  generalize t.ahead = us at ahead
  cases ahead with
  | nil => exact h.final.2.trans h.final.1.symm
  | cons first _ => exact first.kind

theorem peek (h : Moved σ s t) (solid : s.peek.kind.isSolid = true) : s.peek.Shifted σ t.peek := by
  have ahead := h.ahead
  rw [State.peek] at solid ⊢
  rw [State.peek]
  generalize s.ahead = ts at ahead solid
  generalize t.ahead = us at ahead
  cases ahead with
  | nil => exact absurd h.final.1 (Kind.isSolid_ne solid rfl)
  | cons first _ => exact first

theorem atEnd (h : Moved σ s t) : t.atEnd = s.atEnd := by
  have ahead := h.ahead
  rw [State.atEnd, State.atEnd]
  generalize s.ahead = ts at ahead
  generalize t.ahead = us at ahead
  cases ahead <;> rfl

theorem atFunction (h : Moved σ s t) : t.atFunction = s.atFunction := by
  have ahead := h.ahead
  rw [State.atFunction, State.atFunction]
  generalize s.ahead = ts at ahead
  generalize t.ahead = us at ahead
  cases ahead with
  | nil => rfl
  | cons first rest =>
      dsimp only
      rw [first.kind]
      split
      · exact Token.headsDeclaration_shifted rest
      · exact Token.headsDeclaration_shifted (.cons first rest)

theorem advance (h : Moved σ s t) : Moved σ s.advance t.advance := by
  have ahead := h.ahead
  generalize here : s.ahead = ts at ahead
  generalize there : t.ahead = us at ahead
  cases ahead with
  | nil =>
      rw [State.advance_of_nil here, State.advance_of_nil there]
      exact h
  | @cons a b ts us first rest =>
      have readable := h.readable
      rw [here] at readable
      obtain ⟨known, others⟩ := List.forall_mem_cons.mp readable
      rw [State.advance_of_cons here, State.advance_of_cons there]
      exact ⟨rest, others, h.final, first.stop known.1 known.2, h.depth⟩

theorem advance_last (h : Moved σ s t) (solid : s.peek.kind.isSolid = true) :
    s.advance.last = s.peek ∧ t.advance.last = t.peek := by
  have ahead := h.ahead
  rw [State.peek] at solid ⊢
  rw [State.peek]
  generalize here : s.ahead = ts at ahead solid
  generalize there : t.ahead = us at ahead
  cases ahead with
  | nil => exact absurd h.final.1 (Kind.isSolid_ne solid rfl)
  | cons first _ =>
      rw [State.advance_of_cons here, State.advance_of_cons there]
      exact ⟨rfl, rfl⟩

theorem skipNewlines (h : Moved σ s t) : Moved σ s.skipNewlines t.skipNewlines := by
  have go {ts us : List Token} (ahead : List.Forall₂ (Token.Shifted σ) ts us) : ∀ {s t : State},
      Moved σ s t → Moved σ (State.skipNewlines.go ts s) (State.skipNewlines.go us t) := by
    induction ahead with
    | nil => exact id
    | cons first _ ih =>
        intro s t h
        rw [State.skipNewlines.go, State.skipNewlines.go, first.kind]
        split
        · exact ih h.advance
        · exact h
  exact go h.ahead h

theorem skipLine (h : Moved σ s t) : Moved σ s.skipLine t.skipLine := by
  have go {ts us : List Token} (ahead : List.Forall₂ (Token.Shifted σ) ts us) : ∀ {s t : State},
      Moved σ s t → Moved σ ((ts.takeWhile (·.kind != .newline)).foldl (fun s _ => s.advance) s)
        ((us.takeWhile (·.kind != .newline)).foldl (fun s _ => s.advance) t) := by
    induction ahead with
    | nil => exact id
    | cons first _ ih =>
        intro s t h
        rw [List.takeWhile_cons, List.takeWhile_cons, first.kind]
        split
        · exact ih h.advance
        · exact h
  exact go h.ahead h

theorem synchronize (h : Moved σ s t) : Moved σ s.synchronize t.synchronize := by
  have go {ts us : List Token} (ahead : List.Forall₂ (Token.Shifted σ) ts us) : ∀ {s t : State},
      s.ahead = ts → t.ahead = us → Moved σ s t → Moved σ s.synchronize t.synchronize := by
    induction ahead with
    | nil =>
        intro s t here there h
        rw [State.synchronize, State.synchronize, State.advance_of_nil here,
          State.advance_of_nil there, here, there]
        exact h
    | @cons a b ts us first rest ih =>
        intro s t here there h
        have resumes : us.head?.any (·.kind.resumes) = ts.head?.any (·.kind.resumes) := by
          cases rest with
          | nil => rfl
          | cons next _ =>
              rw [List.head?_cons, List.head?_cons, Option.any_some, Option.any_some, next.kind]
        rw [State.synchronize_of_cons here, State.synchronize_of_cons there, first.kind, resumes]
        split
        · exact h.advance
        · exact ih (by rw [State.advance_of_cons here])
            (by rw [State.advance_of_cons there]) h.advance
  exact go h.ahead rfl rfl h

theorem recover (h : Moved σ s t) (first first' : Token) (e e' : ParseError) :
    Moved σ (s.recover first e) (t.recover first' e') := by
  have reached := h.synchronize
  exact ⟨reached.ahead, reached.readable, reached.final, reached.last, reached.depth⟩

/-- A node over the tokens consumed has its span moved. -/
theorem spanFrom (h : Moved σ s t) {a b : Token} (first : a.Shifted σ b)
    (solid : a.kind.isSolid = true) : t.spanFrom b = (s.spanFrom a).shift σ := by
  have span := first.span solid
  have start : b.start = a.start.shift σ := congrArg Span.start span
  have stop : b.stop = a.stop.shift σ := congrArg Span.stop span
  rw [State.spanFrom, State.spanFrom, h.last, stop, start, span]
  simp only [Position.shift, σ.le_iff]
  split <;> rfl

end Moved

/-- Tokens of a tree are moved as they are, and so are its spans. -/
def movedSides (σ : Shift) : Sides where
  Here := Moved σ
  Late := Moved σ
  Tokens a b := a.kind.isSolid = true ∧ a.Shifted σ b
  Spans a b := b = a.shift σ
  Lines _ _ := True
  Fails _ _ := Moved σ

variable {σ : Shift} {s t : State}

theorem sameLevel_moved : SameLevel (Moved σ) :=
  ⟨Moved.depth, fun _ moved => moved.atDepth rfl⟩

theorem movedSides_levelled : Lockstep.Levelled (movedSides σ) where
  late := id
  closed := Moved.final
  skipNewlines := Moved.skipNewlines
  kind := Moved.peek_kind
  atEnd := Moved.atEnd
  atFunction := Moved.atFunction
  token moved solid := ⟨solid, moved.peek solid⟩
  advance moved _ := moved.advance
  last {s t} moved solid := by
    have consumed := moved.advance_last solid
    rw [consumed.1, consumed.2]
    exact (moved.peek solid).span solid
  lineText _ := trivial
  skipLine := Moved.skipLine
  spanFrom moved first := moved.spanFrom first.2 first.1
  span first := first.2.span first.1
  text first other := first.2.text other (Kind.isSolid_ne first.1 rfl)
  refuse _ := id
  here := sameLevel_moved
  behind := sameLevel_moved
  fails _ _ := sameLevel_moved
  begin := Moved.begin
  recover first first' moved := moved.recover first first' _ _

/-- The same value with its spans moved, by a sketch of it. -/
abbrev Sketched (σ : Shift) {α γ : Type} (sketch : (Span → Span) → α → γ) (a b : α) : Prop :=
  sketch id b = sketch (Span.shift σ) a

/-- Lists whose entries are the same with their spans moved. -/
abbrev SketchedAll (σ : Shift) {α γ : Type} (sketch : (Span → Span) → α → γ) (as bs : List α) :
    Prop :=
  bs.map (sketch id) = as.map (sketch (Span.shift σ))

/-- Trees that are the same with their spans moved. -/
def sketchedParts (σ : Shift) : Parts where
  Exprs := Sketched σ Expr.sketch
  Chains := Sketched σ Stmt.sketchChain
  Stmts := Sketched σ Stmt.sketch

theorem exprShape_sketched : ExprShape (movedSides σ) (sketchedParts σ).Exprs where
  cover {a b a' b'} moved moved' := by
    simp only [movedSides] at *
    rw [moved, moved', Span.cover_shift]
  span {e e'} same := by
    have span := congrArg Expr.span same
    rwa [Expr.span_sketch, Expr.span_sketch] at span
  isTarget {e e'} same := by
    have targets := congrArg Expr.isTarget same
    rwa [Expr.isTarget_sketch, Expr.isTarget_sketch] at targets
  assignment target value moved := by
    simp only [sketchedParts, movedSides, Sketched, Expr.sketch, id] at *
    rw [target, value, moved]
  binary left right moved := by
    simp only [sketchedParts, movedSides, Sketched, Expr.sketch, id] at *
    rw [left, right, moved]
  unary argument moved := by
    simp only [sketchedParts, movedSides, Sketched, Expr.sketch, id] at *
    rw [argument, moved]
  call callee args moved := by
    have listed := map_eq_of_forall₂ args
    simp only [sketchedParts, movedSides, Sketched, Expr.sketch, Expr.sketchAll_eq, id] at *
    rw [callee, listed, moved]
  member object moved := by
    simp only [sketchedParts, movedSides, Sketched, Expr.sketch, id] at *
    rw [object, moved]
  literal value first := by
    simp only [sketchedParts, Sketched, literal, Expr.sketch, id]
    rw [first.2.span first.1]
  name moved := by
    simp only [sketchedParts, movedSides, Sketched, Expr.sketch, id] at *
    rw [moved]

theorem sketched_of_param {p q : Param} (h : (sketchedParts σ).Param (movedSides σ) p q) :
    Sketched σ Param.sketch p q := by
  have given := map_eq_of_rel h.default
  have spans : q.span = p.span.shift σ := h.span
  rw [Sketched, Param.sketch, Param.sketch, h.name, h.byRef, h.variadic, given, spans, id]

theorem sketched_of_alternate {rest rest' : Alternate}
    (h : (sketchedParts σ).Alternate rest rest') : Sketched σ Stmt.sketchAlternate rest rest' := by
  rw [Sketched]
  cases h with
  | absent => rw [Stmt.sketchAlternate, Stmt.sketchAlternate]
  | elseIf next =>
      rw [Stmt.sketchAlternate, Stmt.sketchAlternate]
      exact congrArg Alternate.elseIf next
  | otherwise body =>
      rw [Stmt.sketchAlternate, Stmt.sketchAlternate, Stmt.sketchAll_eq, Stmt.sketchAll_eq,
        map_eq_of_forall₂ body]

theorem sketched_of_chain {c c' : IfChain} (h : (sketchedParts σ).Chain (movedSides σ) c c') :
    Sketched σ Stmt.sketchChain c c' := by
  cases h with
  | @mk test test' _ _ _ _ span span' tested body rest moved =>
      have tests : test'.sketch id = test.sketch (Span.shift σ) := tested
      have further : Stmt.sketchAlternate id _ = Stmt.sketchAlternate _ _ :=
        sketched_of_alternate rest
      have spans : span' = span.shift σ := moved
      rw [Sketched, Stmt.sketchChain, Stmt.sketchChain, Stmt.sketchAll_eq, Stmt.sketchAll_eq, tests,
        map_eq_of_forall₂ body, further, spans, id]

theorem sketched_of_layer {a b : Stmt} (h : (sketchedParts σ).Layer (movedSides σ) a b) :
    Sketched σ Stmt.sketch a b := by
  have exprs {e e' : Expr} (same : (sketchedParts σ).Exprs e e') :
      e'.sketch id = e.sketch (Span.shift σ) := same
  have bodies {body body' : List Stmt} (same : List.Forall₂ (sketchedParts σ).Stmts body body') :
      Stmt.sketchAll id body' = Stmt.sketchAll (Span.shift σ) body := by
    rw [Stmt.sketchAll_eq, Stmt.sketchAll_eq, map_eq_of_forall₂ same]
  have spans {span span' : Span} (moved : (movedSides σ).Spans span span') :
      id span' = span.shift σ := moved
  rw [Sketched]
  cases h with
  | ifs chain =>
      have links : Stmt.sketchChain id _ = Stmt.sketchChain _ _ := sketched_of_chain chain
      rw [Stmt.sketch, Stmt.sketch, links]
  | whileLoop test body span =>
      rw [Stmt.sketch, Stmt.sketch, exprs test, bodies body, spans span]
  | forLoop iterable body span =>
      rw [Stmt.sketch, Stmt.sketch, exprs iterable, bodies body, spans span]
  | loop count body span =>
      rw [Stmt.sketch, Stmt.sketch, map_eq_of_rel count, bodies body, spans span]
  | classDecl at' body span =>
      rw [Stmt.sketch, Stmt.sketch, spans at', bodies body, spans span]
  | function at' params body span =>
      have listed := map_eq_of_forall₂ (params.imp fun _ _ => sketched_of_param)
      rw [Stmt.sketch, Stmt.sketch, spans at', listed, bodies body, spans span]
  | returns argument span =>
      rw [Stmt.sketch, Stmt.sketch, map_eq_of_rel argument, spans span]
  | breaks span => rw [Stmt.sketch, Stmt.sketch, spans span]
  | continues span => rw [Stmt.sketch, Stmt.sketch, spans span]
  | hotkey body span => rw [Stmt.sketch, Stmt.sketch, bodies body, spans span]
  | directive _ span => rw [Stmt.sketch, Stmt.sketch, spans span]
  | expression same =>
      rw [Stmt.sketch, Stmt.sketch, exprs same, spans (exprShape_sketched.span same)]

theorem treeShape_sketched : TreeShape (movedSides σ) (sketchedParts σ) :=
  ⟨exprShape_sketched, sketched_of_chain, sketched_of_layer⟩

/-- Without tokens there are no statements. -/
theorem script_ended (ended : s.ahead = []) : script.run s = (.ok [], s) := by
  have still : s.skipNewlines = s := by
    rw [State.skipNewlines, ended]
    rfl
  have done : s.atEnd = true := by
    rw [State.atEnd, ended]
    rfl
  have step : (statementLink rules State.atEnd []).run s = (.ok ([], false), s) := by
    rw [statementLink, run_bind_ok (run_skipNewlines s), still,
      run_bind_ok (run_get s), if_pos done]
    rfl
  rw [script, statementsUntil, run_bind_ok (run_repeating_stopped step)]
  rfl

namespace State

variable {ts us : List Token} {source source' : String}

theorem ofTokens_ahead (source : String) (tokens : List Token) : (ofTokens source tokens).ahead =
    (tokens.filter (·.kind != .comment)).takeWhile (·.kind != .eof) := by
  change (prepare tokens).takeWhile _ = _
  unfold prepare
  dsimp only
  split
  · next last found =>
      split
      · rfl
      · obtain ⟨front, whole⟩ := List.getLast?_eq_some_iff.mp found
        rw [List.takeWhile_append]
        split
        · next all =>
            rw [List.takeWhile_cons_of_neg (by simp [fallbackEnd]), List.append_nil,
              (List.takeWhile_prefix _).eq_of_length all]
        · rfl
  · next none =>
      rw [List.getLast?_eq_none_iff.mp none]
      rfl

theorem ofTokens_last (source : String) (tokens : List Token) :
    (ofTokens source tokens).last = (ofTokens source tokens).peek := by
  have cursor := cursor_ofTokens source tokens
  exact Option.some.inj (cursor.last.symm.trans cursor.peek)

end State

/-- Parsers of tokens that were moved start alike. -/
theorem moved_ofTokens {ts us : List Token} (source source' : String) (kept : List.Forall₂
      (Token.Shifted σ) (ts.filter (·.kind != .comment)) (us.filter (·.kind != .comment)))
    (going : (State.ofTokens source ts).ahead ≠ []) :
    Moved σ (State.ofTokens source ts) (State.ofTokens source' us) := by
  have ahead : List.Forall₂ (Token.Shifted σ) (State.ofTokens source ts).ahead
      (State.ofTokens source' us).ahead := by
    rw [State.ofTokens_ahead, State.ofTokens_ahead]
    exact Token.beforeEnd_shifted kept
  have readable : ∀ a ∈ (State.ofTokens source ts).ahead, a.kind ≠ .comment ∧ a.kind ≠ .eof := by
    intro a member
    refine ⟨?_, (State.cursor_ofTokens source ts).ahead a member⟩
    rw [State.ofTokens_ahead] at member
    simpa using (List.mem_filter.mp (List.takeWhile_subset _ member)).2
  refine ⟨ahead, readable,
    ⟨(State.cursor_ofTokens source ts).final, (State.cursor_ofTokens source' us).final⟩, ?_, rfl⟩
  rw [State.ofTokens_last, State.ofTokens_last, State.peek, State.peek]
  generalize (State.ofTokens source ts).ahead = here at ahead readable going
  generalize (State.ofTokens source' us).ahead = there at ahead
  cases ahead with
  | nil => exact absurd rfl going
  | @cons a _ _ _ first _ =>
      obtain ⟨text, eof⟩ := readable a List.mem_cons_self
      exact first.stop text eof

end Parser

/-- Moved tokens make the same tree with its spans moved. -/
theorem parseTokens_sketched {σ : Shift} {ts us : List Token} (kept : List.Forall₂ (Token.Shifted σ)
      (ts.filter (·.kind != .comment)) (us.filter (·.kind != .comment)))
    (source source' : String) : SketchedAll σ Stmt.sketch (parseTokens source ts).program.body
      (parseTokens source' us).program.body := by
  rw [parseTokens, parseTokens]
  by_cases ended : (State.ofTokens source ts).ahead = []
  · have ended' : (State.ofTokens source' us).ahead = [] := by
      have ahead := Token.beforeEnd_shifted kept
      rw [← State.ofTokens_ahead source, ← State.ofTokens_ahead source', ended] at ahead
      exact List.forall₂_nil_left_iff.mp ahead
    rw [script_ended ended, script_ended ended']
    rfl
  · have run := movedSides_levelled.script_alike treeShape_sketched _ _
      (moved_ofTokens source source' kept ended)
    generalize script.run (State.ofTokens source ts) = here at run
    generalize script.run (State.ofTokens source' us) = there at run
    cases run with
    | ok same => exact map_eq_of_forall₂ same.1
    | failed _ => rfl

end ScriptLens
