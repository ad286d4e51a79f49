import ScriptLens.Proofs.Spans.Script

/-!
Nothing is lost without a trace. The top level of a script divides into line breaks, the tokens of
each statement that was kept and the tokens of each one that was dropped; the spans of statements
run over their tokens, but an expression statement leaves out the parentheses at the edges of its
expression.
-/

namespace ScriptLens

open Piece ParseM

instance {a b : Span} : Decidable (a.Contains b) := inferInstanceAs (Decidable (_ ∧ _))

namespace Parser

/-- The top level from a state on, portion by portion; a portion is what the rule for statements
consumes. -/
inductive Portions : State → List Stmt → List Skipped → Prop
  | done {s} : s.ahead = [] → Portions s [] []
  | newline {s t rest body skipped} : s.ahead = t :: rest → t.kind = .newline →
      Portions s.advance body skipped → Portions s body skipped
  | kept {s t stmt opens core closes inner body skipped} :
      (recovered rules).run s = (.ok (some stmt), t) →
      s.ahead = opens ++ core ++ closes ++ t.ahead → stmt.span.Over core →
      (∀ t ∈ opens, t.kind = .lParen) →
      (∀ t ∈ closes, t.kind = .rParen) → (stmt.isExpression = false → opens = [] ∧ closes = []) →
      Portions t body skipped → Portions s (stmt :: body) (inner ++ skipped)
  | dropped {s t portion inner entry body skipped} : (recovered rules).run s = (.ok none, t) →
      s.ahead = portion ++ t.ahead → entry.span.Over portion → Portions t body skipped →
      Portions s body (inner ++ entry :: skipped)

variable {s t : State} {body : List Stmt} {skipped : List Skipped}

theorem Portions.skipNewlines (h : Portions s.skipNewlines body skipped) :
    Portions s body skipped := by
  have go (ts : List Token) (s : State) (ahead : s.ahead = ts)
      (h : Portions (State.skipNewlines.go ts s) body skipped) : Portions s body skipped := by
    induction ts generalizing s with
    | nil => exact h
    | cons t rest ih =>
        rw [State.skipNewlines.go] at h
        split at h
        · next kind =>
            have next : s.advance.ahead = rest := by rw [State.advance_of_cons ahead]
            exact .newline ahead kind (ih s.advance next h)
        · exact h
  exact go s.ahead s rfl h

theorem Portions.recovered {stmt : Option Stmt} {ps : List Piece} (rest : Portions t body skipped)
    (run : (recovered rules).run s = (.ok stmt, t)) (laid : Laid s ps t)
    (settles : Settles stmt ps) : Portions s (stmt.toList ++ body) (entries ps ++ skipped) := by
  cases stmt with
  | some stmt =>
      have stands : Stands stmt ps := settles
      obtain ⟨opens, core, closes, rfl, before, behind, _⟩ := stands.shape
      refine .kept run ?_ laid.sound.covers before behind ?_ rest
      · rw [laid.ahead]
        simp
      · intro other
        obtain ⟨parts, same⟩ := stands.flush other
        cases opens with
        | nil =>
            refine ⟨rfl, ?_⟩
            simpa using congrArg List.tail same
        | cons t opens => simp at same
  | none =>
      obtain ⟨⟨parts, beyond, entry, rfl⟩, _⟩ := settles
      have covers : entry.span.Over (leaves parts ++ beyond) := by
        cases laid.sound with
        | dropped covers _ _ _ => exact covers
      have ahead : s.ahead = leaves parts ++ beyond ++ t.ahead := by
        rw [laid.ahead]
        simp
      have whole : Portions s body (entries parts ++ entry :: skipped) :=
        .dropped run ahead covers rest
      simpa using whole

/-- The loop over the top level goes from portion to portion. -/
theorem loops_portions {stmts : List Stmt} {outcome : Except ParseError (List Stmt) × State}
    (h : Loops (statementLink rules State.atEnd) stmts s outcome) (orderly : s.Orderly) :
    ∃ body skipped t, outcome = (.ok (body.reverse ++ stmts), t) ∧
    t.skipped = skipped.reverse ++ s.skipped ∧ Portions s body skipped := by
  induction h with
  | @failed stmts s t e run =>
      obtain ⟨next, u, ran⟩ := statementLink_ok rules State.atEnd stmts s
      rw [run] at ran
      cases ran
  | @stopped stmts s t c run =>
      have quiet : Walk false s s.skipNewlines := s.walk_skipNewlines
      rw [statementLink, run_bind_ok (run_skipNewlines s),
        run_bind_ok (run_get s.skipNewlines)] at run
      split at run
      · next atEnd =>
          cases run
          refine ⟨[], [], _, rfl, quiet.skipped, ?_⟩
          exact Portions.skipNewlines (.done (List.isEmpty_iff.mp atEnd))
      · obtain ⟨stmt, u, ran⟩ := recovered_ok rules s.skipNewlines
        rw [run_bind_ok ran] at run
        cases run
  | @again stmts s t c outcome run _ ih =>
      have quiet : Walk false s s.skipNewlines := s.walk_skipNewlines
      obtain ⟨ts, newlines, laid⟩ := Laid.skipNewlines_go s
      have orderly' : s.skipNewlines.Orderly := laid.orderly orderly
      rw [statementLink, run_bind_ok (run_skipNewlines s),
        run_bind_ok (run_get s.skipNewlines)] at run
      split at run
      · cases run
      · next going =>
          have nonempty : s.skipNewlines.ahead ≠ [] := by
            intro nothing
            exact going (List.isEmpty_iff.mpr nothing)
          have ends := recovered_ends rules_stands orderly' nonempty
          obtain ⟨stmt, u, ran⟩ := recovered_ok rules s.skipNewlines
          rw [run_bind_ok ran] at run
          rw [ran] at ends
          obtain ⟨ps, laid', settles⟩ := ends
          cases run
          obtain ⟨body, skipped, v, rfl, dropped, portions⟩ := ih (laid'.orderly orderly')
          refine ⟨stmt.toList ++ body, entries ps ++ skipped, v, ?_, ?_, ?_⟩
          · cases stmt <;> simp
          · rw [dropped, laid'.skipped, quiet.skipped]
            simp
          · exact (portions.recovered ran laid' settles).skipNewlines

/-- A token at an edge of an expression statement, outside its span. -/
def AtEdge (body : List Stmt) (t : Token) : Prop :=
  ∃ stmt ∈ body, stmt.isExpression = true ∧
    (t.kind = .lParen ∧ t.span.Before stmt.span ∨ t.kind = .rParen ∧ stmt.span.Before t.span)

/-- Where a token is found again: a line break, in a statement, in a dropped one, or a parenthesis
at an edge. -/
def Kept (body : List Stmt) (skipped : List Skipped) (t : Token) : Prop :=
  t.kind = .newline ∨ (∃ stmt ∈ body, stmt.span.Contains t.span) ∨
    (∃ e ∈ skipped, e.span.Contains t.span) ∨ AtEdge body t

theorem Kept.mono {more : List Stmt} {others : List Skipped} {t : Token} (h : Kept body skipped t)
    (sub : body ⊆ more) (sub' : skipped ⊆ others) : Kept more others t := by
  rcases h with newline | ⟨stmt, member, inside⟩ | ⟨e, member, inside⟩ | ⟨stmt, member, edge⟩
  · exact .inl newline
  · exact .inr (.inl ⟨stmt, sub member, inside⟩)
  · exact .inr (.inr (.inl ⟨e, sub' member, inside⟩))
  · exact .inr (.inr (.inr ⟨stmt, sub member, edge⟩))

theorem within_of_mem {ts : List Token} {t : Token} (member : t ∈ ts) : t.span.Within ts := by
  obtain ⟨front, back, rfl⟩ := List.append_of_mem member
  exact ⟨[t], ⟨front, back, by simp⟩, Span.over_token t⟩

theorem kept_of_statement {stmt : Stmt} {opens core closes : List Token}
    (order : InOrder (opens ++ core ++ closes)) (covers : stmt.span.Over core)
    (before : ∀ t ∈ opens, t.kind = .lParen) (behind : ∀ t ∈ closes, t.kind = .rParen)
    (flush : stmt.isExpression = false → opens = [] ∧ closes = []) :
    ∀ t ∈ opens ++ core ++ closes, Kept [stmt] [] t := by
  have expression {t : Token} (edge : t ∈ opens ∨ t ∈ closes) : stmt.isExpression = true := by
    cases plain : stmt.isExpression with
    | true => rfl
    | false =>
        obtain ⟨none, none'⟩ := flush plain
        subst none none'
        rcases edge with edge | edge <;> cases edge
  intro t member
  rcases List.mem_append.mp member with front | closing
  · rcases List.mem_append.mp front with opening | inside
    · have apart := (within_of_mem opening).before order.left covers.within
      exact .inr
        (.inr (.inr ⟨stmt, by simp, expression (.inl opening), .inl ⟨before t opening, apart⟩⟩))
    · have contains := covers.contains order.left.right (within_of_mem inside)
      exact .inr (.inl ⟨stmt, by simp, contains⟩)
  · have apart := covers.within.right.before order (within_of_mem closing)
    exact .inr
      (.inr (.inr ⟨stmt, by simp, expression (.inr closing), .inr ⟨behind t closing, apart⟩⟩))

/-- Every token of the top level is found again. -/
theorem Portions.kept_of_mem (h : Portions s body skipped) (order : InOrder s.ahead) :
    ∀ t ∈ s.ahead, Kept body skipped t := by
  induction h with
  | done nothing =>
      intro t member
      rw [nothing] at member
      cases member
  | @newline s first rest body skipped ahead kind _ ih =>
      have next : s.advance.ahead = rest := by rw [State.advance_of_cons ahead]
      rw [ahead, ← List.singleton_append] at order
      rw [next] at ih
      intro t member
      rw [ahead] at member
      rcases List.mem_cons.mp member with rfl | later
      · exact .inl kind
      · exact ih order.right t later
  | @kept s t stmt opens core closes inner body skipped _ ahead covers before behind flush _ ih =>
      rw [ahead] at order
      intro u member
      rw [ahead] at member
      rcases List.mem_append.mp member with portion | later
      · exact (kept_of_statement order.left covers before behind flush u portion).mono
          (by simp) (by simp)
      · exact (ih order.right u later).mono (by simp) (by simp)
  | @dropped s t portion inner entry body skipped _ ahead covers _ ih =>
      rw [ahead] at order
      intro u member
      rw [ahead] at member
      rcases List.mem_append.mp member with inside | later
      · have contains := covers.contains order.left (within_of_mem inside)
        exact .inr (.inr (.inl ⟨entry, by simp, contains⟩))
      · apply (ih order.right u later).mono (List.Subset.refl _)
        intro e known
        simp [known]

end Parser

/-- The top level of a script, portion by portion, and where each of its tokens is found again. -/
theorem parse_portions {source : String} {out : ParseOutput} (h : parse source = .ok out) :
    ∃ tokens, tokenize source = .ok tokens ∧
      Parser.Portions (.ofTokens source tokens) out.program.body out.skipped ∧ ∀ t ∈ tokens,
      t.kind ≠ .comment → t.kind ≠ .eof → Parser.Kept out.program.body out.skipped t := by
  obtain ⟨tokens, read, rfl⟩ := parse_eq_ok h
  obtain ⟨front, last, rfl, scanned⟩ := tokenize_scanned read
  obtain ⟨_, ahead, _⟩ := Parser.State.ofTokens_split source scanned.closing scanned.others
  have loops := Parser.GrammarLoop.script.loops [] scanned.orderly.closed
  obtain ⟨body, skipped, t, ran, dropped, portions⟩ := Parser.loops_portions loops scanned.orderly
  have run : Parser.script.run (.ofTokens source (front ++ [last])) = (.ok body, t) := by
    rw [Parser.script, Parser.statementsUntil, run_bind_ok ran]
    simp
  obtain ⟨same, listed⟩ := Parser.parseTokens_of_run run
  have entries : t.skipped.reverse = skipped := by
    rw [dropped]
    simp [Parser.State.ofTokens]
  rw [same, listed, entries]
  refine ⟨front ++ [last], read, portions, ?_⟩
  intro u member noComment going
  have inside : u ∈ (Parser.State.ofTokens source (front ++ [last])).ahead := by
    rw [ahead, List.mem_filter]
    rcases List.mem_append.mp member with inFront | final
    · exact ⟨inFront, by simpa using noComment⟩
    · rw [List.mem_singleton.mp final] at going
      exact absurd scanned.closing going
  exact portions.kept_of_mem scanned.orderly.order u inside

/-- A statement in parentheses, one with parentheses inside, and one that is dropped. -/
theorem parse_portions_sample : ∃ out, parse "((a) + b)\nreturn (c)\n)\n" = .ok out ∧
    out.program.body.map (fun s => (s.span.start.offset, s.span.stop.offset)) = [(2, 8), (10, 20)] ∧
    ∃ tokens, tokenize "((a) + b)\nreturn (c)\n)\n" = .ok tokens ∧
      Parser.Portions (.ofTokens "((a) + b)\nreturn (c)\n)\n" tokens) out.program.body out.skipped ∧
      ∀ t ∈ tokens, t.kind ≠ .comment → t.kind ≠ .eof →
      Parser.Kept out.program.body out.skipped t := by
  obtain ⟨out, parsed, spans⟩ :=
    ok_of_toOption (show (parse "((a) + b)\nreturn (c)\n)\n").toOption.map
    (fun out => out.program.body.map fun s => (s.span.start.offset, s.span.stop.offset)) =
      some [(2, 8), (10, 20)] by decide +kernel)
  exact ⟨out, parsed, spans, parse_portions parsed⟩

/-- The parentheses around an expression are in no span. -/
theorem parse_leaves_parens_out : ¬∀ (source : String) (tokens : List Token) (out : ParseOutput),
    tokenize source = .ok tokens → parse source = .ok out →
    ∀ t ∈ tokens, t.kind ≠ .comment → t.kind ≠ .newline → t.kind ≠ .eof →
      (∃ stmt ∈ out.program.body, stmt.span.Contains t.span) ∨ ∃ e ∈ out.skipped,
      e.span.Contains t.span := by
  intro covered
  have read : tokenize "(a)\n" = .ok
      [⟨.lParen, "(", ⟨1, 1, 0⟩, ⟨1, 2, 1⟩⟩, ⟨.identifier, "a", ⟨1, 2, 1⟩, ⟨1, 3, 2⟩⟩,
        ⟨.rParen, ")", ⟨1, 3, 2⟩, ⟨1, 4, 3⟩⟩, ⟨.newline, "\n", ⟨1, 4, 3⟩, ⟨2, 1, 4⟩⟩,
        ⟨.eof, "", ⟨2, 1, 4⟩, ⟨2, 1, 4⟩⟩] := by
    decide +kernel
  obtain ⟨out, parsed, given⟩ := ok_of_toOption (show (parse "(a)\n").toOption.map
    (fun out => (out.program.body.map Stmt.span, out.skipped)) =
    some ([⟨⟨1, 2, 1⟩, ⟨1, 3, 2⟩⟩], []) by decide +kernel)
  obtain ⟨spans, none⟩ := Prod.mk.inj given
  rcases covered _ _ out read parsed _ List.mem_cons_self (by decide) (by decide) (by decide) with
    ⟨stmt, member, contains⟩ | ⟨e, member, _⟩
  · have known : stmt.span ∈ out.program.body.map Stmt.span := List.mem_map_of_mem member
    rw [spans, List.mem_singleton] at known
    rw [known] at contains
    exact absurd contains (by decide)
  · rw [none] at member
    cases member

end ScriptLens
