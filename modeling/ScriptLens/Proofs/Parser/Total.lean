import ScriptLens.Proofs.Parser.Tally
import Mathlib.Data.List.Perm.Subperm

/-!
The parser on any list of tokens: it reads all of them, one guarded step after another, and ends at
an end mark with no more statements than there are tokens to start them.
-/

namespace ScriptLens.Parser

open ParseM

variable {α : Type} {inner : Level}

/-- The loops of the grammar, each with its step. -/
inductive GrammarLoop : {α : Type} → (α → ParseM (α × Bool)) → Prop
  | arguments : GrammarLoop (itemLink (expression rules))
  | parameters : GrammarLoop (itemLink (param rules))
  | postfixed : GrammarLoop (postfixLink rules)
  | factor : GrammarLoop (binaryLink factorOp? (unary rules))
  | term : GrammarLoop (binaryLink termOp? (Parser.factor rules))
  | comparison : GrammarLoop (binaryLink comparisonOp? (Parser.term rules))
  | equality : GrammarLoop (binaryLink equalityOp? (Parser.comparison rules))
  | conjunction : GrammarLoop (binaryLink andOp? (Parser.equality rules))
  | disjunction : GrammarLoop (binaryLink orOp? (Parser.conjunction rules))
  | names : GrammarLoop variableLink
  | script : GrammarLoop (statementLink rules State.atEnd)
  | block : GrammarLoop (statementLink rules fun s => s.atEnd || s.check .rBrace)
  | body (atHotkey : Bool) : GrammarLoop (statementLink rules (endsBody atHotkey))

theorem statementLink_progresses (h : inner.Tallies) {stop : State → Bool}
    (ends : ∀ s, s.atEnd = true → stop s = true) (body : List Stmt) :
    Progresses (statementLink inner stop body) := by
  intro s closed c t run
  rw [statementLink, run_bind_ok (run_skipNewlines s), run_bind_ok (run_get s.skipNewlines)] at run
  have quiet : Walk false s s.skipNewlines := s.walk_skipNewlines
  cases stopped : stop s.skipNewlines with
  | true =>
      rw [stopped, if_pos rfl] at run
      cases run
  | false =>
      obtain ⟨stmt, u, first⟩ := recovered_ok inner s.skipNewlines
      rw [stopped, if_neg Bool.false_ne_true, run_bind_ok first] at run
      cases run
      have shorter :=
        recovered_shorter h (closed.walk quiet) (State.ahead_ne_nil_of_stop ends stopped)
      rw [first] at shorter
      exact Nat.lt_of_lt_of_le shorter quiet.length_le

theorem endsBlock_atEnd (s : State) (atEnd : s.atEnd = true) :
    (s.atEnd || s.check .rBrace) = true := by
  rw [atEnd]
  rfl

theorem GrammarLoop.progresses {step : α → ParseM (α × Bool)} (h : GrammarLoop step) (a : α) :
    Progresses (step a) := by
  have hr := rules_returns
  cases h with
  | arguments => exact itemLink_progresses (expression_returns hr) a
  | parameters => exact itemLink_progresses (param_returns hr) a
  | postfixed => exact postfixLink_progresses hr a
  | factor => exact binaryLink_progresses (unary_returns hr) rfl a
  | term => exact binaryLink_progresses (factor_returns hr) rfl a
  | comparison => exact binaryLink_progresses (term_returns hr) rfl a
  | equality => exact binaryLink_progresses (comparison_returns hr) rfl a
  | conjunction => exact binaryLink_progresses (equality_returns hr) rfl a
  | disjunction => exact binaryLink_progresses (conjunction_returns hr) rfl a
  | names => exact variableLink_progresses a
  | script => exact statementLink_progresses rules_tallies (fun _ => id) a
  | block => exact statementLink_progresses rules_tallies endsBlock_atEnd a
  | body atHotkey => exact statementLink_progresses rules_tallies (endsBody_atEnd atHotkey) a

theorem GrammarLoop.climbs {step : α → ParseM (α × Bool)} (h : GrammarLoop step) (a : α) :
    Climbs true (step a) := by
  have hr := rules_returns
  cases h with
  | arguments => exact (itemLink_returns (expression_returns hr).loud a).climbs
  | parameters => exact (itemLink_returns (param_returns hr).loud a).climbs
  | postfixed => exact (postfixLink_climbs hr a).loud
  | factor => exact (binaryLink_climbs (unary_returns hr) a).loud
  | term => exact (binaryLink_climbs (factor_returns hr) a).loud
  | comparison => exact (binaryLink_climbs (term_returns hr) a).loud
  | equality => exact (binaryLink_climbs (comparison_returns hr) a).loud
  | conjunction => exact (binaryLink_climbs (equality_returns hr) a).loud
  | disjunction => exact (binaryLink_climbs (conjunction_returns hr) a).loud
  | names => exact (variableLink_returns a).loud.climbs
  | script => exact (statementLink_returns hr _ a).climbs
  | block => exact (statementLink_returns hr _ a).climbs
  | body atHotkey => exact (statementLink_returns hr _ a).climbs

/-- Every loop of the grammar is run to its own end. -/
theorem GrammarLoop.loops {step : α → ParseM (α × Bool)} (h : GrammarLoop step) (a : α) {s : State}
    (closed : s.Closed) : Loops step a s ((repeating step a).run s) :=
  loops_of_progresses h.progresses h.climbs a closed

/-- Reading statements never fails and ends only where the condition holds. -/
theorem loops_statementLink {stop : State → Bool} {body : List Stmt} {s : State}
    {outcome : Except ParseError (List Stmt) × State}
    (h : Loops (statementLink inner stop) body s outcome) :
    ∃ stmts t, outcome = (.ok stmts, t) ∧ stop t = true := by
  induction h with
  | @failed body s t e run =>
      rw [statementLink, run_bind_ok (run_skipNewlines s),
        run_bind_ok (run_get s.skipNewlines)] at run
      split at run
      · cases run
      · obtain ⟨stmt, u, first⟩ := recovered_ok inner s.skipNewlines
        rw [run_bind_ok first] at run
        cases run
  | @stopped body s t c run =>
      rw [statementLink, run_bind_ok (run_skipNewlines s),
        run_bind_ok (run_get s.skipNewlines)] at run
      split at run
      · next here =>
          cases run
          exact ⟨body, _, rfl, here⟩
      · obtain ⟨stmt, u, first⟩ := recovered_ok inner s.skipNewlines
        rw [run_bind_ok first] at run
        cases run
  | again _ _ ih => exact ih

theorem script_ok {s : State} (closed : s.Closed) :
    ∃ body t, script.run s = (.ok body, t) ∧ t.atEnd = true := by
  obtain ⟨stmts, t, run, atEnd⟩ := loops_statementLink (GrammarLoop.script.loops [] closed)
  refine ⟨stmts.reverse, t, ?_, atEnd⟩
  rw [script, statementsUntil, run_bind_ok run]
  rfl

/-- The places, counted in tokens ahead, at which a token other than a line break stands. -/
def solidPlaces : List Token → List Nat
  | [] => []
  | t :: rest =>
      if t.kind = .newline then solidPlaces rest else (rest.length + 1) :: solidPlaces rest

theorem length_solidPlaces (tokens : List Token) :
    (solidPlaces tokens).length = tokens.countP (·.kind ≠ .newline) := by
  induction tokens with
  | nil => rfl
  | cons t rest ih => by_cases h : t.kind = .newline <;> simp [solidPlaces, h, ih]

theorem SolidAt.mem {tokens : List Token} {n : Nat} (h : SolidAt tokens n) :
    n ∈ solidPlaces tokens := by
  obtain ⟨first, behind, suffix, size, solid⟩ := h
  induction tokens with
  | nil => simp at suffix
  | cons t rest ih =>
      rcases List.suffix_cons_iff.mp suffix with whole | inside
      · cases whole
        simp [solidPlaces, solid, size]
      · by_cases h : t.kind = .newline <;> simp [solidPlaces, h, ih inside]

/-- Starts of statements are paid for by tokens that are no line breaks. -/
theorem Logged.paid {k : Nat} {s t : State} (h : Logged (s.ahead.length + 1) k s t) :
    k + t.skipped.length ≤ s.skipped.length + s.ahead.countP (·.kind ≠ .newline) := by
  obtain ⟨starts, -, paid, sorted, each⟩ := h.noted
  have distinct : starts.Nodup := sorted.imp fun less => Nat.ne_of_lt less
  have inside : starts ⊆ solidPlaces s.ahead := fun n member => (each n member).2.2.mem
  have fewer := (distinct.subperm inside).length_le
  rw [length_solidPlaces] at fewer
  omega

/-- Whether a token can start a statement. -/
def mayStart (t : Token) : Bool := t.kind != .comment && t.kind != .newline && t.kind != .eof

theorem State.countP_prepare (tokens : List Token) :
    (State.prepare tokens).countP mayStart = tokens.countP mayStart := by
  have kept : (tokens.filter (·.kind != .comment)).countP mayStart = tokens.countP mayStart := by
    rw [List.countP_filter]
    refine List.countP_congr fun t _ => ?_
    simp only [mayStart, Bool.and_eq_true]
    tauto
  have closed : [State.fallbackEnd].countP mayStart = 0 := rfl
  unfold State.prepare
  dsimp only
  split
  · split
    · exact kept
    · rw [List.countP_append, closed, kept]
      rfl
  · next nothing =>
      rw [List.getLast?_eq_none_iff.mp nothing] at kept
      rw [closed, ← kept]
      rfl

theorem State.prepare_kept {tokens : List Token} {t : Token} (h : t ∈ State.prepare tokens) :
    t.kind ≠ .comment := by
  have fallback : State.fallbackEnd.kind ≠ .comment := by decide
  have kept {u : Token} (hu : u ∈ tokens.filter (·.kind != .comment)) : u.kind ≠ .comment := by
    simpa using (List.mem_filter.mp hu).2
  unfold State.prepare at h
  dsimp only at h
  split at h
  · split at h
    · exact kept h
    · rcases List.mem_append.mp h with inside | last
      · exact kept inside
      · rw [List.mem_singleton.mp last]
        exact fallback
  · rw [List.mem_singleton.mp h]
    exact fallback

theorem State.countP_ofTokens (source : String) (tokens : List Token) :
    (State.ofTokens source tokens).ahead.countP (·.kind ≠ .newline) ≤ tokens.countP mayStart := by
  rw [← State.countP_prepare tokens]
  have inside : (State.ofTokens source tokens).ahead.Sublist (State.prepare tokens) :=
    (List.takeWhile_prefix _).sublist
  refine Nat.le_trans ?_ (inside.countP_le)
  refine List.countP_mono_left fun t member solid => ?_
  have ending := (State.cursor_ofTokens source tokens).ahead t member
  have kept : t.kind ≠ .comment := State.prepare_kept (inside.subset member)
  simpa [mayStart, kept, ending] using solid

/-- The look-ahead for the parenthesis that closes a declaration's parameters, with a count of open
ones that must not fall below zero: `none` where it would. -/
def closing? : Nat → List Token → Option (Option (List Token))
  | _, [] => some none
  | opened, t :: rest =>
    match t.kind with
    | .lParen => closing? (opened + 1) rest
    | .rParen =>
      if opened = 0 then none
      else if opened ≤ 1 then some (some rest) else closing? (opened - 1) rest
    | .lBrace | .rBrace | .eof => some none
    | _ => closing? opened rest

theorem closing?_succ (opened : Nat) (tokens : List Token) :
    closing? (opened + 1) tokens = some (Token.pastParens (opened + 1) tokens) := by
  induction tokens generalizing opened with
  | nil => rfl
  | cons t rest ih =>
      rw [closing?, Token.pastParens]
      generalize t.kind = kind
      cases kind
      case lParen => exact ih (opened + 1)
      case rParen =>
        cases opened with
        | zero => rfl
        | succ more => simpa using ih more
      all_goals first | rfl | exact ih opened

theorem parseTokens_of_run {source : String} {tokens : List Token} {body : List Stmt}
    {final : State} (run : script.run (.ofTokens source tokens) = (.ok body, final)) :
    (parseTokens source tokens).program.body = body ∧
      (parseTokens source tokens).skipped = final.skipped.reverse := by
  rw [parseTokens, run]
  exact ⟨rfl, rfl⟩

/-- What the parser does with a list of tokens: the statements it gives and the state it ends in. -/
structure Finishes (source : String) (tokens : List Token) (body : List Stmt)
    (final : State) : Prop where
  /-- The rules are those of the grammar, with no recursion cut short. -/
  recursion : rules = layer rules
  /-- No loop is cut short either. -/
  loops : ∀ {α : Type} {step : α → ParseM (α × Bool)}, GrammarLoop step → ∀ (a : α) (s : State),
    s.Closed → Loops step a s ((repeating step a).run s)
  result : script.run (.ofTokens source tokens) = (.ok body, final)
  output : (parseTokens source tokens).program.body = body ∧
    (parseTokens source tokens).skipped = final.skipped.reverse
  walk : Walk true (.ofTokens source tokens) final
  /-- Wherever guarded steps lead, the token at the index and the one before it exist, and the depth
  is within its limit. -/
  inRange : ∀ s, Walk true (.ofTokens source tokens) s →
    Cursor (State.prepare tokens) ((State.ofTokens source tokens).ahead.length - s.ahead.length) s ∧
      s.depth ≤ maxDepth
  /-- Rules give back the levels they took, so no level is given back twice. -/
  balanced : rules.Returns
  lookahead : ∀ opening rest, opening.kind = .lParen →
    closing? 0 (opening :: rest) = some (Token.pastParens 1 rest)
  atEnd : final.peek.kind = .eof
  forward : ∀ s, Walk true (.ofTokens source tokens) s → s.atEnd = false →
    ((recovered rules).run s).2.ahead.length < s.ahead.length
  distinct : final.begun.Pairwise (· < ·)
  counted : Stmt.total body + final.skipped.length ≤ tokens.countP mayStart

/-- The parser finishes on every list of tokens. -/
theorem parseTokens_finishes (source : String) (tokens : List Token) :
    ∃ body final, Finishes source tokens body final := by
  have start := State.cursor_ofTokens source tokens
  obtain ⟨body, final, run, atEnd⟩ := script_ok start.final
  have walk : Walk true (.ofTokens source tokens) final := by
    have whole := (statementsUntil_returns rules_returns State.atEnd (.ofTokens source tokens)).1
    rw [← script, run] at whole
    exact whole
  have inRange : ∀ s, Walk true (.ofTokens source tokens) s → Cursor (State.prepare tokens)
      ((State.ofTokens source tokens).ahead.length - s.ahead.length) s := by
    intro s there
    simpa using start.walk there
  have logged :=
    statementsUntil_tallies rules_tallies (fun _ => id) (.ofTokens source tokens) start.final
  rw [← script, run] at logged
  refine ⟨body, final, ?_⟩
  refine
    { recursion := rules_eq_layer
      loops := fun loop a s closed => loop.loops a closed
      result := run
      output := parseTokens_of_run run
      walk := walk
      inRange := fun s there => ⟨inRange s there, there.depth_le (Nat.zero_le _)⟩
      balanced := rules_returns
      lookahead := ?_
      atEnd := (inRange final walk).atEnd_iff.mp atEnd
      forward := ?_
      distinct := ?_
      counted := ?_ }
  · intro opening rest kind
    rw [closing?, kind]
    exact closing?_succ 0 rest
  · intro s there going
    exact recovered_shorter rules_tallies (inRange s there).final
      (State.ahead_ne_nil_of_stop (fun _ => id) going)
  · obtain ⟨starts, begun, _, sorted, _⟩ := logged.noted
    rw [begun]
    simpa [State.ofTokens] using sorted
  · have paid := logged.paid
    have fewer := State.countP_ofTokens source tokens
    have none : (State.ofTokens source tokens).skipped.length = 0 := rfl
    have weight : weigh Stmt.total (.ok body) = Stmt.total body := rfl
    dsimp only at paid
    omega

end ScriptLens.Parser
