import ScriptLens.Lint.Brackets
import ScriptLens.Proofs.Parser.Total
import ScriptLens.Proofs.Recovery.Abreast
import ScriptLens.Proofs.Spans.Script

/-!
Lines read one by one and lines read together. The loop over the statements of a script goes from
line to line: over each line it takes the statements and drops the statements that the line gives on
its own, unless it runs deeper and meets the depth limit.
-/

namespace ScriptLens

open ParseM ScriptLens.Parser

/-- A line that can be scanned on its own, closes its parentheses, and holds nothing through which a
statement may reach beyond it. -/
structure SelfContained (line : String) : Prop extends Lexes line where
  parens : Lint.Bracket.paren.findings (scan line).tokens = []
  stays : ∀ t ∈ (scan line).tokens, t.kind.crosses = false

/-- Lines behind a text, read one by one: the statements and the dropped statements of each, at its
place. -/
def readLines (before : List Char) : List String → Except LexError (List Stmt × List Skipped)
  | [] => .ok ([], [])
  | line :: rest => do
    let out ← parse line
    let (body, skipped) ← readLines (before ++ line.toList) rest
    return (out.program.body.map (Stmt.behind before) ++ body,
      out.skipped.map (Skipped.behind before) ++ skipped)

/-- Matched parentheses close on the line, with those that wait on the stack. -/
theorem onLine_of_pair {core : List Token} {final last : Token} (feed : final.kind = .newline)
    (eof : last.kind = .eof) (none : ∀ t ∈ core, t.kind ≠ .newline)
    (stays : ∀ t ∈ core, t.kind.crosses = false) {stack : List Token}
    (paired : Lint.Bracket.paren.pair stack (core ++ [final] ++ [last]) = ([], [])) :
    OnLine stack.length ((core ++ [final]).filter (·.kind != .comment)) := by
  -- by induction on the line; the parentheses on the stack are those that are open
  induction core generalizing stack with
  | nil =>
      have empty : stack = [] := by
        rw [List.nil_append, List.singleton_append, Lint.Bracket.pair_other (by simp [feed,
          Lint.Bracket.opening]) (by simp [feed, Lint.Bracket.closing]), Lint.Bracket.pair_other
          (by simp [eof, Lint.Bracket.opening]) (by simp [eof, Lint.Bracket.closing])] at paired
        exact congrArg Prod.snd paired
      simp [OnLine, feed, empty]
  | cons t core ih =>
      have next := fun {stack} => @ih (fun u member => none u (List.mem_cons_of_mem t member))
        (fun u member => stays u (List.mem_cons_of_mem t member)) stack
      have other := none t List.mem_cons_self
      have here := stays t List.mem_cons_self
      rw [List.cons_append, List.cons_append] at paired
      rw [List.cons_append]
      by_cases opens : t.kind = .lParen
      · rw [Lint.Bracket.pair_opening opens] at paired
        have inside := next paired
        rw [List.filter_cons_of_pos (by simp [opens]), OnLine, if_neg other, opens]
        exact ⟨rfl, by simp, inside⟩
      by_cases closes : t.kind = .rParen
      · cases stack with
        | nil =>
            rw [Lint.Bracket.pair_closing_unmatched closes] at paired
            cases paired
        | cons first stack =>
            rw [Lint.Bracket.pair_closing closes] at paired
            rw [List.filter_cons_of_pos (by simp [closes]), OnLine, if_neg other, closes]
            exact ⟨rfl, fun _ => Nat.succ_pos _, next paired⟩
      rw [Lint.Bracket.pair_other opens closes] at paired
      by_cases comment : t.kind = .comment
      · rw [List.filter_cons_of_neg (by simp [comment])]
        exact next paired
      · have inert : t.kind.isInert = true := by
          revert opens closes other
          cases t.kind <;> simp [Kind.isInert]
        rw [List.filter_cons_of_pos (by simp [comment]), OnLine, if_neg other,
          Kind.opened_of_isInert inert]
        exact ⟨here, fun same => absurd same closes, next paired⟩

/-- A script that is read, with the loop over its statements laid open. -/
structure ScriptRun (source : String) (front : List Token) (out : ParseOutput) (s : State)
    (stmts : List Stmt) (last : State) : Prop where
  ahead : s.ahead = front.filter (·.kind != .comment)
  text : s.source = source.toList
  depth : s.depth = 0
  skipped : s.skipped = []
  inside : ∀ t ∈ s.ahead, t.stop.offset ≤ Text.byteLength s.source
  closed : s.Closed
  loops : Loops (statementLink rules State.atEnd) [] s (.ok stmts, last)
  body : out.program.body = stmts.reverse
  dropped : out.skipped = last.skipped.reverse

theorem Scanned.run {source : String} {front : List Token} {final : Token}
    (h : Scanned source front final) :
    ∃ out s stmts last, parse source = .ok out ∧ ScriptRun source front out s stmts last := by
  obtain ⟨_, ahead, _⟩ := State.ofTokens_split source h.closing h.others
  have loops := GrammarLoop.script.loops [] h.orderly.closed
  obtain ⟨stmts, last, run, _⟩ := loops_statementLink loops
  rw [run] at loops
  have ran : script.run (.ofTokens source (front ++ [final])) = (.ok stmts.reverse, last) := by
    rw [script, statementsUntil, run_bind_ok run]
    rfl
  obtain ⟨body, dropped⟩ := parseTokens_of_run ran
  refine ⟨parseTokens source (front ++ [final]), _, stmts, last, ?_, ahead, rfl, rfl, rfl, ?_,
    h.orderly.closed, loops, body, dropped⟩
  · rw [parse, h.tokens]
    rfl
  · intro t member
    rw [ahead] at member
    have stop := h.tiled.stop_le (List.mem_filter.mp member).1
    rw [Position.after_offset, Position.start_offset, Nat.zero_add] at stop
    exact stop

theorem Lexes.run_parse {line : String} (h : Lexes line) : ∃ out s stmts last,
    parse line = .ok out ∧ ScriptRun line (lineTokens line) out s stmts last := by
  have read : tokenize line = .ok (scan line).tokens := by
    rw [tokenize, h.clean]
  obtain ⟨front, final, tokens, scanned⟩ := tokenize_scanned read
  have same : lineTokens line = front := by
    rw [lineTokens, tokens, List.dropLast_concat]
  rw [same]
  exact scanned.run

theorem SelfContained.onLine {line : String} (h : SelfContained line) :
    OnLine 0 ((lineTokens line).filter (·.kind != .comment)) := by
  have read : tokenize line = .ok (scan line).tokens := by
    rw [tokenize, h.clean]
  obtain ⟨front, last, tokens, scanned⟩ := tokenize_scanned read
  obtain ⟨core, final, whole, feed, none⟩ := h.toLexes.run.2
  have same : lineTokens line = front := by
    rw [lineTokens, tokens, List.dropLast_concat]
  have parens := h.parens
  have stays := h.stays
  rw [tokens, ← same, whole] at parens stays
  rw [whole]
  exact onLine_of_pair feed scanned.closing none (fun t member => stays t (by simp [member]))
    (Lint.Bracket.pair_of_findings parens)

/-- A dropped statement that met the depth limit. -/
def Skipped.isLimit (entry : Skipped) : Bool := entry.error.cause.isLimit

section Loop

variable {w : Around} {stop : State → Bool} {body : List Stmt} {k : Nat} {s t : State}

theorem skipNewlines_of_nil (nothing : s.ahead = []) : s.skipNewlines = s := by
  rw [State.skipNewlines, nothing]
  rfl

theorem skipNewlines_of_ne {u : Token} {rest : List Token} (ahead : s.ahead = u :: rest)
    (other : u.kind ≠ .newline) : s.skipNewlines = s := by
  rw [State.skipNewlines, ahead, State.skipNewlines.go, if_neg other]

theorem skipNewlines_of_newline {u : Token} {rest : List Token} (ahead : s.ahead = u :: rest)
    (feed : u.kind = .newline) : s.skipNewlines = s.advance.skipNewlines := by
  rw [State.skipNewlines, State.skipNewlines, ahead, State.skipNewlines.go, if_pos feed,
    State.advance_of_cons ahead]

theorem statementLink_of_newline {u : Token} {rest : List Token} (ahead : s.ahead = u :: rest)
    (feed : u.kind = .newline) :
    (statementLink rules stop body).run s = (statementLink rules stop body).run s.advance := by
  rw [statementLink, run_bind_ok (run_skipNewlines s), run_bind_ok (run_skipNewlines s.advance),
    skipNewlines_of_newline ahead feed]

theorem statementLink_of_stop (still : s.skipNewlines = s) (stops : stop s = true) :
    (statementLink rules stop body).run s = (.ok (body, false), s) := by
  rw [statementLink, run_bind_ok (run_skipNewlines s), still, run_bind_ok (run_get s), if_pos stops]
  rfl

theorem statementLink_of_going (still : s.skipNewlines = s) (going : stop s = false)
    {stmt : Option Stmt} (ran : (recovered rules).run s = (.ok stmt, t)) :
    (statementLink rules stop body).run s = (.ok (stmt.toList ++ body, true), t) := by
  rw [statementLink, run_bind_ok (run_skipNewlines s), still, run_bind_ok (run_get s),
    if_neg (by simp [going]), run_bind_ok ran]
  rfl

/-- A condition that no place within a line meets. -/
def Continues (stop : State → Bool) : Prop :=
  ∀ s : State, s.atEnd = false → s.peek.kind.crosses = false → stop s = false

theorem continues_atEnd : Continues State.atEnd := fun _ going _ => going

theorem continues_block : Continues fun s => s.atEnd || s.check .rBrace := by
  intro s going stays
  have other : s.check .rBrace = false := by
    apply decide_eq_false
    intro brace
    rw [brace] at stays
    cases stays
  change (s.atEnd || s.check .rBrace) = false
  rw [going, other]
  rfl

/-- What the two readers do next: both have the line behind them, both take one statement or drop
one, or the reader in the script meets the depth limit. -/
inductive Next (w : Around) (stop : State → Bool) (s t : State) : Prop
  | done {last t'} : Passed w last t' →
      (∀ body, (statementLink rules State.atEnd body).run s = (.ok (body, false), last)) →
      (∀ body, (statementLink rules stop body).run t = (statementLink rules stop body).run t') →
      Next w stop s t
  | more {stmt : Option Stmt} {s' t'} : Abreast w s' t' → (∀ body,
        (statementLink rules State.atEnd body).run s = (.ok (stmt.toList ++ body, true), s')) →
      (∀ body, (statementLink rules stop body).run t =
        (.ok ((stmt.map (Stmt.behind w.before)).toList ++ body, true), t')) → Next w stop s t
  | limit {stmt : Option Stmt} {t'} : 0 < w.depth → (∃ entry ∈ t'.skipped, entry.isLimit = true) →
      (∀ body, (statementLink rules stop body).run t = (.ok (stmt.toList ++ body, true), t')) →
      Next w stop s t

theorem Abreast.next (continues : Continues stop) (h : Abreast w s t) : Next w stop s t := by
  rcases h with ⟨k, twin⟩ | passed
  · obtain ⟨rest, here, there⟩ := twin.cons
    by_cases feed : s.peek.kind = .newline
    · have passed : Passed w s.advance t.advance := by
        cases twin.consume with
        | on other _ =>
            rw [State.advance_of_cons here] at other
            exact absurd feed other
        | past _ _ passed => exact passed
      refine .done passed ?_ fun body => statementLink_of_newline there feed
      intro body
      rw [statementLink_of_newline here feed]
      exact statementLink_of_stop (skipNewlines_of_nil passed.done)
        (List.isEmpty_iff.mpr passed.done)
    · have still := skipNewlines_of_ne here feed
      have still' := skipNewlines_of_ne there feed
      have stays := twin.local_peek feed
      have stays' : t.peek.kind.crosses = false := by
        rw [twin.peek]
        exact stays
      have going := continues t twin.atEnd.2 stays'
      rcases recovered_abreast twin feed with
        ⟨stmt, s', t', ran, ran', abreast⟩ | ⟨deep, stmt, t', ran', limit⟩
      · exact .more abreast (fun body => statementLink_of_going still twin.atEnd.1 ran)
          fun body => statementLink_of_going still' going ran'
      · exact .limit deep limit fun body => statementLink_of_going still' going ran'
  · exact .done passed (fun body => statementLink_of_stop (skipNewlines_of_nil passed.done)
      (List.isEmpty_iff.mpr passed.done)) fun body => rfl

/-- The loop over the statements of a line, on its own and in the script. -/
theorem Abreast.loops (continues : Continues stop) {before all : List Stmt} {last : State}
    (h : Loops (statementLink rules State.atEnd) before s (.ok all, last))
    (abreast : Abreast w s t) {taken : List Stmt} {outcome : Except ParseError (List Stmt) × State}
    (loops : Loops (statementLink rules stop) taken t outcome) :
    (0 < w.depth ∧ ∃ entry ∈ outcome.2.skipped, entry.isLimit = true) ∨
      ∃ stmts t', all = stmts ++ before ∧ Passed w last t' ∧ Loops (statementLink rules stop)
        (stmts.map (Stmt.behind w.before) ++ taken) t' outcome := by
  have noted : ∀ {taken : List Stmt} {t t' : State} {stmt : Option Stmt},
      Loops (statementLink rules stop) taken t outcome →
      (∀ body, (statementLink rules stop body).run t = (.ok (stmt.toList ++ body, true), t')) →
      (∃ entry ∈ t'.skipped, entry.isLimit = true) → ∃ entry ∈ outcome.2.skipped,
      entry.isLimit = true := by
    intro taken t t' stmt loops there limit
    obtain ⟨entry, member, limit⟩ := limit
    have walk :=
      (Loops.returns (statementLink_returns rules_returns stop) (loops.more (there taken))).1
    exact ⟨entry, walk.skipped_suffix.subset member, limit⟩
  generalize result : ((.ok all, last) : Except ParseError (List Stmt) × State) = ended at h
  -- by induction on the run over the line alone; the run in the script takes the same steps
  induction h generalizing t taken with
  | failed run => cases result
  | stopped run =>
      cases result
      cases abreast.next continues with
      | done passed here there =>
          rw [here] at run
          cases run
          exact .inr ⟨[], _, rfl, passed, loops.congr (there taken)⟩
      | more _ here _ =>
          rw [here] at run
          cases run
      | limit deep limit there => exact .inl ⟨deep, noted loops there limit⟩
  | again run rest ih =>
      cases abreast.next continues with
      | done passed here there =>
          rw [here] at run
          cases run
      | more abreast here there =>
          rw [here] at run
          cases run
          rcases ih abreast
            (loops.more (there taken)) result with limit | ⟨stmts, t', rfl, passed, loops'⟩
          · exact .inl limit
          · refine .inr ⟨stmts ++ Option.toList _, t', (List.append_assoc _ _ _).symm, passed, ?_⟩
            rw [List.map_append, List.append_assoc, ← Option.toList_map]
            exact loops'
      | limit deep limit there => exact .inl ⟨deep, noted loops there limit⟩

end Loop

section Read

variable {before : List Char} {line : String} {lines rest : List String} {out : ParseOutput}
  {body : List Stmt} {skipped : List Skipped}

theorem readLines_cons (parsed : parse line = .ok out) :
    readLines before (line :: rest) = (readLines (before ++ line.toList) rest).map fun next =>
      (out.program.body.map (Stmt.behind before) ++ next.1,
        out.skipped.map (Skipped.behind before) ++ next.2) := by
  rw [readLines, parsed]
  change (readLines _ rest >>= _) = _
  cases readLines (before ++ line.toList) rest <;> rfl

theorem readLines_ok (h : ∀ line ∈ lines, Lexes line) (before : List Char) :
    ∃ body skipped, readLines before lines = .ok (body, skipped) := by
  induction lines generalizing before with
  | nil => exact ⟨[], [], rfl⟩
  | cons line rest ih =>
      obtain ⟨out, _, _, _, parsed, _⟩ := (h line List.mem_cons_self).run_parse
      obtain ⟨body, skipped, later⟩ :=
        ih (fun l member => h l (List.mem_cons_of_mem line member)) (before ++ line.toList)
      rw [readLines_cons parsed, later]
      exact ⟨_, _, rfl⟩

theorem readLines_cons_ok (parsed : parse line = .ok out)
    (read : readLines before (line :: rest) = .ok (body, skipped)) :
    ∃ body' skipped', readLines (before ++ line.toList) rest = .ok (body', skipped') ∧
      body = out.program.body.map (Stmt.behind before) ++ body' ∧
      skipped = out.skipped.map (Skipped.behind before) ++ skipped' := by
  rw [readLines_cons parsed] at read
  cases later : readLines (before ++ line.toList) rest with
  | error e =>
      rw [later] at read
      cases read
  | ok next =>
      rw [later] at read
      cases read
      exact ⟨next.1, next.2, rfl, rfl, rfl⟩

/-- Lines read behind more text give the same, moved behind it. -/
theorem readLines_behind (a : List Char) (h : ∀ line ∈ lines, Lexes line)
    (read : readLines before lines = .ok (body, skipped)) : readLines (a ++ before) lines =
    .ok (body.map (Stmt.behind a), skipped.map (Skipped.behind a)) := by
  induction lines generalizing before body skipped with
  | nil =>
      cases read
      rfl
  | cons line rest ih =>
      obtain ⟨out, _, _, _, parsed, _⟩ := (h line List.mem_cons_self).run_parse
      obtain ⟨body', skipped', later, rfl, rfl⟩ := readLines_cons_ok parsed read
      have moved := ih (fun l member => h l (List.mem_cons_of_mem line member)) later
      rw [← List.append_assoc] at moved
      rw [readLines_cons parsed, moved]
      simp [Except.map, Function.comp_def, Stmt.behind_behind, Skipped.behind_behind]

end Read

theorem placedTokens_braceless {lines : List String} (h : ∀ line ∈ lines, SelfContained line)
    (before : List Char) : ∀ t ∈ placedTokens before lines, t.kind ≠ .lBrace := by
  induction lines generalizing before with
  | nil => exact fun t member => absurd member List.not_mem_nil
  | cons line rest ih =>
      intro t member brace
      rw [placedTokens, List.mem_append] at member
      rcases member with here | later
      · obtain ⟨u, inside, rfl⟩ := List.mem_map.mp here
        have stays := (h line List.mem_cons_self).stays u ((List.dropLast_sublist _).subset inside)
        rw [← Token.behind_kind before u, brace] at stays
        cases stays
      · exact ih (fun l member => h l (List.mem_cons_of_mem line member)) _ t later brace

theorem ScriptRun.twin {line : String} {out : ParseOutput} {s last : State} {stmts : List Stmt}
    (run : ScriptRun line (lineTokens line) out s stmts last)
    (own : SelfContained line) {w : Around} {t : State} (ahead : t.ahead =
      ((lineTokens line).map (Token.behind w.before)).filter (·.kind != .comment) ++ w.rest)
    (source : t.source = w.before ++ (line.toList ++ w.after)) (depth : t.depth = w.depth)
    (skipped : t.skipped = w.skipped) : Twin w false 0 s t := by
  refine ⟨?_, ?_, nofun, ?_, ?_, run.inside, ?_⟩
  · rw [ahead, List.filter_map, run.ahead]
    rfl
  · rw [run.ahead]
    exact own.onLine
  · rw [run.depth, Nat.zero_add]
    exact depth
  · rw [source, run.text]
  · rw [run.skipped]
    exact skipped

/-- The loop over the statements of lines that follow one another. -/
theorem loops_lines {stop : State → Bool} (continues : Continues stop) {lines : List String}
    (h : ∀ line ∈ lines, SelfContained line) {after : List Char} {tail : List Token}
    (braceless : ∀ u ∈ tail, u.kind ≠ .lBrace)
    {outcome : Except ParseError (List Stmt) × State} {before : List Char}
    {t : State} (ahead : t.ahead = (placedTokens before lines).filter (·.kind != .comment) ++ tail)
    (source : t.source = before ++ (lines.flatMap String.toList ++ after)) {body : List Stmt}
    {skipped : List Skipped}
    (read : readLines before lines = .ok (body, skipped)) {taken : List Stmt}
    (loops : Loops (statementLink rules stop) taken t outcome) :
    (0 < t.depth ∧ ∃ entry ∈ outcome.2.skipped, entry.isLimit = true) ∨
      ∃ t' : State, t'.ahead = tail ∧ t'.skipped = skipped.reverse ++ t.skipped ∧
        Loops (statementLink rules stop) (body.reverse ++ taken) t' outcome := by
  induction lines generalizing before t body skipped taken with
  | nil =>
      cases read
      exact .inr ⟨t, ahead, rfl, loops⟩
  | cons line rest ih =>
      have own := h line List.mem_cons_self
      have others := fun l member => h l (List.mem_cons_of_mem line member)
      obtain ⟨out, s, stmts, last, parsed, run⟩ := own.toLexes.run_parse
      obtain ⟨body', skipped', later, rfl, rfl⟩ := readLines_cons_ok parsed read
      let behind : List Token :=
        (placedTokens (before ++ line.toList) rest).filter (·.kind != .comment) ++ tail
      have behind_braceless : ∀ u ∈ behind, u.kind ≠ .lBrace := by
        intro u member
        rcases List.mem_append.mp member with here | there
        · exact placedTokens_braceless others _ u (List.mem_filter.mp here).1
        · exact braceless u there
      let around : Around :=
        ⟨before, rest.flatMap String.toList ++ after, behind, t.depth, t.skipped, behind_braceless⟩
      rw [placedTokens, List.filter_append, List.append_assoc] at ahead
      rw [List.flatMap_cons, List.append_assoc] at source
      have twin : Twin around false 0 s t := run.twin own ahead source rfl rfl
      obtain ⟨walk, depth⟩ :=
        Loops.returns (statementLink_returns rules_returns State.atEnd) run.loops
      rcases Abreast.loops continues run.loops
        (.inl ⟨0, twin⟩) loops with limit | ⟨stmts', t', all, passed, loops'⟩
      · exact .inl limit
      · have depth' : t'.depth = t.depth := by
          have same := passed.depth
          rw [depth, run.depth, Nat.zero_add] at same
          exact same
        have source' :
            t'.source = before ++ line.toList ++ (rest.flatMap String.toList ++ after) := by
          rw [passed.source, walk.source, run.text, List.append_assoc]
        rcases ih others passed.ahead source' later loops' with
          ⟨deep, limit⟩ | ⟨u, tail', dropped, final⟩
        · exact .inl ⟨depth' ▸ deep, limit⟩
        · refine .inr ⟨u, tail', ?_, ?_⟩
          · rw [dropped, passed.skipped, run.dropped]
            simp [around]
          · rw [List.append_nil] at all
            rw [run.body, all]
            simpa [around] using final

end ScriptLens
