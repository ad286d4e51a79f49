import ScriptLens.Proofs.Recovery.Lines

/-!
Recovery is local to lines. Main statement: lines that keep their parentheses and blocks to
themselves give, read together, the statements and the dropped statements of each line read on its
own, in order and at their places; in the block of a loop they give the same, unless the depth limit
is met.
-/

namespace ScriptLens

open ParseM ScriptLens.Parser

namespace Parser

variable {inner : Level} {s t : State} {first opening : Token} {rest : List Token}
  {stmts : List Stmt}

/-- A loop without a count runs its block, and then its closing brace must come. -/
theorem run_loop (ahead : s.ahead = first :: opening :: rest) (brace : opening.kind = .lBrace)
    (run : (statementsUntil inner fun s => s.atEnd || s.check .rBrace).run s.advance.advance =
      (.ok stmts, t)) :
    (loop inner).run s =
      if t.check .rBrace then (.ok (.loop none stmts (t.advance.spanFrom first)), t.advance)
      else (.error ⟨.expected .closeBlock, t.peek⟩, t) := by
  have next : s.advance.ahead = opening :: rest := by rw [State.advance_of_cons ahead]
  have peek : s.peek = first := by
    rw [State.peek, ahead]
    rfl
  have check : s.advance.check .lBrace = true := by
    rw [State.check, State.peek, next]
    exact decide_eq_true brace
  have count : (operand? inner .lBrace).run s.advance = (.ok none, s.advance) := by
    rw [operand?, run_bind_ok (run_get s.advance), check, Bool.or_true]
    rfl
  have other : opening.kind ≠ .newline := by
    rw [brace]
    decide
  have past : s.advance.checkPastNewlines .lBrace = true := by
    rw [State.checkPastNewlines, next, List.dropWhile_cons_of_neg (by simp [other])]
    exact decide_eq_true brace
  have inside : (body inner).run s.advance =
      if t.check .rBrace then (.ok stmts,
          t.advance) else (.error ⟨.expected .closeBlock, t.peek⟩, t) := by
    rw [body, run_bind_ok (run_get s.advance), if_pos past,
      run_bind_ok (run_skipNewlines s.advance),
      skipNewlines_of_ne next other, block, run_bind, run_expect, if_pos check]
    dsimp only
    rw [run_bind_ok run, run_bind, run_expect]
    cases t.check .rBrace <;> rfl
  rw [loop, run_bind_ok (run_advance s), peek, run_bind_ok count, run_bind, inside]
  cases t.check .rBrace <;> rfl

/-- A loop that stands first is read if its block ends at a closing brace; what its block drops
stays noted. -/
theorem recovered_loop (ahead : s.ahead = first :: opening :: rest) (word : first.kind = .kwLoop)
    (brace : opening.kind = .lBrace) (room : s.depth < maxDepth)
    (run : (statementsUntil rules fun s => s.atEnd || s.check .rBrace).run
      ({ s.begin with depth := s.begin.depth + 1 } : State).advance.advance = (.ok stmts, t)) :
    ∃ stmt u, (recovered rules).run s = (.ok stmt, u) ∧ t.skipped <:+ u.skipped ∧
      (t.check .rBrace = true → stmt = some (.loop none stmts (t.advance.spanFrom first)) ∧
        u = { t.advance with depth := t.advance.depth - 1 }) := by
  have ran : rules.statement.run { s.begin with depth := s.begin.depth + 1 } =
      if t.check .rBrace then (.ok (.loop none stmts (t.advance.spanFrom first)), t.advance)
      else (.error ⟨.expected .closeBlock, t.peek⟩, t) := by
    have peek : ({ s.begin with depth := s.begin.depth + 1 } : State).peek.kind = .kwLoop := by
      change s.peek.kind = .kwLoop
      rw [State.peek, ahead]
      exact word
    rw [rules_statement, statement, run_bind_ok (run_get _), peek]
    exact run_loop ahead brace run
  have above : ¬ maxDepth ≤ s.begin.depth := Nat.not_le.mpr room
  rw [run_recovered, run_nested, if_neg above, ran]
  by_cases closed : t.check .rBrace = true
  · rw [if_pos closed]
    have walk : Walk true t t.advance := t.walk_advance
    exact ⟨_, _, rfl, walk.skipped_suffix, fun _ => ⟨rfl, rfl⟩⟩
  · rw [if_neg closed]
    have walk :=
      State.walk_recover { t with depth := t.depth - 1 } s.peek ⟨.expected .closeBlock, t.peek⟩
    exact ⟨_, _, rfl, walk.skipped_suffix, fun same => absurd same closed⟩

end Parser

theorem parse_join {lines : List String} (h : ∀ line ∈ lines, Lexes line) :
    ∃ out s stmts last, parse (String.join lines) = .ok out ∧
      ScriptRun (String.join lines) (placedTokens [] lines) out s stmts last := by
  obtain ⟨final, eof, tokens⟩ := tokenize_join h
  obtain ⟨front, last, same, scanned⟩ := tokenize_scanned tokens
  obtain ⟨rfl, _⟩ := List.append_inj' same rfl
  exact scanned.run

/-- The lines around a body stand for themselves: the head of the loop and its end. -/
theorem loop_ends : (Lexes "loop \x7b\n" ∧
      (lineTokens "loop \x7b\n").map Token.kind = [.kwLoop, .lBrace, .newline]) ∧
    Lexes "\x7d\n" ∧ (lineTokens "\x7d\n").map Token.kind = [.rBrace, .newline] := by
  refine ⟨⟨⟨⟨"loop \x7b".toList, rfl, ?_⟩, ?_⟩, ?_⟩, ⟨⟨"\x7d".toList, rfl, ?_⟩, ?_⟩, ?_⟩
  all_goals decide +kernel

/-- The tokens of a loop around lines: its word and its brace, the tokens of the lines, and the
closing brace. -/
theorem placedTokens_loop (lines : List String) : ∃ word opening feed closing feed' : Token,
    word.kind = .kwLoop ∧ opening.kind = .lBrace ∧ feed.kind = .newline ∧
      closing.kind = .rBrace ∧ feed'.kind = .newline ∧
      (placedTokens [] ("loop \x7b\n" :: (lines ++ ["\x7d\n"]))).filter (·.kind != .comment) =
      word :: opening :: feed :: ((placedTokens "loop \x7b\n".toList lines).filter
          (·.kind != .comment) ++ [closing, feed']) := by
  obtain ⟨⟨_, header⟩, _, footer⟩ := loop_ends
  obtain ⟨word, _, header, isWord, more⟩ := List.map_eq_cons_iff.mp header
  obtain ⟨opening, _, rfl, isOpening, more⟩ := List.map_eq_cons_iff.mp more
  obtain ⟨feed, _, rfl, isFeed, more⟩ := List.map_eq_cons_iff.mp more
  obtain rfl := List.map_eq_nil_iff.mp more
  obtain ⟨closing, _, footer, isClosing, more⟩ := List.map_eq_cons_iff.mp footer
  obtain ⟨feed', _, rfl, isFeed', more⟩ := List.map_eq_cons_iff.mp more
  obtain rfl := List.map_eq_nil_iff.mp more
  let before := "loop \x7b\n".toList ++ lines.flatMap String.toList
  refine ⟨word.behind [], opening.behind [], feed.behind [], closing.behind before,
    feed'.behind before, isWord, isOpening, isFeed, isClosing, isFeed', ?_⟩
  rw [placedTokens, placedTokens_append, placedTokens, placedTokens, header, footer,
    List.filter_append, List.filter_append]
  simp [isWord, isOpening, isFeed, isClosing, isFeed', before]

/-- A block of lines behind its brace: it gives what the lines give and ends at its closing brace,
unless the depth limit is met. -/
theorem run_block_lines {lines : List String} (alone : ∀ line ∈ lines, SelfContained line)
    {before after : List Char} {body : List Stmt} {skipped : List Skipped}
    (read : readLines before lines = .ok (body, skipped)) {feed closing feed' : Token}
    (isFeed : feed.kind = .newline) (isClosing : closing.kind = .rBrace)
    (isFeed' : feed'.kind = .newline) {t : State} (closed : t.Closed)
    (source : t.source = before ++ (lines.flatMap String.toList ++ after)) (ahead : t.ahead =
      feed :: ((placedTokens before lines).filter (·.kind != .comment) ++ [closing, feed'])) :
    ∃ stmts u, (statementsUntil rules fun s => s.atEnd || s.check .rBrace).run t = (.ok stmts, u) ∧
      ((∃ entry ∈ u.skipped, entry.isLimit = true) ∨
        stmts = body ∧ u.ahead = [closing, feed'] ∧ u.skipped = skipped.reverse ++ t.skipped) := by
  have loops := GrammarLoop.block.loops [] closed
  obtain ⟨stmts, u, ran, _⟩ := loops_statementLink loops
  have whole : (statementsUntil rules fun s => s.atEnd || s.check .rBrace).run t =
      (.ok stmts.reverse, u) := by
    rw [statementsUntil, run_bind_ok ran]
    rfl
  have braceless : ∀ u ∈ [closing, feed'], u.kind ≠ .lBrace := by simp [isClosing, isFeed']
  have behind := State.advance_of_cons ahead
  -- the line break behind the brace comes first, the lines after it
  have ahead' : t.advance.ahead = (placedTokens before lines).filter (·.kind != .comment) ++
      [closing, feed'] := by
    rw [behind]
  have source' : t.advance.source = before ++ (lines.flatMap String.toList ++ after) := by
    rw [behind]
    exact source
  rw [ran] at loops
  refine ⟨stmts.reverse, u, whole, ?_⟩
  rcases loops_lines continues_block alone braceless ahead' source' read
    (loops.congr (statementLink_of_newline ahead isFeed)) with
    ⟨_, limit⟩ | ⟨v, tail, dropped, final⟩
  · exact .inl limit
  · have check : v.check .rBrace = true := by
      rw [State.check, State.peek, tail]
      exact decide_eq_true isClosing
    have stops : (v.atEnd || v.check .rBrace) = true := by rw [check, Bool.or_true]
    have still := skipNewlines_of_ne tail (by rw [isClosing]; decide)
    obtain ⟨same, rfl⟩ := Prod.mk.inj (final.done (statementLink_of_stop still stops))
    rw [behind] at dropped
    rw [Except.ok.inj same]
    exact .inr ⟨by simp, tail, dropped⟩

/-- At the last line break of a script the loop over its statements ends. -/
theorem loops_feed {taken : List Stmt} {t : State} {outcome : Except ParseError (List Stmt) × State}
    {feed : Token} (ahead : t.ahead = [feed]) (isFeed : feed.kind = .newline)
    (loops : Loops (statementLink rules State.atEnd) taken t outcome) :
    outcome = (.ok taken, t.advance) := by
  have nothing : t.advance.ahead = [] := by rw [State.advance_of_cons ahead]
  exact loops.done ((statementLink_of_newline ahead isFeed).trans
    (statementLink_of_stop (skipNewlines_of_nil nothing) (List.isEmpty_iff.mpr nothing)))

theorem toList_loop (lines : List String) :
    (String.join ("loop \x7b\n" :: (lines ++ ["\x7d\n"]))).toList =
      "loop \x7b\n".toList ++ (lines.flatMap String.toList ++ "\x7d\n".toList) := by simp

theorem SelfContained.lexes_loop {lines : List String}
    (alone : ∀ line ∈ lines, SelfContained line) :
    ∀ line ∈ "loop \x7b\n" :: (lines ++ ["\x7d\n"]), Lexes line := by
  intro line member
  rcases List.mem_cons.mp member with rfl | later
  · exact loop_ends.1.1
  · rcases List.mem_append.mp later with inside | last
    · exact (alone line inside).toLexes
    · rw [List.mem_singleton.mp last]
      exact loop_ends.2.1

/-- Lines in the block of a loop give what they give on their own, unless the depth limit is met. -/
theorem parse_loop_lines {lines : List String} (alone : ∀ line ∈ lines, SelfContained line)
    {body : List Stmt}
    {skipped : List Skipped} (read : readLines "loop \x7b\n".toList lines = .ok (body, skipped)) :
    ∃ out, parse ("loop \x7b\n" ++ String.join lines ++ "\x7d\n") = .ok out ∧
      ((∃ entry ∈ out.skipped, entry.isLimit = true) ∨
        ∃ span, out.program.body = [.loop none body span] ∧ out.skipped = skipped) := by
  have whole : "loop \x7b\n" ++ String.join lines ++ "\x7d\n" =
      String.join ("loop \x7b\n" :: (lines ++ ["\x7d\n"])) := by
    simp [String.append_assoc]
  obtain ⟨out, s, stmts, last, parsed, run⟩ := parse_join (SelfContained.lexes_loop alone)
  obtain ⟨word, opening, feed, closing, feed', isWord, isOpening, isFeed, isClosing,
      isFeed', tokens⟩ :=
    placedTokens_loop lines
  have ahead := run.ahead
  rw [tokens] at ahead
  rw [whole]
  refine ⟨out, parsed, ?_⟩
  let inside : State := { s.begin with
    ahead := feed ::
      ((placedTokens "loop \x7b\n".toList lines).filter (·.kind != .comment) ++ [closing, feed'])
    last := opening
    depth := s.begin.depth + 1 }
  have entered :
      ({ s.begin with depth := s.begin.depth + 1 } : State).advance.advance = inside := by
    simp [State.advance, State.begin, ahead, inside]
  have closed : inside.Closed := run.closed
  have source :
      inside.source = "loop \x7b\n".toList ++ (lines.flatMap String.toList ++ "\x7d\n".toList) := by
    rw [← toList_loop]
    exact run.text
  obtain ⟨stmts', t, block, gives⟩ :=
    run_block_lines alone read isFeed isClosing isFeed' closed source rfl
  have room : s.depth < maxDepth := by
    rw [run.depth]
    decide
  rw [← entered] at block
  obtain ⟨stmt, u, read', dropped, closes⟩ := recovered_loop ahead isWord isOpening room block
  have still : s.skipNewlines = s := skipNewlines_of_ne ahead (by rw [isWord]; decide)
  have going : s.atEnd = false := by
    rw [State.atEnd, ahead]
    rfl
  have rest := run.loops.more (statementLink_of_going still going read')
  rcases gives with ⟨entry, member, limit⟩ | ⟨rfl, tail, noted⟩
  · have walk := (Loops.returns (statementLink_returns rules_returns State.atEnd) rest).1
    refine .inl ⟨entry, ?_, limit⟩
    rw [run.dropped, List.mem_reverse]
    exact walk.skipped_suffix.subset (dropped.subset member)
  · have check : t.check .rBrace = true := by
      rw [State.check, State.peek, tail]
      exact decide_eq_true isClosing
    obtain ⟨rfl, rfl⟩ := closes check
    have behind := State.advance_of_cons tail
    have ahead' :
      ({ t.advance with depth := t.advance.depth - 1 } : State).ahead = [feed'] := by rw [behind]
    have behind' := State.advance_of_cons ahead'
    obtain ⟨same, rfl⟩ := Prod.mk.inj (loops_feed ahead' isFeed' rest)
    refine .inr ⟨t.advance.spanFrom word, ?_, ?_⟩
    · rw [run.body, Except.ok.inj same]
      rfl
    · rw [run.dropped, behind', behind]
      change t.skipped.reverse = skipped
      rw [noted]
      simp [inside, State.begin, run.skipped]

/-- Lines that keep to themselves, read together and in the block of a loop. Read together they
give, in order and at their places, what each line gives on its own. In a block they give the same
again behind the line of the loop, and nothing else is dropped, if no statement meets the depth
limit there. -/
theorem parse_linewise (lines : List String) (alone : ∀ line ∈ lines, SelfContained line) :
    ∃ body skipped, readLines [] lines = .ok (body, skipped) ∧ (∃ out,
        parse (String.join lines) = .ok out ∧ out.program.body = body ∧ out.skipped = skipped) ∧
      ∃ out, parse ("loop \x7b\n" ++ String.join lines ++ "\x7d\n") = .ok out ∧
        ((∀ entry ∈ out.skipped, entry.isLimit = false) → ∃ span,
          out.program.body = [.loop none (body.map (Stmt.behind "loop \x7b\n".toList)) span] ∧
            out.skipped = skipped.map (Skipped.behind "loop \x7b\n".toList)) := by
  have lexes : ∀ line ∈ lines, Lexes line := fun line member => (alone line member).toLexes
  obtain ⟨body, skipped, read⟩ := readLines_ok lexes []
  refine ⟨body, skipped, read, ?_, ?_⟩
  · obtain ⟨out, s, stmts, last, parsed, run⟩ := parse_join lexes
    have ahead : s.ahead = (placedTokens [] lines).filter (·.kind != .comment) ++ [] := by
      rw [run.ahead, List.append_nil]
    have source : s.source = [] ++ (lines.flatMap String.toList ++ []) := by
      rw [run.text, String.toList_join, List.append_nil, List.nil_append]
    rcases loops_lines continues_atEnd alone (by simp) ahead source read run.loops with ⟨deep, _⟩ |
      ⟨t, tail, dropped, final⟩
    · rw [run.depth] at deep
      exact absurd deep (Nat.lt_irrefl 0)
    · obtain ⟨same, rfl⟩ := Prod.mk.inj
        (final.done (statementLink_of_stop (skipNewlines_of_nil tail) (List.isEmpty_iff.mpr tail)))
      refine ⟨out, parsed, ?_, ?_⟩
      · rw [run.body, Except.ok.inj same]
        simp
      · rw [run.dropped, dropped, run.skipped]
        simp
  · have moved := readLines_behind "loop \x7b\n".toList lexes read
    rw [List.append_nil] at moved
    obtain ⟨out, parsed, gives⟩ := parse_loop_lines alone moved
    refine ⟨out, parsed, ?_⟩
    intro free
    rcases gives with ⟨entry, member, limit⟩ | same
    · rw [free entry member] at limit
      cases limit
    · exact same

theorem parse_linewise_malformed :
    (∀ line ∈ ["a := f(1,) b\n", "f(+ return x)\n", "#y ; c\n"], SelfContained line) ∧
    ∃ body skipped out,
    readLines [] ["a := f(1,) b\n", "f(+ return x)\n", "#y ; c\n"] = .ok (body, skipped) ∧
      skipped.length = 3 ∧ parse ("loop \x7b\n" ++
        String.join ["a := f(1,) b\n", "f(+ return x)\n", "#y ; c\n"] ++ "\x7d\n") = .ok out ∧
      ∃ span, out.program.body = [.loop none (body.map (Stmt.behind "loop \x7b\n".toList)) span] ∧
        out.skipped = skipped.map (Skipped.behind "loop \x7b\n".toList) := by
  have alone : ∀ line ∈ ["a := f(1,) b\n", "f(+ return x)\n", "#y ; c\n"], SelfContained line := by
    simp only [List.forall_mem_cons]
    refine ⟨?_, ?_, ?_, List.forall_mem_nil _⟩
    · exact ⟨⟨⟨"a := f(1,) b".toList, by decide +kernel, by decide +kernel⟩, by decide +kernel⟩,
        by decide +kernel, by decide +kernel⟩
    · exact ⟨⟨⟨"f(+ return x)".toList, by decide +kernel, by decide +kernel⟩, by decide +kernel⟩,
        by decide +kernel, by decide +kernel⟩
    · exact ⟨⟨⟨"#y ; c".toList, by decide +kernel, by decide +kernel⟩, by decide +kernel⟩,
        by decide +kernel, by decide +kernel⟩
  obtain ⟨body, skipped, read, _, out, parsed, gives⟩ := parse_linewise _ alone
  obtain ⟨out', again, free⟩ := ok_of_toOption (show (parse ("loop \x7b\n" ++ String.join
    ["a := f(1,) b\n", "f(+ return x)\n", "#y ; c\n"] ++ "\x7d\n")).toOption.map (fun out =>
      (out.skipped.length, out.skipped.all (!·.isLimit))) = some (3, true) by decide +kernel)
  obtain rfl := Except.ok.inj (parsed.symm.trans again)
  obtain ⟨count, free⟩ := Prod.mk.inj free
  obtain ⟨span, one, dropped⟩ :=
    gives fun entry member => by simpa using List.all_eq_true.mp free entry member
  have three : skipped.length = 3 := by
    rw [dropped, List.length_map] at count
    exact count
  exact ⟨alone, body, skipped, out, read, three, parsed, span, one, dropped⟩

end ScriptLens
