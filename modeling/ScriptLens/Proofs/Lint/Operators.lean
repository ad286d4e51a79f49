import ScriptLens.Proofs.Grammar.Signs
import ScriptLens.Proofs.Lint.Codes
import ScriptLens.Proofs.Lint.Settings
import ScriptLens.Proofs.Scan.Comments
import ScriptLens.Proofs.Scan.Units

/-!
Operators next to each other, in the tree and in the linter. In a script that is one expression an
operator follows another one only as the sign of a negation. The linter looks one token further to
tell a sign from a mistake, and takes it for one before numbers, names and parentheses only; what it
reports are the other signs, one by one.
-/

namespace ScriptLens

open ScriptLens.Parser Grammar

section Signs

namespace Lexeme

variable {c : Char} {rest : List Char}

/-- A minus sign is its character. -/
theorem read_minus (shape : (read c rest).shape = .token .minus) : (read c rest).text = ['-'] := by
  have sign : c = '-' := by
    rcases read_token shape with ⟨_, other⟩ | ⟨_, other⟩ | spelled | symbol
    · cases other
    · cases other
    · cases spelled
    · unfold symbolKind at symbol
      split at symbol <;> first | rfl | cases symbol
  subst sign
  rfl

end Lexeme

theorem Token.text_of_minus {source : String} {t : Token} (member : t ∈ (scan source).tokens)
    (kind : t.kind = .minus) : t.text = "-" := by
  obtain ⟨c, rest, shape, text⟩ :=
    Token.lexeme_of_scan member (by rw [kind]; decide) (by rw [kind]; decide)
  rw [text, Lexeme.read_minus (shape.trans (congrArg Shape.token kind))]

end Signs

namespace Lint

/-- The finding about two operators next to each other. -/
def operatorFinding (pair : Token × Token) : Diagnostic :=
  .lint .error .invalidOperatorSequence ("Invalid operator sequence '" ++ pair.1.text ++ " " ++
    pair.2.text ++ "'") ⟨pair.1.start, pair.2.stop⟩

/-- Minus signs behind an operator that do not pass for signs, since no number, name or parenthesis
comes next; each with the operator before it. -/
def strays : List Token → List (Token × Token)
  | a :: b :: rest =>
    (if isSequenceOperator a.kind = true ∧ b.kind = .minus ∧
      rest.head?.any (startsOperand ·.kind) = false then [(a, b)]
      else []) ++ strays (b :: rest)
  | _ => []

variable {tokens : List Token}

theorem mem_strays {a b : Token} (member : (a, b) ∈ strays tokens) :
    ∃ front rest, tokens = front ++ a :: b :: rest ∧ isSequenceOperator a.kind = true ∧
    b.kind = .minus ∧ rest.head?.any (startsOperand ·.kind) = false := by
  induction tokens with
  | nil => cases member
  | cons x tokens ih =>
      cases tokens with
      | nil => cases member
      | cons y rest =>
          rw [strays] at member
          rcases List.mem_append.mp member with here | later
          · split at here
            · next holds =>
                cases List.mem_singleton.mp here
                exact ⟨[], rest, rfl, holds⟩
            · cases here
          · obtain ⟨front, rest', split, holds⟩ := ih later
            exact ⟨x :: front, rest', by rw [split]; rfl, holds⟩

/-- No valid pair ends with a minus sign. -/
theorem validPairs_minus (text : String) : validPairs.contains (text ++ "-") = false := by
  rw [List.contains_eq_mem, decide_eq_false_iff_not]
  intro member
  have last : (text ++ "-").toList.getLast? =
    some '-' := by rw [String.toList_append]; exact List.getLast?_concat
  revert last
  generalize text ++ "-" = pair at member
  revert pair
  decide

/-- Of the findings about a pair those about its operators. -/
theorem pairFindings_operators (previous : Option Token) (a b : Token) (after : Option Token) :
    (pairFindings previous a b after).filter (·.code = .invalidOperatorSequence) =
      if isSequenceOperator a.kind && isSequenceOperator b.kind &&
        !(b.kind = .minus && after.any (startsOperand ·.kind)) &&
        !validPairs.contains (a.text ++ b.text) then [operatorFinding (a, b)] else [] := by
  have other (c : Code) (apart : c ≠ .invalidOperatorSequence) {severity : Severity}
      {message : String} {range : Span} {holds : Prop} [Decidable holds] :
      (if holds then [Diagnostic.lint severity c message range] else []).filter
        (·.code = .invalidOperatorSequence) = [] :=
    (coded_one (List.mem_singleton_self c) holds).none fun same =>
      apart (List.mem_singleton.mp same).symm
  have same {message : String} {range : Span} {holds : Prop} [Decidable holds] :
      (if holds then [Diagnostic.lint .error .invalidOperatorSequence message range] else []).filter
        (·.code = .invalidOperatorSequence) =
        if holds then [.lint .error .invalidOperatorSequence message range] else [] :=
    (coded_one (List.mem_singleton_self _) holds).all
  rw [pairFindings, List.filter_append, List.filter_append, same, other .useAssignmentOperator
    (by decide), other .incompleteIfStatement (by decide), List.append_nil, List.append_nil]
  rfl

/-- Where operators follow one another only as signs, the strays among these are what is found. -/
theorem sequencesFrom_operators (previous : Option Token)
    (signs : ∀ front a b back, tokens = front ++ a :: b :: back → isSequenceOperator a.kind = true →
      isSequenceOperator b.kind = true → b.kind = .minus ∧ b.text = "-") :
    (sequencesFrom previous tokens).filter (·.code = .invalidOperatorSequence) =
    (strays tokens).map operatorFinding := by
  induction tokens generalizing previous with
  | nil => rfl
  | cons a tokens ih =>
      cases tokens with
      | nil => rfl
      | cons b rest =>
          have later := ih (some a) fun front x y back split =>
            signs (a :: front) x y back (by rw [split]; rfl)
          have here := signs [] a b rest rfl
          rw [sequencesFrom, strays, List.filter_append, List.map_append,
            pairFindings_operators, later]
          congr 1
          cases left : isSequenceOperator a.kind with
          | false => simp
          | true =>
              cases right : isSequenceOperator b.kind with
              | false =>
                  have other : b.kind ≠ .minus := by
                    intro kind
                    rw [kind] at right
                    cases right
                  simp [other]
              | true =>
                  obtain ⟨kind, text⟩ := here left right
                  rw [text, validPairs_minus, kind]
                  cases rest.head?.any (startsOperand ·.kind) <;> rfl

/-- The codes of findings about neighbours. -/
def sequenceCodes : List Code :=
  [.invalidOperatorSequence, .useAssignmentOperator, .incompleteIfStatement]

/-- Findings with a code of neighbours are those about neighbours. -/
theorem listing_sequences (settings : LintSettings) (source : String) {c : Code}
    (member : c ∈ sequenceCodes) : (listing settings source).filter (·.code = c) =
      (sequences (scan source).tokens).filter (·.code = c) := by
  have others : c ∉ [.unmatchedBrace, .unmatchedParen, .unmatchedBracket, .unclosedBracket] ∧
      c ∉ treeCodes ∧ c ∉ styleCodes ∧ c ∉ [.parseError] := by
    revert c
    decide
  obtain ⟨brackets, trees, styles, faults⟩ := others
  unfold listing findings
  dsimp only
  simp only [List.filter_append, (brackets_coded _).none brackets, (fault_coded _).none faults,
    (style_coded _ _ _ (indentNotes_coded _ _ _ _ _ _)).none styles, List.nil_append,
    List.append_nil]
  split
  · rw [(tree_coded _ _).none trees, List.append_nil]
  · exact List.append_nil _

theorem strays_sublist (tokens : List Token) : ((strays tokens).map Prod.fst).Sublist tokens := by
  induction tokens with
  | nil => exact .slnil
  | cons a tokens ih =>
      cases tokens with
      | nil => exact List.nil_sublist _
      | cons b rest =>
          rw [strays, List.map_append]
          split
          · exact ih.cons_cons a
          · exact ih.cons a

/-- The strays of tokens in order are reported in order. -/
theorem sequences_operators (order : tokens.Pairwise fun a b => a.start.offset ≤ b.start.offset)
    (signs : ∀ front a b back, tokens = front ++ a :: b :: back → isSequenceOperator a.kind = true →
      isSequenceOperator b.kind = true → b.kind = .minus ∧ b.text = "-") :
    (sequences tokens).filter (·.code = .invalidOperatorSequence) =
    (strays tokens).map operatorFinding := by
  rw [sequences, Diagnostic.filter_inOrder, sequencesFrom_operators none signs]
  apply inOrder_eq_self
  have places := order.sublist (strays_sublist tokens)
  rw [List.pairwise_map] at places ⊢
  exact places

end Lint

section Script

variable {source : String} {front tokens : List Token} {last : Token} {es : List Expr}
  {e : Expr} {span : Span}

/-- No operator stands around an expression between line breaks. -/
theorem Parser.Alone.signed (h : Alone tokens e) : Signed e.parts tokens := by
  obtain ⟨before, us, behind, rfl, first, last, derives⟩ := h
  have rest : Signed e.parts (us ++ behind) :=
    derives.signed.after derives.completed (.quiet (LineBreaks.quiet last))
  exact (Signed.quiet (LineBreaks.quiet first)).after
    (fun t final => LineBreaks.quiet first t (List.mem_of_getLast? final)) rest

namespace Scanned

theorem starts (scanned : Scanned source front last) :
    (front ++ [last]).Pairwise fun a b => a.start.offset ≤ b.start.offset := by
  refine scanned.apart.imp_of_mem fun {a b} member _ apart => Nat.le_trans ?_ apart
  rcases List.mem_append.mp member with inside | final
  · exact Nat.le_of_lt (scanned.inOrder.nonempty a inside)
  · rw [List.mem_singleton.mp final, scanned.start, scanned.stop]

/-- Where a script is read as one expression statement, no operator stands around the expression. -/
theorem signed (scanned : Scanned source front last) {out : ParseOutput}
    (scans : tokenize source = .ok (front ++ [last])) (parses : parse source = .ok out)
    (single : out.program.body = [.expression e span]) (clean : out.skipped = []) :
    Signed e.parts (front.filter (·.kind != .comment)) := by
  rw [parse, scans] at parses
  cases parses
  have closed : (State.ofTokens source (front ++ [last])).Closed :=
    (State.cursor_ofTokens source _).final
  obtain ⟨body, t, run, atEnd⟩ := script_ok closed
  obtain ⟨found, skipped⟩ := parseTokens_of_run run
  rw [← found, single] at run
  obtain ⟨ts, ahead, alone⟩ := script_sole closed run (by simpa [clean] using skipped.symm)
  rw [List.isEmpty_iff.mp atEnd, List.append_nil,
    (State.ofTokens_split source scanned.closing scanned.others).2.1] at ahead
  rw [ahead]
  exact alone.signed

/-- Operators that are next to each other with comments are so without them, and the operand of the
sign comes next. -/
theorem operators (scanned : Scanned source front last)
    (signed : Signed es (front.filter (·.kind != .comment)))
    {pre post : List Token} {a b : Token} (split : front ++ [last] = pre ++ a :: b :: post)
    (left : Lint.isSequenceOperator a.kind = true) (right : Lint.isSequenceOperator b.kind = true) :
    Negates es b (post.filter (·.kind != .comment)) ∧ ∃ c rest,
    post = c :: rest ∧ startsExpr c.kind = true := by
  have solid {t : Token} (operator : Lint.isSequenceOperator t.kind = true) :
      t.kind ≠ .comment ∧ t.kind ≠ .eof := by
    constructor <;> intro kind <;> rw [kind] at operator <;> cases operator
  rcases List.eq_nil_or_concat' post with rfl | ⟨post, x, rfl⟩
  · have final := congrArg List.getLast? split
    simp only [List.getLast?_append, List.getLast?_cons_cons, List.getLast?_singleton,
      Option.some_or] at final
    exact absurd ((Option.some.inj final) ▸ scanned.closing) (solid right).2
  have shape : front ++ [last] = (pre ++ a :: b :: post) ++ [x] := by rw [split]; simp
  obtain ⟨rfl, same⟩ := List.append_inj' shape rfl
  cases List.singleton_inj.mp same
  have kept : (pre ++ a :: b :: post).filter (·.kind != .comment) =
      pre.filter (·.kind != .comment) ++ a :: b :: post.filter (·.kind != .comment) := by
    simp [List.filter_append, (solid left).1, (solid right).1]
  have negates := signed _ a b _ kept left right
  have ⟨_, argument, us, vs, behind, derives, _⟩ := negates
  obtain ⟨c, rest, rfl, starts, _⟩ := derives.head
  have other : c.kind ≠ .newline := by
    intro newline
    rw [newline] at starts
    cases starts
  have ends := scanned.commentsEnd
  rw [← List.singleton_append, ← List.append_assoc] at ends
  obtain ⟨after, rfl, _⟩ := ends.next behind other
  refine ⟨?_, c, after ++ [last], rfl, starts⟩
  rw [List.filter_append]
  exact negates.extend (List.Subset.refl es) _

end Scanned

/-- In a script that is read as one expression statement, operators that may not follow one another
do so only as the signs of negations, their operands behind them. Of these the linter reports, each
once and as an error, those before anything but a number, a name or a parenthesis; and with one of
them the script is not valid and `check` fails on it. -/
theorem operators_of_expression (settings : LintSettings) {out : ParseOutput}
    (scans : tokenize source = .ok tokens) (parses : parse source = .ok out)
    (single : out.program.body = [.expression e span]) (clean : out.skipped = []) :
    (∀ pre a b post, tokens = pre ++ a :: b :: post → Lint.isSequenceOperator a.kind = true →
      Lint.isSequenceOperator b.kind = true →
        Negates e.parts b (post.filter (·.kind != .comment)) ∧
          ∃ c rest, post = c :: rest ∧ startsExpr c.kind = true) ∧
    (Lint.Yields settings source (lint settings source) fun found =>
      found.filter (·.code = .invalidOperatorSequence) =
        (Lint.strays tokens).map Lint.operatorFinding) ∧
    ((∀ pre a b c post, tokens = pre ++ a :: b :: c :: post →
        Lint.isSequenceOperator a.kind = true → b.kind = .minus →
          Lint.startsOperand c.kind = true) →
      Lint.Yields settings source (lint settings source) fun found =>
        found.filter (·.code = .invalidOperatorSequence) = []) ∧
    (Lint.strays tokens ≠ [] → Lint.Yields {} source (isValid source) (· = false) ∧
      ∀ read (settings : Settings) format, Lint.Yields settings.lint source
        (Command.check.run read settings format source) fun ended =>
          ∃ outcome, ended = .ok outcome ∧ outcome.success = false) := by
  obtain ⟨front, last, rfl, scanned⟩ := tokenize_scanned scans
  obtain ⟨_, whole⟩ := fault_of_tokenize scans
  have signed : Signed e.parts (front.filter (·.kind != .comment)) :=
    scanned.signed scans parses single clean
  have pairs : ∀ pre a b post, front ++ [last] = pre ++ a :: b :: post →
      Lint.isSequenceOperator a.kind = true → Lint.isSequenceOperator b.kind = true →
        Negates e.parts b (post.filter (·.kind != .comment)) ∧
          ∃ c rest, post = c :: rest ∧ startsExpr c.kind = true :=
    fun _ _ _ _ split left right => scanned.operators signed split left right
  have reported (settings : LintSettings) :
      (Lint.listing settings source).filter (·.code = .invalidOperatorSequence) =
        (Lint.strays (front ++ [last])).map Lint.operatorFinding := by
    rw [Lint.listing_sequences settings source (by decide), whole]
    refine Lint.sequences_operators scanned.starts fun pre a b post split left right => ?_
    have kind := (pairs pre a b post split left right).1.1
    have member : b ∈ (scan source).tokens := by
      rw [whole, split]
      simp
    exact ⟨kind, Token.text_of_minus member kind⟩
  refine ⟨pairs, Lint.yields_listing (reported settings), fun plain => ?_, fun some => ?_⟩
  · refine Lint.yields_listing ?_
    rw [reported settings, List.map_eq_nil_iff, List.eq_nil_iff_forall_not_mem]
    rintro ⟨a, b⟩ member
    obtain ⟨pre, post, split, left, minus, stray⟩ := Lint.mem_strays member
    obtain ⟨_, c, rest, rfl, _⟩ := pairs pre a b post split left (by rw [minus]; rfl)
    have operand := plain pre a b c rest split left minus
    simp [operand] at stray
  · obtain ⟨pair, member⟩ := List.exists_mem_of_ne_nil _ some
    have error (settings : LintSettings) :
        (Lint.listing settings source).any Diagnostic.isError = true := by
      have found : Lint.operatorFinding pair ∈
          (Lint.listing settings source).filter (·.code = .invalidOperatorSequence) := by
        rw [reported]
        exact List.mem_map_of_mem member
      exact List.any_eq_true.mpr ⟨_, (List.mem_filter.mp found).1, rfl⟩
    have wrong (settings : LintSettings) : Lint.Yields settings source (lint settings source)
        (·.any Diagnostic.isError = true) := Lint.yields_listing (error settings)
    refine ⟨(wrong {}).map fun found error => by rw [error]; rfl, fun read settings format => ?_⟩
    refine (wrong settings.lint).map fun found error => ⟨_, rfl, ?_⟩
    rw [Command.checked_success, error]
    rfl

theorem Stmt.eq_expression {body : List Stmt} (h : body.map Stmt.isExpression = [true]) :
    ∃ e span, body = [.expression e span] := by
  obtain ⟨stmt, rfl, kind⟩ := List.map_eq_singleton_iff.mp h
  unfold Stmt.isExpression at kind
  split at kind
  · exact ⟨_, _, rfl⟩
  · cases kind

/-- The parser runs, and its tree is one expression statement with nothing skipped. -/
theorem parses_expression {source : String} (h : (parse source).toOption.map (fun out =>
      (out.program.body.map Stmt.isExpression, out.skipped.isEmpty)) = some ([true], true)) :
    ∃ out e span, parse source = .ok out ∧ out.program.body = [.expression e span] ∧
    out.skipped = [] := by
  obtain ⟨out, parses, tree⟩ := ok_of_toOption h
  obtain ⟨single, clean⟩ := Prod.mk.inj tree
  obtain ⟨e, span, single⟩ := Stmt.eq_expression single
  exact ⟨out, e, span, parses, single, List.isEmpty_iff.mp clean⟩

/-- Signs before a word, a number and a string; the one before the number is none to report. -/
theorem operators_of_expression_mixed : ∃ source tokens out e span,
    source = "x := -true * -5 - -\"s\"" ∧
    tokenize source = .ok tokens ∧ parse source = .ok out ∧
    out.program.body = [.expression e span] ∧ out.skipped = [] ∧
    (∃ found, lint {} source = some found ∧
      (found.filter (·.code = .invalidOperatorSequence)).map (·.range.start.offset) = [2, 16]) ∧
    isValid source = some false := by
  obtain ⟨source, text⟩ : ∃ source, source = "x := -true * -5 - -\"s\"" := ⟨_, rfl⟩
  obtain ⟨tokens, scans, strays⟩ := ok_of_toOption (show (tokenize source).toOption.map
    (fun tokens => (Lint.strays tokens).map (·.1.start.offset)) = some [2, 16] by
      rw [text]
      decide +kernel)
  obtain ⟨out, e, span, parses, single, clean⟩ := @parses_expression source (by
    rw [text]
    decide +kernel)
  have fits : ¬Lint.Overflows {} source := mt Lint.lint_eq_none_iff.mpr (by
    rw [text]
    decide +kernel)
  obtain ⟨_, reported, _, invalid⟩ := operators_of_expression {} scans parses single clean
  obtain ⟨found, returns, reported⟩ := reported.returns fits
  have wrong : Lint.strays tokens ≠ [] := by
    intro none
    rw [none] at strays
    cases strays
  obtain ⟨_, ended, rfl⟩ := (invalid wrong).1.returns fits
  refine ⟨source, tokens, out, e, span, text, scans, parses, single, clean,
    ⟨found, returns, ?_⟩, ended⟩
  rw [reported, List.map_map]
  exact strays

/-- One line that is an expression statement, and an operator error all the same. -/
theorem negated_boolean_reported : ∃ source out e span found, source = "x := -true" ∧
    '\n' ∉ source.toList ∧ parse source = .ok out ∧ out.program.body = [.expression e span] ∧
    out.skipped = [] ∧ lint {} source = some found ∧
    found.filter (·.code = .invalidOperatorSequence) ≠ [] ∧ isValid source = some false := by
  obtain ⟨source, text⟩ : ∃ source, source = "x := -true" := ⟨_, rfl⟩
  obtain ⟨out, e, span, parses, single, clean⟩ := @parses_expression source (by
    rw [text]
    decide +kernel)
  obtain ⟨found, returns, reported⟩ := Option.map_eq_some_iff.mp (show (lint {} source).map
    (fun found => (found.filter (·.code = .invalidOperatorSequence)).isEmpty) = some false by
      rw [text]
      decide +kernel)
  refine ⟨source, out, e, span, found, text, by rw [text]; decide, parses, single, clean, returns,
    ?_, ?_⟩
  · intro none
    rw [none] at reported
    cases reported
  · rw [text]
    decide +kernel

end Script

end ScriptLens
