import ScriptLens.Lint.Basic
import ScriptLens.Proofs.Shift.Parsers

/-!
The passes of the linter over tokens that were moved: each finding is as before, its range moved.
-/

namespace ScriptLens

namespace Lint

variable {σ : Shift} {t u : Token} {ts us : List Token}

theorem shift_append (a b : List Diagnostic) :
    (a ++ b).map (Diagnostic.shift σ) = a.map (Diagnostic.shift σ) ++ b.map (Diagnostic.shift σ) :=
  List.map_append

/-- A finding that is made under a condition. -/
theorem shift_ite (condition : Prop) [Decidable condition] (d : Diagnostic) :
    (if condition then [d] else []).map (Diagnostic.shift σ) =
    if condition then [d.shift σ] else [] := by
  split <;> rfl

/-- Tokens of one kind that move as a whole. -/
def Solid (σ : Shift) (kind : Kind) (t u : Token) : Prop := t.kind = kind ∧ u.span = t.span.shift σ

theorem solid_of_kind {kind : Kind} (h : t.Shifted σ u) (here : t.kind = kind)
    (solid : kind.isSolid = true) : Solid σ kind t u :=
  ⟨here, h.span (here ▸ solid)⟩

theorem pair_shifted (b : Bracket) (h : List.Forall₂ (Token.Shifted σ) ts us)
    {stack stack' : List Token} (waiting : List.Forall₂ (Solid σ b.opening) stack stack') :
    List.Forall₂ (Solid σ b.closing) (b.pair stack ts).1 (b.pair stack' us).1 ∧
      List.Forall₂ (Solid σ b.opening) (b.pair stack ts).2 (b.pair stack' us).2 := by
  induction h generalizing stack stack' with
  | nil => exact ⟨.nil, waiting⟩
  | @cons t u ts us first rest ih =>
      by_cases opens : t.kind = b.opening
      · rw [Bracket.pair_opening opens, Bracket.pair_opening (first.kind.trans opens)]
        exact ih (.cons (solid_of_kind first opens (by cases b <;> rfl)) waiting)
      by_cases closes : t.kind = b.closing
      · cases waiting with
        | nil =>
            rw [Bracket.pair_closing_unmatched closes,
              Bracket.pair_closing_unmatched (first.kind.trans closes)]
            obtain ⟨closers, openers⟩ := ih .nil
            exact ⟨.cons (solid_of_kind first closes (by cases b <;> rfl)) closers, openers⟩
        | cons _ waiting =>
            rw [Bracket.pair_closing closes, Bracket.pair_closing (first.kind.trans closes)]
            exact ih waiting
      · rw [Bracket.pair_other opens closes,
          Bracket.pair_other (first.kind ▸ opens) (first.kind ▸ closes)]
        exact ih waiting

/-- Findings about tokens that move as a whole. -/
theorem map_solid {kind : Kind} {make : Token → Diagnostic}
    (moves : ∀ t u, u.span = t.span.shift σ → make u = (make t).shift σ)
    (h : List.Forall₂ (Solid σ kind) ts us) :
    us.map make = (ts.map make).map (Diagnostic.shift σ) := by
  induction h with
  | nil => rfl
  | cons first _ ih => rw [List.map_cons, List.map_cons, List.map_cons, ih, moves _ _ first.2]

theorem brackets_shifted (h : List.Forall₂ (Token.Shifted σ) ts us) :
    brackets us = (brackets ts).map (Diagnostic.shift σ) := by
  have each (b : Bracket) : b.findings us = (b.findings ts).map (Diagnostic.shift σ) := by
    obtain ⟨closers, openers⟩ := pair_shifted b h .nil
    have unmatched : ∀ t u : Token, u.span = t.span.shift σ →
        b.unmatched u = (b.unmatched t).shift σ := by
      intro t u span
      cases b <;> rw [Bracket.unmatched, Bracket.unmatched, span] <;> rfl
    have unclosed : ∀ t u : Token, u.span = t.span.shift σ →
        b.unclosed u = (b.unclosed t).shift σ := by
      intro t u span
      cases b <;> rw [Bracket.unclosed, Bracket.unclosed, span] <;> rfl
    rw [Bracket.findings, Bracket.findings, shift_append]
    dsimp only
    rw [map_solid unmatched closers, map_solid unclosed (List.rel_reverse openers)]
  rw [brackets, brackets, ← Diagnostic.inOrder_shift, List.map_flatMap]
  congr 2
  exact funext each

theorem solid_of_isSequenceOperator {kind : Kind} (operator : isSequenceOperator kind = true) :
    kind.isSolid = true ∧ kind ≠ .string := by
  cases kind <;> first | exact ⟨rfl, by decide⟩ | cases operator

/-- A look at the kind of a token that may be missing. -/
theorem any_shifted {a b : Option Token} (h : Option.Rel (Token.Shifted σ) a b)
    (test : Kind → Bool) : b.any (fun t => test t.kind) = a.any fun t => test t.kind := by
  cases h with
  | none => rfl
  | some first => rw [Option.any_some, Option.any_some, first.kind]

theorem pairFindings_shifted {previous previous' after after' : Option Token} {next next' : Token}
    (before : Option.Rel (Token.Shifted σ) previous previous') (first : t.Shifted σ u)
    (second : next.Shifted σ next') (behind : Option.Rel (Token.Shifted σ) after after') :
    pairFindings previous' u next' after' =
    (pairFindings previous t next after).map (Diagnostic.shift σ) := by
  have starts : startsStatement previous' = startsStatement previous := by
    cases before with
    | none => rfl
    | some before => rw [startsStatement, startsStatement, before.kind]
  rw [pairFindings, pairFindings, shift_append, shift_append, shift_ite, shift_ite, shift_ite,
    any_shifted behind, first.kind, second.kind, starts]
  refine congrArg₂ (· ++ ·) (congrArg₂ (· ++ ·) ?_ ?_) ?_
  · by_cases both : isSequenceOperator t.kind = true ∧ isSequenceOperator next.kind = true
    · obtain ⟨solid, plain⟩ := solid_of_isSequenceOperator both.1
      obtain ⟨solid', plain'⟩ := solid_of_isSequenceOperator both.2
      have start : u.start = t.start.shift σ := congrArg Span.start (first.span solid)
      have stop : next'.stop = next.stop.shift σ := congrArg Span.stop (second.span solid')
      rw [first.text plain (Kind.isSolid_ne solid rfl),
        second.text plain' (Kind.isSolid_ne solid' rfl), start, stop]
      rfl
    · have none : (isSequenceOperator t.kind && isSequenceOperator next.kind) = false := by
        rw [Bool.eq_false_iff]
        simpa using both
      rw [none]
      rfl
  · by_cases equals : next.kind = .equals
    · rw [second.span (by rw [equals]; rfl)]
      rfl
    · rw [decide_eq_false equals, Bool.and_false, Bool.false_and]
      rfl
  · by_cases word : t.kind = .kwIf
    · rw [first.span (by rw [word]; rfl)]
      rfl
    · rw [decide_eq_false word, Bool.false_and]
      rfl

theorem head_shifted (h : List.Forall₂ (Token.Shifted σ) ts us) :
    Option.Rel (Token.Shifted σ) ts.head? us.head? := by
  cases h with
  | nil => exact .none
  | cons first _ => exact .some first

theorem sequencesFrom_shifted {previous previous' : Option Token}
    (before : Option.Rel (Token.Shifted σ) previous previous')
    (h : List.Forall₂ (Token.Shifted σ) ts us) :
    sequencesFrom previous' us = (sequencesFrom previous ts).map (Diagnostic.shift σ) := by
  induction h generalizing previous previous' with
  | nil => rfl
  | cons first rest ih =>
      cases rest with
      | nil => rfl
      | cons second rest =>
          rw [sequencesFrom, sequencesFrom, shift_append, ih (.some first),
            pairFindings_shifted before first second (head_shifted rest)]

theorem sequences_shifted (h : List.Forall₂ (Token.Shifted σ) ts us) :
    sequences us = (sequences ts).map (Diagnostic.shift σ) := by
  rw [sequences, sequences, sequencesFrom_shifted .none h, Diagnostic.inOrder_shift]

/-- The first token that is no line break. -/
theorem find_shifted (h : List.Forall₂ (Token.Shifted σ) ts us) : Option.Rel (Token.Shifted σ)
    (ts.find? (·.kind != .newline)) (us.find? (·.kind != .newline)) := by
  induction h with
  | nil => exact .none
  | cons first _ ih =>
      rw [List.find?_cons, List.find?_cons, first.kind]
      split
      · exact .some first
      · exact ih

/-- A name and its place. -/
theorem name_shifted {kind : Kind} (h : t.Shifted σ u) (here : t.kind = kind)
    (solid : kind.isSolid = true)
    (plain : kind ≠ .string) : u.text = t.text ∧ u.span = t.span.shift σ :=
  ⟨h.text (here ▸ plain) (here ▸ Kind.isSolid_ne solid rfl), h.span (here ▸ solid)⟩

theorem readOnlyAssignments_shifted (h : List.Forall₂ (Token.Shifted σ) ts us) :
    readOnlyAssignments us = (readOnlyAssignments ts).map (Diagnostic.shift σ) := by
  induction h with
  | nil => rfl
  | @cons t u ts us first rest ih =>
      rw [readOnlyAssignments, readOnlyAssignments, shift_append, ih, shift_ite,
        any_shifted (find_shifted rest) fun kind => decide (kind = .assign), first.kind]
      refine congrArg (· ++ _) ?_
      by_cases here : t.kind = .builtinVar
      · obtain ⟨text, span⟩ := name_shifted first here rfl (by decide)
        rw [text, span]
        rfl
      · rw [decide_eq_false here, Bool.false_and, Bool.false_and]
        rfl

theorem moved_id (found : List Diagnostic) : moved id found = found := List.map_id found

/-- The findings of a pass over statements that is made from sketches. -/
theorem moved_sketches {body body' : List Stmt} (same : Parser.SketchedAll σ Stmt.sketch body body')
    (pass : List Stmt → List Diagnostic)
    (sketches : ∀ f body, pass (body.map (Stmt.sketch f)) = moved f (pass body)) :
    pass body' = (pass body).map (Diagnostic.shift σ) := by
  have plain := sketches id body'
  rw [same, sketches, moved_id] at plain
  exact plain.symm

theorem tree_shifted {program program' : Program} (h : List.Forall₂ (Token.Shifted σ) ts us)
    (same : Parser.SketchedAll σ Stmt.sketch program.body program'.body) :
    tree us program' = (tree ts program).map (Diagnostic.shift σ) := by
  have calls : undefinedCalls program' = (undefinedCalls program).map (Diagnostic.shift σ) :=
    moved_sketches same (fun body => undefinedCalls ⟨body, program.span⟩) fun f body =>
      undefinedCalls_sketch f body _ _
  rw [tree, tree, ← Diagnostic.inOrder_shift, shift_append, shift_append, calls,
    readOnlyAssignments_shifted h,
    moved_sketches same (fun body => (Stmt.lists body).flatMap listFindings) lists_findings_sketch]

theorem afterDot_shifted {a b : Option Token} (h : Option.Rel (Token.Shifted σ) a b) :
    afterDot b = afterDot a :=
  any_shifted h fun kind => decide (kind = .dot)

theorem namesFrom_shifted (settings : LintSettings) (reported : List String)
    {previous previous' : Option Token} (before : Option.Rel (Token.Shifted σ) previous previous')
    (h : List.Forall₂ (Token.Shifted σ) ts us) : namesFrom settings reported previous' us =
    (namesFrom settings reported previous ts).map (Diagnostic.shift σ) := by
  induction h generalizing previous previous' reported with
  | nil => rfl
  | @cons t u ts us first rest ih =>
      by_cases named : t.kind = .identifier
      · obtain ⟨text, span⟩ := name_shifted first named rfl (by decide)
        have finding :
            nameFinding? settings u = (nameFinding? settings t).map (Diagnostic.shift σ) := by
          rw [nameFinding?, nameFinding?, text, span]
          split
          · rfl
          · split <;> rfl
        rw [namesFrom, namesFrom, first.kind, text, afterDot_shifted before, finding]
        split
        · cases nameFinding? settings t with
          | none => exact ih reported (.some first)
          | some d =>
              rw [Option.map_some, List.map_cons]
              dsimp only
              rw [ih (t.text :: reported) (.some first)]
        · exact ih reported (.some first)
      · have other : (decide (t.kind = .identifier)) = false := decide_eq_false named
        rw [namesFrom, namesFrom, first.kind, other]
        exact ih reported (.some first)

theorem oldReferences_shifted (h : List.Forall₂ (Token.Shifted σ) ts us) :
    oldReferences us = (oldReferences ts).map (Diagnostic.shift σ) := by
  induction h with
  | nil => rfl
  | @cons t u ts us first rest ih =>
      rw [oldReferences, oldReferences] at ih ⊢
      rw [List.filterMap_cons, List.filterMap_cons, first.kind]
      by_cases string : t.kind = .string
      · rw [first.refers string, first.span (by rw [string]; rfl)]
        by_cases refers : percentVariable.occurs t.text.toList = true
        · simp only [string, refers, decide_true, Bool.and_true, if_true, List.map_cons, ih]
          rfl
        · rw [Bool.not_eq_true] at refers
          simp only [refers, Bool.and_false, Bool.false_eq_true, if_false, ih]
      · simp only [string, decide_false, Bool.false_and, Bool.false_eq_true, if_false, ih]

theorem loopDepthFrom_shifted (limit : UInt64) (opened : List Bool) (pending : Bool)
    (h : List.Forall₂ (Token.Shifted σ) ts us) : loopDepthFrom limit opened pending us =
    (loopDepthFrom limit opened pending ts).map (Diagnostic.shift σ) := by
  induction h generalizing opened pending with
  | nil => rfl
  | @cons t u ts us first rest ih =>
      have opens := any_shifted (find_shifted rest) fun kind => decide (kind = .lBrace)
      rw [loopDepthFrom, loopDepthFrom, first.kind]
      split
      · next loop =>
          have solid : t.kind.isSolid = true := by
            generalize t.kind = kind at loop
            cases kind <;> first | rfl | cases loop
          dsimp only
          rw [shift_append, shift_ite, ih, first.span solid]
          rfl
      · split
        · exact ih _ _
        · exact ih _ _
        · rw [opens]
          exact ih _ _
        · exact ih _ _

theorem dangerousFrom_shifted {previous previous' : Option Token}
    (before : Option.Rel (Token.Shifted σ) previous previous')
    (h : List.Forall₂ (Token.Shifted σ) ts us) :
    dangerousFrom previous' us = (dangerousFrom previous ts).map (Diagnostic.shift σ) := by
  induction h generalizing previous previous' with
  | nil => rfl
  | @cons t u ts us first rest ih =>
      rw [dangerousFrom, dangerousFrom, shift_append, ih (.some first), shift_ite, first.kind,
        afterDot_shifted before]
      refine congrArg (· ++ _) ?_
      by_cases named : t.kind = .identifier
      · obtain ⟨text, span⟩ := name_shifted first named rfl (by decide)
        rw [text, span]
        rfl
      · rw [decide_eq_false named, Bool.false_and, Bool.false_and]
        rfl

theorem countOn_shifted (h : List.Forall₂ (Token.Shifted σ) ts us) (kind : Kind) (line : Nat) :
    countOn us kind line = countOn ts kind line := by
  rw [countOn, countOn]
  induction h with
  | nil => rfl
  | cons first _ ih => rw [List.countP_cons, List.countP_cons, ih, first.kind, first.startLine]

theorem isContinued_shifted (h : List.Forall₂ (Token.Shifted σ) ts us) (line : Nat) :
    isContinued us line = isContinued ts line := by
  rw [isContinued, isContinued]
  induction h with
  | nil => rfl
  | cons first _ ih =>
      rw [List.any_cons, List.any_cons, ih, first.kind, first.startLine, first.stopLine]

/-- Lines whose columns have been moved. -/
def Ruled (σ : Shift) (index index' : LineIndex) (number : Nat) (lines : List (List Char)) : Prop :=
  ∀ i line, lines[i]? = some line → ∀ column, column ≤ line.length →
    index'.positionAt (number + i) (column + 1) =
    (index.positionAt (number + i) (column + 1)).shift σ

/-- The findings about a line whose ends have been moved. -/
theorem indentFindings_shifted {index index' : LineIndex} {width : UInt64} {number level : Nat}
    {line : List Char} (h : List.Forall₂ (Token.Shifted σ) ts us)
    (start : index'.positionAt number 1 = (index.positionAt number 1).shift σ)
    (stop : index'.positionAt number ((line.takeWhile isIndent).length + 1) =
      (index.positionAt number ((line.takeWhile isIndent).length + 1)).shift σ) :
    indentFindings width index' us number level line =
      (indentFindings width index ts number level line).map (List.map (Diagnostic.shift σ)) := by
  unfold indentFindings
  rw [isContinued_shifted h]
  dsimp only
  split
  · rfl
  · next first _ _ =>
      split
      · rfl
      · generalize (if first = '}' then level - 1 else level) = level
        rw [start, stop]
        cases indentFound width (line.takeWhile isIndent) with
        | none => rfl
        | some found =>
            dsimp only [bind, Option.bind]
            cases word? UInt64.size (level * width.toNat) with
            | none => rfl
            | some expected =>
                dsimp only
                split <;> rfl

theorem indentationFrom_shifted {index index' : LineIndex} (width : UInt64)
    (h : List.Forall₂ (Token.Shifted σ) ts us) (number level : Nat) {lines : List (List Char)}
    (ruled : Ruled σ index index' number lines) :
    indentationFrom width index' us number level lines =
      (indentationFrom width index ts number level lines).map (List.map (Diagnostic.shift σ)) := by
  induction lines generalizing number level with
  | nil => rfl
  | cons line rest ih =>
      have here := ruled 0 line rfl
      have later : Ruled σ index index' (number + 1) rest := by
        intro i line place
        have moved := ruled (i + 1) line place
        rwa [Nat.add_comm i 1, ← Nat.add_assoc] at moved
      have start := here 0 (Nat.zero_le _)
      have stop := here (line.takeWhile isIndent).length (List.takeWhile_sublist _).length_le
      rw [Nat.add_zero, Nat.zero_add] at start
      rw [Nat.add_zero] at stop
      rw [indentationFrom, indentationFrom, indentFindings_shifted h start stop, countOn_shifted h,
        countOn_shifted h, ih _ _ later]
      cases indentFindings width index ts number level line with
      | none => rfl
      | some first =>
          cases indentationFrom width index ts (number + 1)
              (level + countOn ts .lBrace number - countOn ts .rBrace number) rest with
          | none => rfl
          | some others => exact congrArg some List.map_append.symm

end Lint

open Lint in
/-- Two scripts with the same lines, the tokens of the second one moved. -/
structure Script.Moved (σ : Shift) (source source' : String) : Prop where
  origin : σ.offset 0 = 0
  tokens : List.Forall₂ (Token.Shifted σ) (scan source).tokens (scan source').tokens
  fault : (scan source').fault.map LexError.diagnostic =
    ((scan source).fault.map LexError.diagnostic).map (Diagnostic.shift σ)
  lines : Text.lines source'.toList = Text.lines source.toList
  ruled : Ruled σ (.ofText source.toList) (.ofText source'.toList) 1 (Text.lines source.toList)
  void : Text.isVoid source'.toList = Text.isVoid source.toList
  version : requiresVersion2.occurs source'.toList = requiresVersion2.occurs source.toList

/-- The parser reads moved tokens alike, comments or not. -/
theorem kept_shifted {σ : Shift} {ts us : List Token} (h : List.Forall₂ (Token.Shifted σ) ts us) :
    List.Forall₂ (Token.Shifted σ)
    (ts.filter (·.kind != .comment)) (us.filter (·.kind != .comment)) := by
  induction h with
  | nil => exact .nil
  | cons first _ ih =>
      rw [List.filter_cons, List.filter_cons, first.kind]
      split
      · exact .cons first ih
      · exact ih

namespace Script.Moved

variable {σ : Shift} {source source' : String} (h : Script.Moved σ source source')
  (settings : LintSettings)

include h in
theorem missingVersion : Lint.missingVersion settings source'.toList =
    (Lint.missingVersion settings source.toList).map (Diagnostic.shift σ) := by
  have origin : (Span.point .start).shift σ = Span.point .start := by
    rw [Span.point, Span.shift, Position.shift, Position.start, h.origin]
  rw [Lint.missingVersion, Lint.missingVersion, h.void, h.version, Lint.shift_ite, Diagnostic.shift,
    Diagnostic.lint, origin]

include h in
theorem style (indents : List Diagnostic) :
    Lint.style settings source'.toList (scan source').tokens (indents.map (Diagnostic.shift σ)) =
      (Lint.style settings source.toList (scan source).tokens indents).map
      (Diagnostic.shift σ) := by
  rw [Lint.style, Lint.style, ← Diagnostic.inOrder_shift,
    Lint.namesFrom_shifted settings [] .none h.tokens, Lint.oldReferences_shifted h.tokens,
    Lint.loopDepthFrom_shifted _ _ _ h.tokens, Lint.dangerousFrom_shifted .none h.tokens,
    h.missingVersion]
  simp only [Lint.shift_append]

include h in
theorem findings (indents : List Diagnostic) :
    Lint.findings settings source' (scan source') (indents.map (Diagnostic.shift σ)) =
      (Lint.findings settings source (scan source) indents).map (Diagnostic.shift σ) := by
  have same := parseTokens_sketched (kept_shifted h.tokens) source source'
  have ends : (scan source').fault.isSome = (scan source).fault.isSome := by
    have both := congrArg Option.isSome h.fault
    rwa [Option.isSome_map, Option.isSome_map, Option.isSome_map] at both
  have fault : ((scan source').fault.map LexError.diagnostic).toList =
      (((scan source).fault.map LexError.diagnostic).toList).map (Diagnostic.shift σ) := by
    rw [h.fault, Option.toList_map]
  rw [Lint.findings, Lint.findings]
  simp only [Lint.shift_append]
  rw [Lint.brackets_shifted h.tokens, Lint.sequences_shifted h.tokens, h.style, fault]
  congr 3
  cases here : (scan source).fault with
  | none =>
      cases there : (scan source').fault with
      | none => exact Lint.tree_shifted h.tokens same
      | some e =>
          rw [here, there] at ends
          cases ends
  | some e =>
      cases there : (scan source').fault with
      | none =>
          rw [here, there] at ends
          cases ends
      | some e' => rfl

end Script.Moved

/-- All findings of the linter are moved with the script, and it stops at both scripts or at
none. -/
theorem lint_moved {σ : Shift} {source source' : String} (h : Script.Moved σ source source')
    (settings : LintSettings) :
    lint settings source' = (lint settings source).map (List.map (Diagnostic.shift σ)) := by
  have indents : Lint.indentation settings.indentWidth source'.toList (scan source').tokens =
      (Lint.indentation settings.indentWidth source.toList (scan source).tokens).map
        (List.map (Diagnostic.shift σ)) := by
    rw [Lint.indentation, Lint.indentation, h.lines]
    exact Lint.indentationFrom_shifted settings.indentWidth h.tokens 1 0 h.ruled
  unfold lint
  dsimp only
  rw [indents]
  cases Lint.indentation settings.indentWidth source.toList (scan source).tokens with
  | none => rfl
  | some indents => exact congrArg some (h.findings settings indents)

end ScriptLens
