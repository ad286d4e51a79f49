import ScriptLens.Proofs.Lint.Settings
import ScriptLens.Proofs.Shift.Lint
import ScriptLens.Proofs.Uncommented.Lines

/-!
What comments change for the linter. Brackets, calls, statement lists, strings and risky calls are
checked as if there were no comments. Two checks look at neighbouring tokens: an `if` with a comment
behind it on its line is not seen to lack its condition, and an assignment to a read-only variable
is not seen across a comment. These findings, and no others, come to light when the comments are cut
out.
-/

namespace ScriptLens

/-- A list that two lists were woven into: it holds the items of both, those of each in their
order. -/
inductive Woven {α : Type} : List α → List α → List α → Prop
  | nil : Woven [] [] []
  | kept {a items others all} : Woven items others all → Woven (a :: items) others (a :: all)
  | added {a items others all} : Woven items others all → Woven items (a :: others) (a :: all)

namespace Woven

variable {α β : Type} {items others all : List α}

theorem refl (items : List α) : Woven items [] items := by
  induction items with
  | nil => exact .nil
  | cons a items ih => exact .kept ih

theorem only (others : List α) : Woven [] others others := by
  induction others with
  | nil => exact .nil
  | cons a others ih => exact .added ih

theorem append (h : Woven items others all) {items' others' all' : List α}
    (h' : Woven items' others' all') :
    Woven (items ++ items') (others ++ others') (all ++ all') := by
  induction h with
  | nil => exact h'
  | kept _ ih => exact .kept ih
  | added _ ih => exact .added ih

theorem filter (h : Woven items others all) (chosen : α → Bool) :
    Woven (items.filter chosen) (others.filter chosen) (all.filter chosen) := by
  induction h with
  | nil => exact .nil
  | @kept a items others all _ ih =>
      rw [List.filter_cons, List.filter_cons]
      split
      · exact .kept ih
      · exact ih
  | @added a items others all _ ih =>
      rw [List.filter_cons, List.filter_cons]
      split
      · exact .added ih
      · exact ih

theorem of_map {f : α → β} {first second : List β} (h : Woven first second (all.map f)) :
    ∃ items others, first = items.map f ∧ second = others.map f ∧ Woven items others all := by
  induction all generalizing first second with
  | nil =>
      cases h
      exact ⟨[], [], rfl, rfl, .nil⟩
  | cons a all ih =>
      rw [List.map_cons] at h
      cases h with
      | kept h =>
          obtain ⟨items, others, rfl, rfl, woven⟩ := ih h
          exact ⟨a :: items, others, rfl, rfl, .kept woven⟩
      | added h =>
          obtain ⟨items, others, rfl, rfl, woven⟩ := ih h
          exact ⟨items, a :: others, rfl, rfl, .added woven⟩

/-- The items of both lists told apart by marks. -/
theorem of_marks (marks : List (α × Bool)) : Woven ((marks.filter (!·.2)).map Prod.fst)
    ((marks.filter (·.2)).map Prod.fst) (marks.map Prod.fst) := by
  induction marks with
  | nil => exact .nil
  | cons m marks ih =>
      obtain ⟨a, mark⟩ := m
      cases mark with
      | false => exact .kept ih
      | true => exact .added ih

theorem marks (h : Woven items others all) : ∃ marks : List (α × Bool), all = marks.map Prod.fst ∧
    items = (marks.filter (!·.2)).map Prod.fst ∧ others = (marks.filter (·.2)).map Prod.fst := by
  induction h with
  | nil => exact ⟨[], rfl, rfl, rfl⟩
  | @kept a items others all _ ih =>
      obtain ⟨marks, rfl, rfl, rfl⟩ := ih
      exact ⟨(a, false) :: marks, rfl, rfl, rfl⟩
  | @added a items others all _ ih =>
      obtain ⟨marks, rfl, rfl, rfl⟩ := ih
      exact ⟨(a, true) :: marks, rfl, rfl, rfl⟩

/-- Both lists stay woven when findings are put in order. -/
theorem inOrder {found hidden whole : List Diagnostic} (h : Woven found hidden whole) :
    Woven (Diagnostic.inOrder found) (Diagnostic.inOrder hidden) (Diagnostic.inOrder whole) := by
  -- the marks are sorted along with the findings, and both lists are chosen from them afterwards
  obtain ⟨marks, rfl, rfl, rfl⟩ := h.marks
  have sorted (marks : List (Diagnostic × Bool)) := Sorting.map_sort Prod.fst
    (fun a b : Diagnostic => decide (a.range.start.offset ≤ b.range.start.offset)) marks
  have chosen := Sorting.filter_sort_by fun m : Diagnostic × Bool => m.1.range.start.offset
  rw [Diagnostic.inOrder, Diagnostic.inOrder, Diagnostic.inOrder, ← sorted, ← sorted, ← sorted,
    ← chosen, ← chosen]
  exact of_marks _

end Woven

/-- Behind a comment only a line break or the end mark comes. -/
def CommentsClose (tokens : List Token) : Prop :=
  tokens.IsChain fun a b => a.kind = .comment → b.kind = .newline ∨ b.kind = .eof

theorem scan_commentsClose {source : String} (clean : (scan source).fault = none) :
    CommentsClose (scan source).tokens := by
  have lexes : tokenize source = .ok (scan source).tokens := by
    rw [tokenize, clean]
  obtain ⟨front, last, whole, scanned⟩ := tokenize_scanned lexes
  rw [CommentsClose, whole, List.isChain_append]
  refine ⟨scanned.commentsEnd.imp fun _ _ feeds comment => .inl (feeds comment),
    List.isChain_singleton _, ?_⟩
  intro _ _ _ final _
  rw [List.head?_cons, Option.mem_some_iff] at final
  exact .inr (final ▸ scanned.closing)

namespace CommentsClose

variable {t u : Token} {rest : List Token}

theorem tail (h : CommentsClose (t :: rest)) : CommentsClose rest := List.IsChain.tail h

theorem next (h : CommentsClose (t :: u :: rest)) (comment : t.kind = .comment) :
    u.kind = .newline ∨ u.kind = .eof :=
  List.IsChain.rel h comment

end CommentsClose

namespace Lint

/-- An `if` that lacks its condition, behind which a comment and a line break come. -/
def commentedIfs : List Token → List Diagnostic
  | current :: next :: rest =>
    (if current.kind = .kwIf && next.kind = .comment && rest.head?.any (·.kind = .newline) then
      [.lint .error .incompleteIfStatement
        "Incomplete if statement: missing condition" current.span]
    else []) ++ commentedIfs (next :: rest)
  | _ => []

/-- Line breaks and comments. -/
def isGap (t : Token) : Bool := t.kind = .newline || t.kind = .comment

/-- Whether only line breaks and at least one comment stand before an assignment operator. -/
def assignsBehindComment (tokens : List Token) : Bool :=
  (tokens.takeWhile isGap).any (·.kind = .comment) &&
    (tokens.dropWhile isGap).head?.any (·.kind = .assign)

/-- Assignments to read-only variables of the engine with a comment between the variable and the
operator. -/
def commentedAssignments : List Token → List Diagnostic
  | [] => []
  | t :: rest =>
    (if t.kind = .builtinVar && Names.isReadOnly t.text && assignsBehindComment rest then
      [.lint .error .readOnlyAssignment
        ("Cannot assign to read-only variable '" ++ t.text ++ "'") t.span]
    else []) ++ commentedAssignments rest

/-- The findings that comments hide. -/
def hidden (tokens : List Token) : List Diagnostic :=
  Diagnostic.inOrder (commentedIfs tokens) ++ Diagnostic.inOrder (commentedAssignments tokens)

section Passes

variable {tokens : List Token}

theorem pair_kept (b : Bracket) (stack tokens : List Token) :
    b.pair stack (tokens.filter (·.kind != .comment)) = b.pair stack tokens := by
  induction tokens generalizing stack with
  | nil => rfl
  | cons t rest ih =>
      by_cases comment : t.kind = .comment
      · have other : ∀ kind, kind ≠ .comment → t.kind ≠ kind := fun kind apart same =>
          apart (same ▸ comment)
        rw [List.filter_cons_of_neg (by simp [comment]), ih,
          Bracket.pair_other (other _ (by cases b <;> decide)) (other _ (by cases b <;> decide))]
      · rw [List.filter_cons_of_pos (by simp [comment])]
        by_cases opens : t.kind = b.opening
        · rw [Bracket.pair_opening opens, Bracket.pair_opening opens, ih]
        by_cases closes : t.kind = b.closing
        · cases stack with
          | nil =>
              rw [Bracket.pair_closing_unmatched closes, Bracket.pair_closing_unmatched closes, ih]
          | cons first stack => rw [Bracket.pair_closing closes, Bracket.pair_closing closes, ih]
        · rw [Bracket.pair_other opens closes, Bracket.pair_other opens closes, ih]

/-- Comments are no brackets. -/
theorem brackets_kept (tokens : List Token) :
    brackets (tokens.filter (·.kind != .comment)) = brackets tokens := by
  simp only [brackets, Bracket.findings, pair_kept]

/-- Comments are no strings. -/
theorem oldReferences_kept (tokens : List Token) :
    oldReferences (tokens.filter (·.kind != .comment)) = oldReferences tokens := by
  induction tokens with
  | nil => rfl
  | cons t rest ih =>
      by_cases comment : t.kind = .comment
      · rw [List.filter_cons_of_neg (by simp [comment]), ih, oldReferences, oldReferences,
          List.filterMap_cons]
        simp [comment]
      · rw [List.filter_cons_of_pos (by simp [comment])]
        rw [oldReferences, oldReferences] at ih ⊢
        rw [List.filterMap_cons, List.filterMap_cons, ih]

theorem dangerousFrom_kept {previous previous' : Option Token} (close : CommentsClose tokens)
    (same : previous' = previous ∨ ∀ t ∈ tokens.head?, t.kind ≠ .identifier) :
    dangerousFrom previous' (tokens.filter (·.kind != .comment)) =
    dangerousFrom previous tokens := by
  induction tokens generalizing previous previous' with
  | nil => rfl
  | cons t rest ih =>
      by_cases comment : t.kind = .comment
      · have plain : (decide (t.kind = .identifier)) = false := by simp [comment]
        rw [List.filter_cons_of_neg (by simp [comment]), dangerousFrom, plain]
        refine ih close.tail (.inr fun u next => ?_)
        cases rest with
        | nil => cases next
        | cons v rest =>
            cases next
            rcases close.next comment with kind | kind <;> rw [kind] <;> decide
      · rw [List.filter_cons_of_pos (by simp [comment]), dangerousFrom, dangerousFrom,
          ih close.tail (.inl rfl)]
        rcases same with rfl | other
        · rfl
        · have plain : (decide (t.kind = .identifier)) = false := by simpa using other t rfl
          rw [plain]
          rfl

/-- Without comments the first token that is no line break is the one behind the gap. -/
theorem find_kept (tokens : List Token) :
    (tokens.filter (·.kind != .comment)).find? (·.kind != .newline) =
    (tokens.dropWhile isGap).head? := by
  induction tokens with
  | nil => rfl
  | cons t rest ih =>
      by_cases comment : t.kind = .comment
      · rw [List.filter_cons_of_neg (by simp [comment]),
          List.dropWhile_cons_of_pos (by simp [isGap, comment]), ih]
      rw [List.filter_cons_of_pos (by simp [comment])]
      by_cases line : t.kind = .newline
      · rw [List.find?_cons_of_neg (by simp [line]),
          List.dropWhile_cons_of_pos (by simp [isGap, line]), ih]
      · rw [List.find?_cons_of_pos (by simp [line]),
          List.dropWhile_cons_of_neg (by simp [isGap, line, comment])]
        rfl

/-- An assignment operator comes next without comments when it does so with them, or else behind one
of them. -/
theorem assigns_kept (tokens : List Token) :
    ((tokens.dropWhile isGap).head?.any (·.kind = .assign) = (tokens.find? (·.kind != .newline)).any
      (·.kind = .assign) ∧ assignsBehindComment tokens = false) ∨
      ((tokens.find? (·.kind != .newline)).any (·.kind = .assign) = false ∧
        (tokens.dropWhile isGap).head?.any (·.kind = .assign) = assignsBehindComment tokens) := by
  induction tokens with
  | nil => exact .inl ⟨rfl, rfl⟩
  | cons t rest ih =>
      by_cases comment : t.kind = .comment
      · right
        simp [assignsBehindComment, isGap, comment]
      by_cases line : t.kind = .newline
      · simpa [assignsBehindComment, isGap, line] using ih
      · left
        simp [assignsBehindComment, isGap, line, comment]

/-- Read-only variables are found assigned to as before, and also across comments. -/
theorem readOnlyAssignments_woven (tokens : List Token) : Woven (readOnlyAssignments tokens)
    (commentedAssignments tokens) (readOnlyAssignments (tokens.filter (·.kind != .comment))) := by
  induction tokens with
  | nil => exact .nil
  | cons t rest ih =>
      rw [readOnlyAssignments, commentedAssignments]
      by_cases comment : t.kind = .comment
      · have plain : (decide (t.kind = .builtinVar)) = false := by simp [comment]
        rw [List.filter_cons_of_neg (by simp [comment]), plain]
        exact ih
      rw [List.filter_cons_of_pos (by simp [comment]), readOnlyAssignments, find_kept]
      refine Woven.append ?_ ih
      by_cases guarded : (decide (t.kind = .builtinVar) && Names.isReadOnly t.text) = true
      · rw [guarded, Bool.true_and, Bool.true_and, Bool.true_and]
        rcases assigns_kept rest with ⟨same, none⟩ | ⟨none, same⟩
        · rw [same, none]
          exact .refl _
        · rw [same, none]
          exact .only _
      · rw [Bool.not_eq_true] at guarded
        rw [guarded]
        exact .nil

/-- What is asked of the next token, if it is asked of no comment, line break or end mark, is asked
of the same token without comments. -/
theorem next_kept (close : CommentsClose tokens) {asks : Kind → Bool}
    (comment : asks .comment = false) (line : asks .newline = false) (final : asks .eof = false) :
    (tokens.filter (·.kind != .comment)).head?.any (asks ·.kind) =
    tokens.head?.any (asks ·.kind) := by
  cases tokens with
  | nil => rfl
  | cons t rest =>
      by_cases kind : t.kind = .comment
      · rw [List.filter_cons_of_neg (by simp [kind]), List.head?_cons, Option.any_some,
          kind, comment]
        cases rest with
        | nil => rfl
        | cons u rest =>
            rcases close.next kind with feed | eof
            · rw [List.filter_cons_of_pos (by simp [feed]), List.head?_cons,
                Option.any_some, feed, line]
            · rw [List.filter_cons_of_pos (by simp [eof]), List.head?_cons,
                Option.any_some, eof, final]
      · rw [List.filter_cons_of_pos (by simp [kind])]
        rfl

section Pairs

variable {previous previous' after : Option Token} {t u : Token}

theorem pairFindings_kept (close : CommentsClose tokens)
    (same : previous' = previous ∨ t.kind ≠ .identifier) :
    pairFindings previous' t u (tokens.filter (·.kind != .comment)).head? =
    pairFindings previous t u tokens.head? := by
  rw [pairFindings, pairFindings, next_kept close rfl rfl rfl]
  rcases same with rfl | other
  · rfl
  · rw [decide_eq_false other]
    rfl

/-- A comment makes no findings with its neighbours. -/
theorem pairFindings_comment (comment : t.kind = .comment ∨ u.kind = .comment) :
    pairFindings previous t u after = [] := by
  rcases comment with kind | kind <;> simp [pairFindings, kind, isSequenceOperator]

/-- At the end of a line only an `if` without its condition is found. -/
theorem pairFindings_last (last : u.kind = .newline ∨ u.kind = .eof) :
    pairFindings previous t u after =
    if t.kind = .kwIf && u.kind = .newline then
      [.lint .error .incompleteIfStatement "Incomplete if statement: missing condition" t.span]
    else [] := by
  rcases last with kind | kind <;> simp [pairFindings, kind, isSequenceOperator]

end Pairs

/-- Neighbours are found fault with as before, and also an `if` at the end of its line. -/
theorem sequencesFrom_woven {previous previous' : Option Token} (close : CommentsClose tokens)
    (same : previous' = previous ∨ ∀ t ∈ tokens.head?, t.kind ≠ .identifier) :
    Woven (sequencesFrom previous tokens) (commentedIfs tokens)
      (sequencesFrom previous' (tokens.filter (·.kind != .comment))) := by
  -- a comment in front goes; one behind the first token goes too, and the token meets what comes
  -- behind the comment
  induction tokens generalizing previous previous' with
  | nil => exact .nil
  | cons t rest ih =>
      cases rest with
      | nil =>
          rw [List.filter_cons]
          split <;> exact .nil
      | cons u rest =>
          rw [sequencesFrom, commentedIfs]
          by_cases comment : t.kind = .comment
          · have plain : (decide (t.kind = .kwIf)) = false := by simp [comment]
            rw [List.filter_cons_of_neg (by simp [comment]),
              pairFindings_comment (.inl comment), plain]
            refine ih close.tail (.inr fun v next => ?_)
            cases next
            rcases close.next comment with kind | kind <;> rw [kind] <;> decide
          rw [List.filter_cons_of_pos (by simp [comment])]
          have later := @ih (some t) (some t) close.tail (.inl rfl)
          by_cases behind : u.kind = .comment
          · rw [pairFindings_comment (.inr behind)]
            rw [List.filter_cons_of_neg (by simp [behind])] at later ⊢
            cases rest with
            | nil =>
                rw [List.head?_nil, Option.any_none, Bool.and_false]
                exact .nil
            | cons v rest =>
                have last := close.tail.next behind
                have kept : (v.kind != .comment) =
                  true := by rcases last with kind | kind <;> rw [kind] <;> rfl
                rw [List.filter_cons_of_pos (by exact kept)] at later ⊢
                generalize sequencesFrom (some t) (u :: v :: rest) = findings at later ⊢
                rw [sequencesFrom, pairFindings_last last, behind]
                refine .append ?_ later
                simp only [decide_true, Bool.and_true, List.head?_cons, Option.any_some]
                exact .only _
          · have plain : (decide (u.kind = .comment)) = false := decide_eq_false behind
            rw [List.filter_cons_of_pos (by simp [behind])] at later ⊢
            rw [sequencesFrom, plain, Bool.and_false, Bool.false_and,
              pairFindings_kept close.tail.tail (same.imp id fun other => other t rfl)]
            exact .append (.refl _) later

theorem tree_woven (tokens : List Token) (program : Program) : Woven (tree tokens program)
    (Diagnostic.inOrder (commentedAssignments tokens))
    (tree (tokens.filter (·.kind != .comment)) program) :=
  ((Woven.refl _).append (readOnlyAssignments_woven tokens)).inOrder

/-- The findings that errors and warnings come from. -/
def problemsOf (tokens : List Token) (program : Program) : List Diagnostic :=
  brackets tokens ++ sequences tokens ++ tree tokens program ++
    Diagnostic.inOrder (oldReferences tokens ++ dangerousFrom none tokens)

theorem problemsOf_woven (close : CommentsClose tokens) (program : Program) :
    Woven (problemsOf tokens program) (hidden tokens)
    (problemsOf (tokens.filter (·.kind != .comment)) program) := by
  have pairs : Woven (sequences tokens) (Diagnostic.inOrder (commentedIfs tokens))
      (sequences (tokens.filter (·.kind != .comment))) :=
      (sequencesFrom_woven close (.inl rfl)).inOrder
  have woven :=
    (((Woven.refl (brackets tokens)).append pairs).append (tree_woven tokens program)).append
    (Woven.refl (Diagnostic.inOrder (oldReferences tokens ++ dangerousFrom none tokens)))
  rw [List.nil_append, List.append_nil] at woven
  rw [problemsOf, problemsOf, brackets_kept, oldReferences_kept,
    dangerousFrom_kept close (.inl rfl)]
  exact woven

theorem problemsOf_shifted {σ : Shift} {us : List Token} {program program' : Program}
    (h : List.Forall₂ (Token.Shifted σ) tokens us)
    (same : Parser.SketchedAll σ Stmt.sketch program.body program'.body) :
    problemsOf us program' = (problemsOf tokens program).map (Diagnostic.shift σ) := by
  rw [problemsOf, problemsOf, shift_append, shift_append, shift_append, ← Diagnostic.inOrder_shift,
    shift_append, brackets_shifted h, sequences_shifted h, tree_shifted h same,
    oldReferences_shifted h, dangerousFrom_shifted .none h]

theorem commentedIfs_errors (tokens : List Token) : ∀ d ∈ commentedIfs tokens,
    d.severity = .error := by
  induction tokens with
  | nil => exact fun _ member => absurd member List.not_mem_nil
  | cons t rest ih =>
      cases rest with
      | nil => exact fun _ member => absurd member List.not_mem_nil
      | cons u rest =>
          intro d member
          rw [commentedIfs] at member
          rcases List.mem_append.mp member with here | later
          · split at here
            · rw [List.mem_singleton.mp here]
              rfl
            · exact absurd here List.not_mem_nil
          · exact ih d later

theorem commentedAssignments_errors (tokens : List Token) : ∀ d ∈ commentedAssignments tokens,
    d.severity = .error := by
  induction tokens with
  | nil => exact fun _ member => absurd member List.not_mem_nil
  | cons t rest ih =>
      intro d member
      rw [commentedAssignments] at member
      rcases List.mem_append.mp member with here | later
      · split at here
        · rw [List.mem_singleton.mp here]
          rfl
        · exact absurd here List.not_mem_nil
      · exact ih d later

/-- All findings that comments hide are errors. -/
theorem hidden_problems (tokens : List Token) :
    (hidden tokens).filter Diagnostic.isProblem = hidden tokens := by
  refine List.filter_eq_self.mpr fun d member => ?_
  have error : d.severity = .error := by
    rcases List.mem_append.mp member with first | second
    · exact commentedIfs_errors tokens d (Diagnostic.mem_inOrder.mp first)
    · exact commentedAssignments_errors tokens d (Diagnostic.mem_inOrder.mp second)
  rw [Diagnostic.isProblem, error]
  rfl

end Passes

end Lint

open Diagnostic (isProblem)

theorem listing_problemsOf {source : String} (clean : (scan source).fault = none)
    (settings : LintSettings) : (Lint.listing settings source).filter isProblem =
      (Lint.problemsOf (scan source).tokens
        (parseTokens source (scan source).tokens).program).filter isProblem := by
  rw [Lint.listing, Lint.findings, Lint.problemsOf, clean]
  simp only [List.filter_append, Lint.style_problems _ _ _ (Lint.indentNotes_remarks _ _ _ _ _ _),
    Diagnostic.filter_inOrder, Option.map_none, Option.toList_none, List.append_nil]

theorem Diagnostic.isProblem_shift (σ : Shift) (found : List Diagnostic) :
    (found.map (shift σ)).filter isProblem = (found.filter isProblem).map (shift σ) := by
  rw [List.filter_map]
  rfl

/-- Comments can only hide errors: of a script that scans, the errors and warnings that any settings
report are reported in the same order, with the same messages, lines and columns, when the text of
its comments is cut out, and beside them only those that the comments hid: for every `if` with a
comment and a line break behind it that its condition is missing, and for every read-only variable
with an assignment operator behind line breaks and comments that it is assigned to. Where the linter
returns for the script it returns for the script without comments. -/
theorem comments_hide_errors (settings : LintSettings) {source : String}
    (clean : (scan source).fault = none) :
    Lint.Yields settings source (lint settings source) fun found =>
      ∃ found', lint settings (withoutComments source) = some found' ∧
        ∃ kept shown, Woven kept shown (found'.filter isProblem) ∧
          List.Forall₂ Diagnostic.Agrees kept (found.filter isProblem) ∧
          List.Forall₂ Diagnostic.Agrees shown (Lint.hidden (scan source).tokens) := by
  obtain ⟨tokens, clean'⟩ := scan_withoutComments clean
  have kept : List.Forall₂ (Token.Shifted (.ofComments source))
      ((scan (withoutComments source)).tokens.filter (·.kind != .comment))
      ((scan source).tokens.filter (·.kind != .comment)) := by
    have twice := kept_shifted tokens
    rwa [List.filter_filter, List.filter_congr fun _ _ => Bool.and_self _] at twice
  have same := parseTokens_sketched kept (withoutComments source) source
  have woven := (Lint.problemsOf_woven (scan_commentsClose clean)
    (parseTokens source (scan source).tokens).program).filter isProblem
  rw [Lint.problemsOf_shifted tokens same, Lint.hidden_problems, Diagnostic.isProblem_shift,
    ← listing_problemsOf clean settings, ← listing_problemsOf clean' settings] at woven
  obtain ⟨first, second, found, hidden, woven⟩ := woven.of_map
  refine ⟨fun fits => ⟨_, Lint.lint_of_fits fits, _, Lint.lint_of_fits
    (mt (Lint.overflows_of_uncommented clean) fits), first, second, woven, ?_, ?_⟩,
    Lint.lint_of_overflow⟩
  · rw [found]
    exact Diagnostic.all_agree_shift _ first
  · rw [hidden]
    exact Diagnostic.all_agree_shift _ second

theorem comments_hide_errors_sample : ∃ source found found',
    source = "if ; c\nA_Now ; d\n:= 5\nx = 1\n" ∧ (scan source).fault = none ∧
    lint {} source = some found ∧ lint {} (withoutComments source) = some found' ∧
    ((lint {} source).map fun found => (found.filter isProblem).length) = some 1 ∧
    ((lint {} (withoutComments source)).map fun found => (found.filter isProblem).length) = some 3 ∧
    ∃ kept shown, Woven kept shown (found'.filter isProblem) ∧
      List.Forall₂ Diagnostic.Agrees kept (found.filter isProblem) ∧
      List.Forall₂ Diagnostic.Agrees shown (Lint.hidden (scan source).tokens) := by
  have clean : (scan "if ; c\nA_Now ; d\n:= 5\nx = 1\n").fault = none := by decide +kernel
  obtain ⟨found, returns, found', returns', woven⟩ := (comments_hide_errors {} clean).returns
    (mt Lint.lint_eq_none_iff.mpr (by decide +kernel))
  exact ⟨_, found, found', rfl, clean, returns,
    returns', by decide +kernel, by decide +kernel, woven⟩

/-- A comment behind an `if`, and one between a read-only variable and its assignment operator, each
hide an error. -/
theorem comments_change_errors :
    ((scan "if ; c\n").fault = none ∧ withoutComments "if ; c\n" = "if \n" ∧
      (lint {} "if ; c\n").map (fun found => (found.filter isProblem).map (·.code)) = some [] ∧
      (lint {} (withoutComments "if ; c\n")).map
        (fun found => (found.filter isProblem).map (·.code)) = some [.incompleteIfStatement]) ∧
    (scan "A_Now ; c\n:= 5\n").fault = none ∧
      withoutComments "A_Now ; c\n:= 5\n" = "A_Now \n:= 5\n" ∧
      (lint {} "A_Now ; c\n:= 5\n").map
        (fun found => (found.filter isProblem).map (·.code)) = some [] ∧
      (lint {} (withoutComments "A_Now ; c\n:= 5\n")).map
        (fun found => (found.filter isProblem).map (·.code)) = some [.readOnlyAssignment] := by
  decide +kernel

end ScriptLens
