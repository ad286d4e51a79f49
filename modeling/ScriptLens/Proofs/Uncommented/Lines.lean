import ScriptLens.Proofs.Highlight.LineEnds
import ScriptLens.Proofs.Lint.Indentation
import ScriptLens.Proofs.Shift.Lint
import ScriptLens.Proofs.Uncommented.Scan

/-!
The lines of a script without the text of its comments. What is left of a line is its start, so a
line that is measured without its comment is measured with it, at the same level and with the same
width; the linter stops at no script without comments that it does not stop at with them.
-/

namespace ScriptLens

namespace Text

/-- Lines of which only the starts are kept. -/
abbrev Trimmed (lines kept : List (List Char)) : Prop :=
  List.Forall₂ (fun line start => start <+: line) lines kept

theorem Trimmed.append {text kept : List Char} (h : Trimmed (splitLines text) (splitLines kept))
    (front : List Char) : Trimmed (splitLines (front ++ text)) (splitLines (front ++ kept)) := by
  induction front with
  | nil => exact h
  | cons c front ih =>
      rw [List.cons_append, List.cons_append, splitLines, splitLines]
      split
      · exact .cons List.prefix_rfl ih
      · generalize splitLines (front ++ text) = lines at ih ⊢
        generalize splitLines (front ++ kept) = starts at ih ⊢
        cases ih with
        | nil => exact .cons List.prefix_rfl .nil
        | cons first others => exact .cons ((List.prefix_cons_inj c).mpr first) others

/-- Comments are cut off the ends of lines. -/
theorem trimmed_uncommented (text : List Char) :
    Trimmed (splitLines text) (splitLines (uncommented text)) := by
  induction text using uncommented.induct with
  | case1 =>
      rw [uncommented_nil]
      exact .cons List.prefix_rfl .nil
  | case2 rest ih =>
      obtain ⟨-, free, feed⟩ := Lexeme.read_comment rest
      rw [uncommented_comment]
      have whole := Lexeme.read_append ';' rest
      cases behind : (Lexeme.read ';' rest).rest with
      | nil =>
          rw [behind, List.append_nil] at whole
          rw [← whole, splitLines_line free, uncommented_nil]
          exact .cons List.nil_prefix .nil
      | cons d more =>
          obtain rfl := feed d (by rw [behind]; rfl)
          rw [behind] at whole ih
          rw [← whole, splitLines_feed free]
          rw [uncommented_feed, splitLines, if_pos rfl, splitLines, if_pos rfl] at ih
          rw [uncommented_feed, splitLines, if_pos rfl]
          cases ih with
          | cons _ others => exact .cons List.nil_prefix others
  | case3 c rest other ih =>
      rw [uncommented_lexeme other, ← Lexeme.read_append c rest]
      exact ih.append _

theorem stripReturn_prefix {line start : List Char} (h : start <+: line) :
    stripReturn start <+: stripReturn line := by
  obtain ⟨behind, rfl⟩ := h
  by_cases empty : behind = []
  · exact ⟨[], by rw [List.append_nil, empty, List.append_nil]⟩
  · obtain ⟨tail, whole, -⟩ := stripReturn_append start
    rw [stripReturn_behind start empty]
    exact ⟨tail ++ stripReturn behind, by rw [← List.append_assoc, ← whole]⟩

/-- Each line of a script without comments is the start of the line with its comment. -/
theorem lines_uncommented {text start : List Char} {i : Nat}
    (place : (lines (uncommented text))[i]? = some start) :
    ∃ line, (lines text)[i]? = some line ∧ start <+: line := by
  have trimmed : Trimmed (lines text) (lines (uncommented text)) := by
    rw [Trimmed, lines, lines, List.forall₂_map_left_iff, List.forall₂_map_right_iff]
    exact (trimmed_uncommented text).imp fun _ _ start => stripReturn_prefix start
  obtain ⟨inside, rfl⟩ := List.getElem?_eq_some_iff.mp place
  have inside' : i < (lines text).length := trimmed.length_eq ▸ inside
  exact ⟨_, List.getElem?_eq_getElem inside', trimmed.get inside' inside⟩

end Text

namespace Lint

variable {tokens : List Token} {number level width : Nat} {line start : List Char}

/-- A line that holds something behind its blanks goes on as it starts. -/
theorem indent_prefix (h : start <+: line) {c : Char}
    (first : (start.dropWhile isIndent).head? = some c) :
    line.takeWhile isIndent = start.takeWhile isIndent ∧
      (line.dropWhile isIndent).head? = some c := by
  obtain ⟨behind, rfl⟩ := h
  obtain ⟨more, shape⟩ := List.head?_eq_some_iff.mp first
  have filled : ¬(start.takeWhile isIndent).length = start.length := by
    have whole :=
      congrArg List.length (List.takeWhile_append_dropWhile (p := isIndent) (l := start))
    rw [shape, List.length_append, List.length_cons] at whole
    omega
  rw [List.takeWhile_append, if_neg filled, List.dropWhile_append, shape]
  exact ⟨rfl, rfl⟩

theorem countOn_uncommented (tokens : List Token) {kind : Kind} (other : kind ≠ .comment)
    (line : Nat) : countOn (tokens.filter (·.kind != .comment)) kind line =
      countOn tokens kind line := by
  rw [countOn, countOn, List.countP_filter]
  refine List.countP_congr fun t _ => ?_
  simp only [Bool.and_eq_true, decide_eq_true_eq, bne_iff_ne, ne_eq]
  constructor
  · exact And.left
  · rintro ⟨rfl, here⟩
    exact ⟨⟨rfl, here⟩, other⟩

/-- Comments and moved places do not change the levels of lines. -/
theorem levelFrom_uncommented {σ : Shift} {us : List Token}
    (h : List.Forall₂ (Token.Shifted σ) us (tokens.filter (·.kind != .comment))) (i : Nat) :
    levelFrom us number level i = levelFrom tokens number level i := by
  induction i generalizing number level with
  | zero => rfl
  | succ i ih =>
      rw [levelFrom, levelFrom, ih, ← countOn_shifted h, ← countOn_shifted h,
        countOn_uncommented _ (by decide), countOn_uncommented _ (by decide)]

/-- Where no width overflows in a script, none does without its comments. -/
theorem overflows_of_uncommented {settings : LintSettings} {source : String}
    (clean : (scan source).fault = none)
    (overflows : Overflows settings (withoutComments source)) : Overflows settings source := by
  obtain ⟨i, start, place, measured, wide⟩ := overflows
  rw [withoutComments_toList clean] at place
  obtain ⟨line, place, prefix'⟩ := Text.lines_uncommented place
  obtain ⟨tokens, -⟩ := scan_withoutComments clean
  rw [isMeasured, Bool.and_eq_true, Option.any_eq_true, Bool.not_eq_true'] at measured
  obtain ⟨⟨c, first, code⟩, outside⟩ := measured
  obtain ⟨indent, first'⟩ := indent_prefix prefix' first
  refine ⟨i, line, place, ?_, ?_⟩
  · rw [isMeasured, first', Option.any_some, code, Bool.true_and, Bool.not_eq_true',
      ← Bool.not_eq_true, isContinued, List.any_eq_true]
    rintro ⟨t, scanned, crosses⟩
    have kept : t.kind ≠ .comment := by
      intro comment
      simp only [Bool.and_eq_true, bne_iff_ne, ne_eq, decide_eq_true_eq] at crosses
      have string := string_of_lines scanned crosses.1.1 (by omega)
      rw [comment] at string
      cases string
    rw [← isContinued_shifted tokens, isContinued, List.any_eq_false] at outside
    exact outside t (List.mem_filter.mpr ⟨scanned, by simpa using kept⟩) crosses
  · rw [levelFrom_uncommented tokens] at wide
    rintro ⟨found, expected⟩
    refine wide ⟨?_, ?_⟩
    · rwa [indentColumns, ← indent]
    · rwa [lineLevel, first, ← first']

end Lint

end ScriptLens
