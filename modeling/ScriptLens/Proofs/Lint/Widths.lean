import ScriptLens.Proofs.Lint.Indentation
import ScriptLens.Proofs.Loops.Findings

/-!
Machine words in the linter. The widths of an indentation are held in words of 64 bits, and the
linter stops exactly where one of them does not fit; else the widths that it compares and shows are
those of arithmetic. The depth of a loop is a number of tokens and stays below the size of the
script.
-/

namespace ScriptLens

/-- A token covers at least one byte. -/
theorem Tiled.length_le {p : Position} {text : List Char} {tokens : List Token}
    (h : Tiled p text tokens) : tokens.length ≤ Text.byteLength text := by
  induction h with
  | blank hgap => exact Nat.zero_le _
  | token hgap covers tail ih =>
      have positive := Text.byteLength_pos covers.nonempty
      rw [List.length_cons, Text.byteLength_append, Text.byteLength_append]
      omega

/-- A script has at most as many tokens of a kind as bytes, the end mark apart. -/
theorem countP_le_size (source : String) (chosen : Token → Bool)
    (solid : ∀ t, t.kind = .eof → chosen t = false) :
    (scan source).tokens.countP chosen ≤ source.utf8ByteSize := by
  obtain ⟨read, rest, text, tiled⟩ := lineTokens_tiled source
  have whole := Text.byteLength_toList source
  have length := tiled.length_le
  have counted := List.countP_le_length (p := chosen) (l := lineTokens source)
  rw [text, Text.byteLength_append] at whole
  rw [scan_tokens, List.countP_append, List.countP_singleton, if_neg (by simp [solid])]
  omega

namespace Lint

section Bounds

/-- The level of a line is at most the number of braces opened above it. -/
theorem levelFrom_le (tokens : List Token) (number level i : Nat) :
    levelFrom tokens number level i + countAbove tokens .lBrace number ≤
    level + countAbove tokens .lBrace (number + i) := by
  induction i generalizing number level with
  | zero => exact Nat.le_refl _
  | succ i ih =>
      have below :=
        ih (number + 1) (level + countOn tokens .lBrace number - countOn tokens .rBrace number)
      rw [countAbove_succ, Nat.add_right_comm number] at below
      rw [levelFrom, ← Nat.add_assoc]
      omega

/-- The depth of a loop that is reported is above the limit, and at most the number of loops and
braces. -/
theorem loopDepthFrom_bounds {limit : UInt64} {opened : List Bool} {pending : Bool}
    {tokens : List Token} {d : Diagnostic}
    (member : d ∈ loopDepthFrom limit opened pending tokens) :
    ∃ depth, ∃ t ∈ tokens, d = tooDeep limit depth t.span ∧ limit.toNat < depth ∧
      depth ≤ opened.count true + tokens.countP fun t => t.kind.isLoop || t.kind = .lBrace := by
  induction tokens generalizing opened pending with
  | nil => cases member
  | cons t rest ih =>
      have later {opened' : List Bool} {pending' : Bool}
          (inside : d ∈ loopDepthFrom limit opened' pending' rest) (fewer : opened'.count true ≤
          opened.count true + if t.kind.isLoop || t.kind = .lBrace then 1 else 0) :
          ∃ depth, ∃ u ∈ t :: rest, d = tooDeep limit depth u.span ∧ limit.toNat < depth ∧
            depth ≤ opened.count true + (t :: rest).countP fun t =>
            t.kind.isLoop || t.kind = .lBrace := by
        obtain ⟨depth, u, place, same, deep, bound⟩ := ih inside
        refine ⟨depth, u, List.mem_cons_of_mem t place, same, deep, ?_⟩
        rw [List.countP_cons]
        omega
      by_cases kind : t.kind.isLoop = true
      · rw [loopDepthFrom_loop kind] at member
        rcases List.mem_append.mp member with here | behind
        · split at here
          · next deep =>
              refine ⟨_, t, List.mem_cons_self, List.mem_singleton.mp here, deep, ?_⟩
              rw [List.countP_cons, kind, Bool.true_or, if_pos rfl]
              omega
          · cases here
        · exact later behind (Nat.le_add_right _ _)
      · rw [loopDepthFrom, if_neg kind] at member
        split at member
        · next opens =>
            refine later member ?_
            rw [opens, List.count_cons]
            simp only [Bool.or_true, decide_true, if_true]
            split <;> omega
        · exact later member
            (Nat.le_trans ((List.tail_sublist opened).count_le true) (Nat.le_add_right _ _))
        · exact later member (Nat.le_add_right _ _)
        · exact later member (Nat.le_add_right _ _)

end Bounds

end Lint

open Lint

/-- Some measured line of a script has a width that does not fit its word. -/
def Lint.HasWideLine (width : Nat) (source : String) : Prop :=
  ∃ i line, (Text.lines source.toList)[i]? = some line ∧
    Measured source.toList (scan source).tokens (i + 1) line ∧
    ¬Fits width (levelFrom (scan source).tokens 1 0 i) line

theorem Lint.overflows_iff (settings : LintSettings) (source : String) :
    Overflows settings source ↔ HasWideLine settings.indentWidth.toNat source := by
  refine exists_congr fun i => exists_congr fun line => and_congr_right fun place => ?_
  obtain ⟨front, back, place⟩ := Text.lineAt_of_lines place
  rw [Nat.add_comm 1 i, isMeasured_iff place]

/-- A width that fits a word when it is taken once for each byte of a script overflows in no
line. -/
theorem Lint.fits_of_small {settings : LintSettings} {source : String}
    (small : max settings.indentWidth.toNat 1 * source.utf8ByteSize < 2 ^ 64) :
    ¬Overflows settings source := by
  rintro ⟨i, line, place, -, overflows⟩
  refine overflows ⟨?_, ?_⟩
  · exact Nat.lt_of_le_of_lt (indentColumns_le _ line)
      (Nat.lt_of_le_of_lt (Nat.mul_le_mul_left _ (line_length_le place)) small)
  · have level := levelFrom_le (scan source).tokens 1 0 i
    have opened := countAbove_le (scan source).tokens .lBrace (1 + i)
    have size := countP_le_size source (·.kind = .lBrace) fun t ends => by rw [ends]; rfl
    have bound : lineLevel (levelFrom (scan source).tokens 1 0 i) line ≤ source.utf8ByteSize :=
      Nat.le_trans (lineLevel_le _ line) (by omega)
    refine Nat.lt_of_le_of_lt (Nat.mul_le_mul bound (Nat.le_max_left _ 1)) ?_
    rwa [Nat.mul_comm]

/-- The linter stops exactly at the scripts with a measured line whose indentation, or the one that
its level asks for, is too wide for a word, also where the line is at level zero; it stops at none
if the width fits a word when it is taken once for each byte of the script. Where it returns, the
findings about indentation are those of arithmetic, and no loop that it reports is deeper than the
script has bytes. -/
theorem widths_exact_iff (settings : LintSettings) (source : String) :
    (lint settings source = none ↔ HasWideLine settings.indentWidth.toNat source) ∧
    (max settings.indentWidth.toNat 1 * source.utf8ByteSize < 2 ^ 64 →
      ∃ found, lint settings source = some found) ∧
    ∀ found, lint settings source = some found →
      (∀ d, d ∈ found.filter (·.code = .inconsistentIndentation) ↔
        ∃ i line level, (Text.lines source.toList)[i]? = some line ∧
          level = levelFrom (scan source).tokens 1 0 i ∧
          Misindented settings.indentWidth.toNat source.toList (scan source).tokens (i + 1) level
            line ∧
          d = indentNote source.toList (i + 1) line
            (lineLevel level line * settings.indentWidth.toNat)
            (indentColumns settings.indentWidth.toNat line)) ∧
      ∀ d ∈ found.filter (·.code = .deeplyNestedLoop), ∃ depth range,
        d = tooDeep settings.maxLoopDepth depth range ∧ settings.maxLoopDepth.toNat < depth ∧
          depth ≤ source.utf8ByteSize := by
  refine ⟨lint_eq_none_iff.trans (overflows_iff settings source), fun small => ?_,
    fun found returns => ?_⟩
  · exact ⟨_, lint_of_fits (fits_of_small small)⟩
  · obtain rfl := lint_eq_some returns
    refine ⟨fun d => ?_, fun d member => ?_⟩
    · rw [mem_listing_indentation]
      refine exists_congr fun i => exists_congr fun line => ?_
      constructor
      · rintro ⟨place, misindented, rfl⟩
        exact ⟨_, place, rfl, misindented, rfl⟩
      · rintro ⟨_, place, rfl, misindented, rfl⟩
        exact ⟨place, misindented, rfl⟩
    · rw [listing_loops] at member
      obtain ⟨depth, t, _, same, deep, bound⟩ := loopDepthFrom_bounds member
      have size := countP_le_size source (fun t => t.kind.isLoop || t.kind = .lBrace)
        fun t ends => by rw [ends]; rfl
      rw [List.count_nil, Nat.zero_add] at bound
      exact ⟨depth, t.span, same, deep, Nat.le_trans bound size⟩

/-- One tab may have any width, two of them on a line not half a word's range, also outside of all
blocks. -/
theorem widths_exact_iff_tabs :
    ¬HasWideLine 18446744073709551615 "\tx\n" ∧ HasWideLine 9223372036854775808 "\t\tx\n" ∧
    (∃ found, lint { indentWidth := 1 } "\t\tx\n" = some found) := by
  have one := (widths_exact_iff { indentWidth := 18446744073709551615 } "\tx\n").1
  have two := (widths_exact_iff { indentWidth := 9223372036854775808 } "\t\tx\n").1
  exact ⟨fun wide => absurd (one.mpr wide) (by decide +kernel), two.mp (by decide +kernel),
    (widths_exact_iff { indentWidth := 1 } "\t\tx\n").2.1 (by decide +kernel)⟩

/-- At level two half a word's range is taken twice, which a word does not hold, and there is no
finding about the line. -/
theorem widths_overflow : ∃ settings source, settings.indentWidth = 9223372036854775808 ∧
    source = "\x7b\x7b\nx\n\x7d\x7d\n" ∧
    Misindented settings.indentWidth.toNat source.toList (scan source).tokens 2 2 ['x'] ∧
    lineLevel 2 ['x'] * settings.indentWidth.toNat = 2 ^ 64 ∧
    levelFrom (scan source).tokens 1 0 1 = 2 ∧ lint settings source = none :=
  ⟨{ indentWidth := 9223372036854775808 }, _, rfl, rfl,
    ⟨⟨⟨by decide, by decide, by decide +kernel⟩, by decide⟩, by decide +kernel⟩,
    by decide +kernel, by decide +kernel, by decide +kernel⟩

end ScriptLens
