import ScriptLens.Lint.Basic
import Mathlib.Algebra.GroupWithZero.Nat
import Mathlib.Tactic.ByContra

/-!
The linter in arithmetic. The widths of an indentation are added up and multiplied in words of 64
bits, and a run stops at the first that leaves its word. Where all of them fit, the findings are
those of numbers of any size.
-/

namespace ScriptLens

namespace Lint

section Lines

/-- The width of the indentation of a line. -/
def indentColumns (width : Nat) (line : List Char) : Nat :=
  ((line.takeWhile isIndent).map fun c => if c = '\t' then width else 1).sum

/-- The level at which a line should stand: a brace that closes a block stands where the block was
opened. -/
def lineLevel (level : Nat) (line : List Char) : Nat :=
  if (line.dropWhile isIndent).head? = some '}' then level - 1 else level

theorem lineLevel_le (level : Nat) (line : List Char) : lineLevel level line ≤ level := by
  rw [lineLevel]
  split <;> omega

/-- Whether the indentation of a line is measured: the line holds something, is no comment and does
not begin inside a token. -/
def isMeasured (tokens : List Token) (number : Nat) (line : List Char) : Bool :=
  (line.dropWhile isIndent).head?.any (· != ';') && !isContinued tokens number

/-- Both widths of a line fit their words. -/
structure Fits (width level : Nat) (line : List Char) : Prop where
  found : indentColumns width line < UInt64.size
  expected : lineLevel level line * width < UInt64.size

/-- The remark about the blanks at the start of a line. -/
def indentNote (source : List Char) (number : Nat) (line : List Char) (expected found : Nat) :
    Diagnostic :=
  .lint .info .inconsistentIndentation
    ("Expected " ++ toString expected ++ " spaces, found " ++ toString found)
    ⟨(LineIndex.ofText source).positionAt number 1,
      (LineIndex.ofText source).positionAt number ((line.takeWhile isIndent).length + 1)⟩

/-- The remark about a line, with widths of any size. -/
def indentNote? (width : Nat) (source : List Char) (tokens : List Token) (number level : Nat)
    (line : List Char) : Option Diagnostic :=
  if isMeasured tokens number line ∧ 0 < lineLevel level line ∧
      indentColumns width line ≠ lineLevel level line * width then
    some (indentNote source number line (lineLevel level line * width) (indentColumns width line))
  else none

/-- The words that are added up to a width stop the run exactly where their sum does. -/
theorem indentFound_eq (width : UInt64) (line : List Char) :
    indentFound width (line.takeWhile isIndent) =
      word? UInt64.size (indentColumns width.toNat line) := by
  have added (indent : List Char) (n : Nat) (fits : n < UInt64.size) :
      indent.foldlM (fun n c => word? UInt64.size (n + if c = '\t' then width.toNat else 1)) n =
        word? UInt64.size (n + (indent.map fun c => if c = '\t' then width.toNat else 1).sum) := by
    induction indent generalizing n with
    | nil => exact (word?_of_lt fits).symm
    | cons c indent ih =>
        rw [List.foldlM_cons, List.map_cons, List.sum_cons, ← Nat.add_assoc]
        by_cases next : n + (if c = '\t' then width.toNat else 1) < UInt64.size
        · rw [word?_of_lt next]
          exact ih _ next
        · have large := Nat.le_of_not_lt next
          rw [word?_of_le large, word?_of_le (Nat.le_trans large (Nat.le_add_right _ _))]
          rfl
  have whole := added (line.takeWhile isIndent) 0 (by decide)
  rwa [Nat.zero_add] at whole

/-- What is computed for a line that is measured. -/
theorem indentFindings_measured {width : UInt64} {source : List Char} {tokens : List Token}
    {number level : Nat} {line : List Char} (measured : isMeasured tokens number line = true) :
    indentFindings width (.ofText source) tokens number level line = do
      let found ← word? UInt64.size (indentColumns width.toNat line)
      let expected ← word? UInt64.size (lineLevel level line * width.toNat)
      if lineLevel level line = 0 || found = expected then return []
      return [indentNote source number line expected found] := by
  rw [isMeasured, Bool.and_eq_true, Bool.not_eq_true', Option.any_eq_true] at measured
  obtain ⟨⟨first, starts, code⟩, outside⟩ := measured
  obtain ⟨rest, shape⟩ := List.head?_eq_some_iff.mp starts
  have level' : (if first = '}' then level - 1 else level) = lineLevel level line := by
    rw [lineLevel, starts]
    simp
  have free : ¬(decide (first = ';') || isContinued tokens number) = true := by
    simpa [outside] using code
  unfold indentFindings
  rw [shape]
  dsimp only
  rw [if_neg free, indentFound_eq, level']
  rfl

theorem indentFindings_free {width : UInt64} {index : LineIndex} {tokens : List Token}
    {number level : Nat} {line : List Char} (free : isMeasured tokens number line = false) :
    indentFindings width index tokens number level line = some [] := by
  unfold indentFindings
  cases shape : line.dropWhile isIndent with
  | nil => rfl
  | cons first rest =>
      rw [isMeasured, shape] at free
      dsimp only
      exact if_pos (by simpa [or_iff_not_imp_left] using free)

/-- Where the widths of a line fit, the findings about it are those of arithmetic. -/
theorem indentFindings_of_fits {width : UInt64} {source : List Char} {tokens : List Token}
    {number level : Nat} {line : List Char}
    (fits : isMeasured tokens number line = true → Fits width.toNat level line) :
    indentFindings width (.ofText source) tokens number level line =
      some (indentNote? width.toNat source tokens number level line).toList := by
  cases measured : isMeasured tokens number line with
  | false =>
      rw [indentFindings_free measured, indentNote?, if_neg (by simp [measured])]
      rfl
  | true =>
      obtain ⟨found, expected⟩ := fits measured
      rw [indentFindings_measured measured, word?_of_lt found, word?_of_lt expected, indentNote?]
      by_cases top : lineLevel level line = 0
      · simp [top]
      · have nested := Nat.pos_of_ne_zero top
        by_cases same : indentColumns width.toNat line = lineLevel level line * width.toNat
        · simp [same]
        · simp [measured, top, same, nested]

/-- A width that does not fit stops the run. -/
theorem indentFindings_of_overflow {width : UInt64} {source : List Char} {tokens : List Token}
    {number level : Nat} {line : List Char} (measured : isMeasured tokens number line = true)
    (overflows : ¬Fits width.toNat level line) :
    indentFindings width (.ofText source) tokens number level line = none := by
  rw [indentFindings_measured measured]
  by_cases found : indentColumns width.toNat line < UInt64.size
  · have expected : UInt64.size ≤ lineLevel level line * width.toNat :=
      Nat.le_of_not_lt fun expected => overflows ⟨found, expected⟩
    rw [word?_of_lt found, word?_of_le expected]
    rfl
  · rw [word?_of_le (Nat.le_of_not_lt found)]
    rfl

end Lines

section Runs

/-- The brace level of the line that stands so many lines below one with a number and a level. -/
def levelFrom (tokens : List Token) (number level : Nat) : Nat → Nat
  | 0 => level
  | below + 1 =>
    levelFrom tokens (number + 1)
      (level + countOn tokens .lBrace number - countOn tokens .rBrace number) below

/-- The remarks about the lines from a number and a level on. -/
def indentNotes (width : Nat) (source : List Char) (tokens : List Token) (number level : Nat) :
    List (List Char) → List Diagnostic
  | [] => []
  | line :: rest =>
    (indentNote? width source tokens number level line).toList ++
      indentNotes width source tokens (number + 1)
        (level + countOn tokens .lBrace number - countOn tokens .rBrace number) rest

/-- A width of some line does not fit its word. -/
def LinesOverflow (width : Nat) (tokens : List Token) (number level : Nat)
    (lines : List (List Char)) : Prop :=
  ∃ i line, lines[i]? = some line ∧ isMeasured tokens (number + i) line = true ∧
    ¬Fits width (levelFrom tokens number level i) line

variable {width : Nat} {source : List Char} {tokens : List Token} {number level : Nat}
  {lines : List (List Char)}

theorem linesOverflow_cons {line : List Char} :
    LinesOverflow width tokens number level (line :: lines) ↔
      (isMeasured tokens number line = true ∧ ¬Fits width level line) ∨
      LinesOverflow width tokens (number + 1)
        (level + countOn tokens .lBrace number - countOn tokens .rBrace number) lines := by
  constructor
  · rintro ⟨i, other, place, measured, overflows⟩
    cases i with
    | zero =>
        cases place
        exact .inl ⟨measured, overflows⟩
    | succ i => exact .inr ⟨i, other, place, by rwa [Nat.add_assoc, Nat.add_comm 1], overflows⟩
  · rintro (⟨measured, overflows⟩ | ⟨i, other, place, measured, overflows⟩)
    · exact ⟨0, line, rfl, measured, overflows⟩
    · exact ⟨i + 1, other, place, by rwa [Nat.add_assoc, Nat.add_comm 1] at measured, overflows⟩

/-- The walk over the lines stops exactly where a width does not fit; else it gives the remarks of
arithmetic. -/
theorem indentationFrom_spec (width : UInt64) :
    (LinesOverflow width.toNat tokens number level lines →
      indentationFrom width (.ofText source) tokens number level lines = none) ∧
    (¬LinesOverflow width.toNat tokens number level lines →
      indentationFrom width (.ofText source) tokens number level lines =
        some (indentNotes width.toNat source tokens number level lines)) := by
  induction lines generalizing number level with
  | nil => exact ⟨fun ⟨_, _, place, _⟩ => absurd place (by simp), fun _ => rfl⟩
  | cons line rest ih =>
      obtain ⟨stops, returns⟩ := @ih (number + 1)
        (level + countOn tokens .lBrace number - countOn tokens .rBrace number)
      rw [linesOverflow_cons, indentationFrom, indentNotes]
      constructor
      · rintro (⟨measured, overflows⟩ | below)
        · rw [indentFindings_of_overflow measured overflows]
          rfl
        · rw [stops below]
          cases indentFindings width (.ofText source) tokens number level line <;> rfl
      · intro fits
        rw [not_or, not_and_not_right] at fits
        rw [indentFindings_of_fits fits.1, returns fits.2]
        rfl

/-- Each line is looked at by itself, with the level before it. -/
theorem mem_indentNotes {d : Diagnostic} :
    d ∈ indentNotes width source tokens number level lines ↔ ∃ i line, lines[i]? = some line ∧
      indentNote? width source tokens (number + i) (levelFrom tokens number level i) line =
        some d := by
  induction lines generalizing number level with
  | nil => simp [indentNotes]
  | cons line rest ih =>
      rw [indentNotes, List.mem_append, Option.mem_toList, ih]
      constructor
      · rintro (here | ⟨i, below, place, found⟩)
        · exact ⟨0, line, rfl, here⟩
        · exact ⟨i + 1, below, place, by rwa [Nat.add_assoc, Nat.add_comm 1] at found⟩
      · rintro ⟨i, below, place, found⟩
        cases i with
        | zero =>
            cases place
            exact .inl found
        | succ i => exact .inr ⟨i, below, place, by rwa [Nat.add_assoc, Nat.add_comm 1]⟩

/-- A remark is about the blanks at the start of its line. -/
theorem indentNote_some {line : List Char} {d : Diagnostic}
    (found : indentNote? width source tokens number level line = some d) : d =
    indentNote source number line (lineLevel level line * width) (indentColumns width line) := by
  obtain ⟨_, same⟩ := Option.ite_none_right_eq_some.mp found
  exact (Option.some.inj same).symm

end Runs

/-- The remarks about the indentation of a script. -/
abbrev remarks (settings : LintSettings) (source : String) : List Diagnostic :=
  indentNotes settings.indentWidth.toNat source.toList (scan source).tokens 1 0
    (Text.lines source.toList)

/-- The findings of the linter for widths of any size. -/
def listing (settings : LintSettings) (source : String) : List Diagnostic :=
  findings settings source (scan source) (remarks settings source)

/-- A width of indentation in a script does not fit its word. -/
def Overflows (settings : LintSettings) (source : String) : Prop :=
  LinesOverflow settings.indentWidth.toNat (scan source).tokens 1 0 (Text.lines source.toList)

/-- A run of the linter, or of what is built on it, ends in some way, unless a width of indentation
overflows: then it stops. -/
structure Yields {α : Type} (settings : LintSettings) (source : String) (run : Option α)
    (P : α → Prop) : Prop where
  returns : ¬Overflows settings source → ∃ a, run = some a ∧ P a
  stops : Overflows settings source → run = none

theorem lint_of_fits {settings : LintSettings} {source : String}
    (fits : ¬Overflows settings source) :
    lint settings source = some (listing settings source) := by
  unfold lint indentation
  dsimp only
  rw [(indentationFrom_spec settings.indentWidth).2 fits]
  rfl

theorem lint_of_overflow {settings : LintSettings} {source : String}
    (overflows : Overflows settings source) : lint settings source = none := by
  unfold lint indentation
  dsimp only
  rw [(indentationFrom_spec settings.indentWidth).1 overflows]
  rfl

theorem lint_eq_none_iff {settings : LintSettings} {source : String} :
    lint settings source = none ↔ Overflows settings source := by
  refine ⟨fun stops => ?_, lint_of_overflow⟩
  by_contra fits
  rw [lint_of_fits fits] at stops
  cases stops

/-- What is returned are the findings of arithmetic. -/
theorem lint_eq_some {settings : LintSettings} {source : String} {found : List Diagnostic}
    (returns : lint settings source = some found) : found = listing settings source := by
  by_cases overflows : Overflows settings source
  · rw [lint_of_overflow overflows] at returns
    cases returns
  · rw [lint_of_fits overflows] at returns
    exact (Option.some.inj returns).symm

theorem yields_listing {settings : LintSettings} {source : String} {P : List Diagnostic → Prop}
    (holds : P (listing settings source)) : Yields settings source (lint settings source) P :=
  ⟨fun fits => ⟨_, lint_of_fits fits, holds⟩, lint_of_overflow⟩

namespace Yields

variable {α β : Type} {settings : LintSettings} {source : String} {run : Option α} {P : α → Prop}

theorem map {Q : β → Prop} {f : α → β} (h : Yields settings source run P)
    (each : ∀ a, P a → Q (f a)) : Yields settings source (run.map f) Q := by
  constructor
  · intro fits
    obtain ⟨a, rfl, holds⟩ := h.returns fits
    exact ⟨f a, rfl, each a holds⟩
  · intro overflows
    rw [h.stops overflows]
    rfl

/-- A run that did not stop ended in that way. -/
theorem of_some (h : Yields settings source run P) {a : α} (ended : run = some a) : P a := by
  by_cases overflows : Overflows settings source
  · rw [h.stops overflows] at ended
    cases ended
  · obtain ⟨b, same, holds⟩ := h.returns overflows
    rw [ended] at same
    cases same
    exact holds

end Yields

end Lint

end ScriptLens
