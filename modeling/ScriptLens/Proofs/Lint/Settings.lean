import ScriptLens.Command.Run
import ScriptLens.Proofs.Brackets.Order
import ScriptLens.Proofs.Lint.Places
import ScriptLens.Report

/-!
What the settings of the linter can change. They decide only which remarks are made: every check
that reads a setting makes findings of the level `info`, so errors and warnings, and with them every
verdict on a script, are the same under all settings.
-/

namespace ScriptLens

namespace Diagnostic

/-- Whether a finding is an error or a warning. -/
def isProblem (d : Diagnostic) : Bool := d.severity = .error || d.severity = .warning

theorem isProblem_of_info {d : Diagnostic} (info : d.severity = .info) : d.isProblem = false := by
  simp [isProblem, info]

theorem isError_of_isProblem {d : Diagnostic} (error : d.isError = true) : d.isProblem = true := by
  simp only [isError, decide_eq_true_eq] at error
  simp [isProblem, error]

end Diagnostic

namespace Lint

open Diagnostic (isProblem inOrder)

/-- Only remarks are made. -/
def Remarks (found : List Diagnostic) : Prop := ∀ d ∈ found, d.severity = .info

namespace Remarks

theorem nil : Remarks [] := fun _ member => absurd member List.not_mem_nil

theorem append {first second : List Diagnostic} (h : Remarks first) (h' : Remarks second) :
    Remarks (first ++ second) := by
  intro d member
  exact (List.mem_append.mp member).elim (h d) (h' d)

theorem cons {d : Diagnostic} {found : List Diagnostic} (first : d.severity = .info)
    (h : Remarks found) : Remarks (d :: found) := by
  intro e member
  rcases List.mem_cons.mp member with rfl | later
  · exact first
  · exact h e later

theorem singleton (message : String) (code : Code) (range : Span) :
    Remarks [.lint .info code message range] :=
  cons rfl nil

/-- Among remarks there is no error and no warning. -/
theorem no_problems {found : List Diagnostic} (h : Remarks found) :
    found.filter isProblem = [] := by
  rw [List.filter_eq_nil_iff]
  intro d member problem
  rw [Diagnostic.isProblem_of_info (h d member)] at problem
  cases problem

end Remarks

theorem nameFinding_remark {settings : LintSettings} {t : Token} {d : Diagnostic}
    (found : nameFinding? settings t = some d) : d.severity = .info := by
  unfold nameFinding? at found
  split at found
  · cases found
    rfl
  · split at found
    · cases found
      rfl
    · cases found

theorem names_remarks (settings : LintSettings) (tokens : List Token) (reported : List String)
    (previous : Option Token) : Remarks (namesFrom settings reported previous tokens) := by
  induction tokens generalizing reported previous with
  | nil => exact .nil
  | cons t rest ih =>
      rw [namesFrom]
      split
      · split
        · next found => exact .cons (nameFinding_remark found) (ih _ _)
        · exact ih _ _
      · exact ih _ _

theorem indentNotes_remarks (width : Nat) (source : List Char) (tokens : List Token)
    (lines : List (List Char)) (number level : Nat) :
    Remarks (indentNotes width source tokens number level lines) := by
  intro d member
  obtain ⟨_, _, _, found⟩ := mem_indentNotes.mp member
  rw [indentNote_some found]
  rfl

theorem loopDepth_remarks (limit : UInt64) (tokens : List Token) (opened : List Bool)
    (pending : Bool) : Remarks (loopDepthFrom limit opened pending tokens) := by
  induction tokens generalizing opened pending with
  | nil => exact .nil
  | cons t rest ih =>
      rw [loopDepthFrom]
      split
      · refine .append ?_ (ih _ _)
        split
        · exact .singleton _ _ _
        · exact .nil
      · split <;> exact ih _ _

theorem missingVersion_remarks (settings : LintSettings) (source : List Char) :
    Remarks (missingVersion settings source) := by
  unfold missingVersion
  split
  · exact .singleton _ _ _
  · exact .nil

/-- The errors and warnings about style come from the two checks that read no setting. -/
theorem style_problems (settings : LintSettings) (source : List Char) (tokens : List Token)
    {indents : List Diagnostic} (noted : Remarks indents) :
    (style settings source tokens indents).filter isProblem =
      inOrder ((oldReferences tokens).filter isProblem ++
        (dangerousFrom none tokens).filter isProblem) := by
  rw [style, Diagnostic.filter_inOrder]
  simp only [List.filter_append, (names_remarks settings tokens _ _).no_problems, noted.no_problems,
    (loopDepth_remarks settings.maxLoopDepth tokens _ _).no_problems,
    (missingVersion_remarks settings source).no_problems, List.nil_append, List.append_nil]

/-- The errors and warnings of a script, which no setting changes. -/
theorem listing_problems (settings others : LintSettings) (source : String) :
    (listing settings source).filter isProblem = (listing others source).filter isProblem := by
  simp only [listing, findings, List.filter_append,
    style_problems _ _ _ (indentNotes_remarks _ _ _ _ _ _)]

end Lint

open Diagnostic (isProblem)

open Lint

/-- The errors among some findings, where the problems among them are known. -/
theorem Diagnostic.any_isError_of_problems {found problems : List Diagnostic}
    (same : found.filter isProblem = problems) : found.any isError = problems.any isError := by
  rw [← same, Bool.eq_iff_iff, List.any_eq_true, List.any_eq_true]
  constructor
  · rintro ⟨d, member, error⟩
    exact ⟨d, List.mem_filter.mpr ⟨member, isError_of_isProblem error⟩, error⟩
  · rintro ⟨d, member, error⟩
    exact ⟨d, (List.mem_filter.mp member).1, error⟩

/-- A file in UTF-8 is read as the text in it. -/
theorem read_of_text {read : String → Except FileError ByteArray} {path text : String}
    (holds : read path = .ok text.toByteArray) : (read path >>= decodeText) = .ok text := by
  have decodes : String.fromUTF8? text.toByteArray = some text := by
    rw [String.fromUTF8?, dif_pos text.isValidUTF8]
    rfl
  rw [holds]
  change decodeText text.toByteArray = .ok text
  rw [decodeText, decodes]

theorem Invocation.loadSettings_of_text {read : String → Except FileError ByteArray}
    {path text : String} {settings : Settings}
    (holds : read path = .ok text.toByteArray) (parses : Settings.parse? text = some settings) :
    loadSettings read (some path) = .ok settings := by
  rw [loadSettings, read_of_text holds]
  simp only [parses]

/-- The command `check` ends well exactly where the linter finds no error. -/
theorem Command.checked_success (format : OutputFormat) (found : List Diagnostic) :
    (checked format found).success = !found.any Diagnostic.isError := by
  change (found.filter Diagnostic.isError).isEmpty = _
  rw [Bool.eq_iff_iff]
  simp only [List.isEmpty_iff, List.filter_eq_nil_iff, Bool.not_eq_true', List.any_eq_false]

section Runs

variable {source : String} {problems : List Diagnostic} {settings : LintSettings}

theorem analyze_yields {tokens : List Token} (scans : tokenize source = .ok tokens)
    (h : Yields settings source (lint settings source) (·.filter isProblem = problems)) :
    Yields settings source (analyze settings source) fun ended =>
      ∃ report, ended = .ok report ∧ report.hasErrors = problems.any Diagnostic.isError := by
  unfold analyze
  rw [scans]
  exact h.map fun found same => ⟨_, rfl, Diagnostic.any_isError_of_problems same⟩

theorem check_yields {settings : Settings} (read : String → Except FileError ByteArray)
    (format : OutputFormat)
    (h : Yields settings.lint source (lint settings.lint source) (·.filter isProblem = problems)) :
    Yields settings.lint source (Command.check.run read settings format source) fun ended =>
      ∃ outcome, ended = .ok outcome ∧ outcome.success = !problems.any Diagnostic.isError := by
  refine h.map fun found same => ⟨_, rfl, ?_⟩
  rw [Command.checked_success, Diagnostic.any_isError_of_problems same]

theorem Invocation.run_yields {settings : Settings} {read : String → Except FileError ByteArray}
    {i : Invocation} (command : i.command = .check)
    (loads : loadSettings read i.config = .ok settings)
    (reads : (read i.file >>= decodeText) = .ok source)
    (h : Yields settings.lint source (lint settings.lint source) (·.filter isProblem = problems)) :
    Yields settings.lint source (i.run read) fun ended =>
      ∃ outcome, ended = .ok outcome ∧ outcome.success = !problems.any Diagnostic.isError := by
  unfold run
  rw [loads, reads, command]
  refine (check_yields read i.format h).map ?_
  rintro _ ⟨outcome, rfl, success⟩
  exact ⟨outcome, rfl, success⟩

end Runs

/-- Settings can neither hide nor make an error or a warning: all runs of the linter on a script
that return agree in them, entry by entry. So the verdict of `isValid`, the errors in the report of
any linter and the success of `check` under any settings, also those of a file named on the command
line, are one and the same. A run returns unless a width of indentation overflows under its
settings. -/
theorem settings_keep_problems (source : String) : ∃ problems : List Diagnostic,
    (∀ settings, Yields settings source (lint settings source) (·.filter isProblem = problems)) ∧
    Yields {} source (isValid source) (· = !problems.any Diagnostic.isError) ∧
    (∀ settings tokens, tokenize source = .ok tokens →
      Yields settings source (analyze settings source) fun ended =>
        ∃ report, ended = .ok report ∧ report.hasErrors = problems.any Diagnostic.isError) ∧
    (∀ read (settings : Settings) format,
      Yields settings.lint source (Command.check.run read settings format source) fun ended =>
        ∃ outcome, ended = .ok outcome ∧ outcome.success = !problems.any Diagnostic.isError) ∧
    ∀ (read : String → Except FileError ByteArray) (i : Invocation) (settings : Settings),
      i.command = .check → Invocation.loadSettings read i.config = .ok settings →
      (read i.file >>= decodeText) = .ok source →
        Yields settings.lint source (i.run read) fun ended =>
          ∃ outcome, ended = .ok outcome ∧ outcome.success = !problems.any Diagnostic.isError := by
  have same (settings : LintSettings) : Yields settings source (lint settings source)
      (·.filter isProblem = (listing {} source).filter isProblem) :=
    yields_listing (listing_problems settings {} source)
  refine ⟨_, same, ?_, fun settings tokens scans => analyze_yields scans (same settings),
    fun read settings format => check_yields read format (same settings.lint),
    fun read i settings command loads reads =>
      Invocation.run_yields command loads reads (same settings.lint)⟩
  exact (same {}).map fun found same => by rw [Diagnostic.any_isError_of_problems same]

/-- A script about which more is said under one setting than under another, and `check` with
settings from a file. -/
theorem settings_keep_problems_sample :
    ((lint {} "A_Now := q\n").map List.length = some 3 ∧
      (lint { requireVersionDirective := false } "A_Now := q\n").map List.length = some 2) ∧
    (∃ found others, lint {} "A_Now := q\n" = some found ∧
      lint { requireVersionDirective := false } "A_Now := q\n" = some others ∧
      found.filter isProblem = others.filter isProblem) ∧
    ∃ files : String → Except FileError ByteArray,
      files "s.toml" = .ok "[lint]\nrequireVersionDirective = false\n".toByteArray ∧
      files "a.ahk" = .ok "A_Now := q\n".toByteArray ∧
      ∃ outcome, Invocation.run files ⟨.check, "a.ahk", some "s.toml", .text⟩ = some (.ok outcome) ∧
        outcome.success = false := by
  obtain ⟨problems, same, verdict, _, _, command⟩ := settings_keep_problems "A_Now := q\n"
  have fits (settings : LintSettings) (returns : (lint settings "A_Now := q\n").isSome = true) :
      ¬Overflows settings "A_Now := q\n" := fun overflows => by
    rw [(same settings).stops overflows] at returns
    cases returns
  have parses : Settings.parse? "[lint]\nrequireVersionDirective = false\n" =
    some { lint := { requireVersionDirective := false } } := by decide +kernel
  have wrong : problems.any Diagnostic.isError = true := by
    obtain ⟨valid, ended, here⟩ := verdict.returns (fits _ (by decide +kernel))
    rw [show isValid "A_Now := q\n" = some false by decide +kernel] at ended
    cases ended
    simpa using here
  obtain ⟨files, settings, script⟩ : ∃ files : String → Except FileError ByteArray,
      files "s.toml" = .ok "[lint]\nrequireVersionDirective = false\n".toByteArray ∧
      files "a.ahk" = .ok "A_Now := q\n".toByteArray := by
    refine ⟨fun path => .ok
      (if path = "s.toml" then "[lint]\nrequireVersionDirective = false\n"
        else "A_Now := q\n").toByteArray, ?_, ?_⟩
    · dsimp only
      rw [if_pos rfl]
    · dsimp only
      rw [if_neg (by decide)]
  obtain ⟨found, first, here⟩ := (same {}).returns (fits _ (by decide +kernel))
  obtain ⟨others, second, there⟩ :=
    (same { requireVersionDirective := false }).returns (fits _ (by decide +kernel))
  obtain ⟨_, runs, outcome, rfl, success⟩ :=
    (command files ⟨.check, "a.ahk", some "s.toml", .text⟩ _ rfl
      (Invocation.loadSettings_of_text settings parses) (read_of_text script)).returns
      (fits _ (by decide +kernel))
  exact ⟨⟨by decide +kernel, by decide +kernel⟩, ⟨found, others, first, second,
    here.trans there.symm⟩, files, settings, script, outcome, runs, by rw [success, wrong]; rfl⟩

/-- Under settings with a width of half a word's range the linter and `check` stop at a script that
is valid. -/
theorem settings_stop_runs : ∃ (settings : Settings) (source : String),
    settings.lint.indentWidth = 9223372036854775808 ∧ source = "\x7b\x7b\nx\n\x7d\x7d\n" ∧
    isValid source = some true ∧ lint settings.lint source = none ∧
    analyze settings.lint source = none ∧
    ∀ read format, Command.check.run read settings format source = none ∧
      ∃ outcome, Command.check.run read {} format source = some (.ok outcome) ∧
        outcome.success = true := by
  have stops : lint { indentWidth := 9223372036854775808 } "\x7b\x7b\nx\n\x7d\x7d\n" = none := by
    decide +kernel
  have scans : (tokenize "\x7b\x7b\nx\n\x7d\x7d\n").toOption.isSome = true := by decide +kernel
  refine ⟨{ lint := { indentWidth := 9223372036854775808 } }, _, rfl, rfl, by decide +kernel, stops,
    ?_, fun read format => ⟨?_, ?_⟩⟩
  · unfold analyze
    cases tokens : tokenize "\x7b\x7b\nx\n\x7d\x7d\n" with
    | error e =>
        rw [tokens] at scans
        cases scans
    | ok tokens =>
        dsimp only
        rw [stops]
        rfl
  · change (lint { indentWidth := 9223372036854775808 } _).map _ = none
    rw [stops]
    rfl
  · obtain ⟨found, returns, valid⟩ := Option.map_eq_some_iff.mp
      (show isValid "\x7b\x7b\nx\n\x7d\x7d\n" = some true by decide +kernel)
    refine ⟨_, congrArg (Option.map _) returns, ?_⟩
    rw [Command.checked_success, valid]

end ScriptLens
