import ScriptLens.Json.Decode
import ScriptLens.LineChecks
import ScriptLens.Lint.Settings

/-!
Settings of all checkers, and their JSON forms. A missing field takes its default.
-/

namespace ScriptLens

namespace LintSettings

def fieldNames : List String :=
  ["maxLoopDepth", "indentWidth", "allowedShortNames", "requireVersionDirective"]

def toJson (s : LintSettings) : Json :=
  .object [("maxLoopDepth", .ofNat s.maxLoopDepth.toNat), ("indentWidth",
    .ofNat s.indentWidth.toNat), ("allowedShortNames", .ofList .string s.allowedShortNames),
    ("requireVersionDirective", .bool s.requireVersionDirective)]

def ofJson? (j : Json) : Option LintSettings := do
  let default : LintSettings := {}
  match ← j.record? fieldNames with
  | [depth, width, names, version] =>
    return ⟨← Json.orElse? default.maxLoopDepth Json.word? depth,
      ← Json.orElse? default.indentWidth Json.word? width,
      ← Json.orElse? default.allowedShortNames (Json.list? Json.text?) names,
      ← Json.orElse? default.requireVersionDirective Json.bool? version⟩
  | _ => none

end LintSettings

namespace DiagnoseOptions

def fieldNames : List String := ["enableStandards", "severityFilter"]

def toJson (o : DiagnoseOptions) : Json :=
  .object [("enableStandards", .bool o.enableStandards),
    ("severityFilter", .ofOption .string o.severityFilter)]

def ofJson? (j : Json) : Option DiagnoseOptions := do
  let default : DiagnoseOptions := {}
  match ← j.record? fieldNames with
  | [standards, filter] =>
    return ⟨← Json.orElse? default.enableStandards Json.bool? standards,
      ← Json.orElse? default.severityFilter (Json.nullable? Json.text?) filter⟩
  | _ => none

end DiagnoseOptions

/-- The settings of the linter and of the line checks. -/
structure Settings where
  lint : LintSettings := {}
  diagnostics : DiagnoseOptions := {}
deriving DecidableEq, Repr

namespace Settings

def toJson (s : Settings) : Json :=
  .object [("lint", s.lint.toJson), ("diagnostics", s.diagnostics.toJson)]

def ofJson? (j : Json) : Option Settings := do
  match ← j.record? ["lint", "diagnostics"] with
  | [lint, diagnostics] =>
    return ⟨← Json.orElse? {} LintSettings.ofJson? lint,
      ← Json.orElse? {} DiagnoseOptions.ofJson? diagnostics⟩
  | _ => none

end Settings

end ScriptLens
