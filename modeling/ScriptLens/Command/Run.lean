import ScriptLens.Command.Arguments
import ScriptLens.Documentation.Codec
import ScriptLens.Documentation.Bundled
import ScriptLens.Encode
import ScriptLens.Json.Print
import ScriptLens.Settings
import ScriptLens.Syntax.Outline
import ScriptLens.Toml.Parse

/-!
Commands carried out on files: what is printed, and whether it counts as a success.
-/

namespace ScriptLens

/-- Settings given as TOML text. A list in place of a record may be longer than the record. -/
def Settings.parse? (text : String) : Option Settings := do
  let j ← Toml.parse? text
  let j := j.mapField "lint" (Json.firstItems LintSettings.fieldNames.length)
  let j := j.mapField "diagnostics" (Json.firstItems DiagnoseOptions.fieldNames.length)
  Settings.ofJson? j

/-- What went wrong with a script that could be read. -/
inductive Fault where
  | tokenizing (e : LexError)
  | parsing (e : LexError)
  | analyzing (e : LexError)
  | docsUnread (path : String) (e : FileError)
  | docsInvalid (path : String)
deriving DecidableEq, Repr

def Fault.message : Fault → String
  | tokenizing e => "tokenizing: " ++ e.render
  | parsing e => "parsing: " ++ e.render
  | analyzing e => "analyzing: " ++ e.render
  | docsUnread path e => "reading " ++ path ++ ": " ++ e.message
  | docsInvalid path => "parsing " ++ path

/-- Why a command failed. -/
inductive CommandError where
  | configUnread (path : String) (e : FileError)
  | configInvalid (path : String)
  | sourceUnread (path : String) (e : FileError)
  | processing (path : String) (fault : Fault)
deriving DecidableEq, Repr

namespace CommandError

/-- What is said about settings that cannot be understood. -/
def invalidConfig : String := "invalid config"

def message : CommandError → String
  | configUnread path e => "Failed to read config '" ++ path ++ "': " ++ e.message
  | configInvalid path => "in " ++ path ++ ": " ++ invalidConfig
  | sourceUnread path e => "Failed to read file '" ++ path ++ "': " ++ e.message
  | processing path fault => "while processing " ++ path ++ ": " ++ fault.message

end CommandError

/-- What a command prints, and whether the process ends well. -/
structure Outcome where
  output : String
  success : Bool := true
deriving DecidableEq, Repr

namespace Command

/-- A value over several lines, ended by a line break. -/
def page (j : Json) : String := j.pretty ++ "\n"

/-- One text a line. -/
def linesOf (render : α → String) (items : List α) : String :=
  String.join (items.map fun i => render i ++ "\n")

def renderToken (t : Token) : String :=
  t.start.render ++ " " ++ t.kind.name ++ " " ++ Text.quoted t.text

def renderSkipped (s : Skipped) : String :=
  "skipped " ++ s.span.start.render ++ ": " ++ s.error.message

def renderHighlight (h : Highlight) : String :=
  toString h.line ++ ":" ++ toString h.character ++ " " ++ toString h.length ++ " " ++
    h.type.name ++ " [" ++ ",".intercalate (h.modifiers.map (·.name)) ++ "]"

def renderDelta (d : Highlight.Delta) : String := " ".intercalate (d.toList.map toString)

def renderItem (i : CompletionItem) : String := i.label ++ "\t" ++ i.detail

/-- Prints a list as JSON or one item a line. -/
def listing (format : OutputFormat) (encode : α → Json) (render : α → String) (items : List α) :
    String :=
  match format with
  | .json => page (.ofList encode items)
  | .text => linesOf render items

/-- The documentation in a file, or the one that comes with the library. -/
def loadDocs (read : String → Except FileError ByteArray) : Option String → Except Fault DocIndex
  | none => .ok DocIndex.bundled
  | some path =>
    match read path >>= decodeText with
    | .error e => .error (.docsUnread path e)
    | .ok text =>
      match DocIndex.parse? text with
      | some docs => .ok docs
      | none => .error (.docsInvalid path)

/-- The verdict on a script: its errors, with the fields of every object in the order of their
names. -/
def verdict (errors : List Diagnostic) : Json :=
  Json.sortFields
    (.object [("valid", .bool errors.isEmpty), ("errors", .ofList Diagnostic.toJson errors)])

/-- What is printed of some findings. -/
def report (format : OutputFormat) (found : List Diagnostic) : Outcome :=
  { output := listing format Diagnostic.toJson Diagnostic.render found }

/-- The outcome of `check` for what the linter found. -/
def checked (format : OutputFormat) (found : List Diagnostic) : Outcome :=
  let errors := found.filter Diagnostic.isError
  { output := match format with
      | .json => page (verdict errors)
      | .text => if errors.isEmpty then "ok\n" else Diagnostic.renderAll errors
    success := errors.isEmpty }

/-- Carries out a command on the text of a script. There is no result where the run stops. -/
def run (read : String → Except FileError ByteArray) (settings : Settings) (format : OutputFormat)
    (source : String) : Command → Option (Except Fault Outcome)
  | .tokenize => some <|
    match ScriptLens.tokenize source with
    | .ok tokens => .ok { output := listing format Token.toJson renderToken tokens }
    | .error e => .error (.tokenizing e)
  | .parse => some <|
    match ScriptLens.parse source with
    | .ok out =>
      match format with
      | .json => .ok { output := page out.toJson }
      | .text => .ok
        { output := out.program.outline.render ++ "\n" ++ linesOf renderSkipped out.skipped }
    | .error e => .error (.parsing e)
  | .lint => (ScriptLens.lint settings.lint source).map fun found => .ok (report format found)
  | .diagnose severity noStandards =>
    let options : DiagnoseOptions :=
      { enableStandards := settings.diagnostics.enableStandards && !noStandards
        severityFilter := severity.or settings.diagnostics.severityFilter }
    (ScriptLens.diagnose options source).map fun found => .ok (report format found)
  | .semantic encoded => some <|
    let highlights := Highlight.ofSource source
    .ok { output :=
      if encoded then
        match format with
        | .json => page (Highlight.toEditorJson highlights)
        | .text => linesOf renderDelta (Highlight.encode highlights)
      else listing format Highlight.toJson renderHighlight highlights }
  | .complete line character docs => some <| do
    let index ← loadDocs read docs
    let items := ScriptLens.complete index source line character
    return { output := listing format CompletionItem.toJson renderItem items }
  | .stats => (analyze settings.lint source).map fun
    | .ok report =>
      match format with
      | .json => .ok { output := page report.statistics.toJson }
      | .text => .ok { output := report.statistics.render }
    | .error e => .error (.analyzing e)
  | .check => (ScriptLens.lint settings.lint source).map fun found => .ok (checked format found)

end Command

namespace Invocation

/-- The settings in the file that a command line names. -/
def loadSettings (read : String → Except FileError ByteArray) :
    Option String → Except CommandError Settings
  | none => .ok {}
  | some path =>
    match read path >>= decodeText with
    | .error e => .error (.configUnread path e)
    | .ok text =>
      match Settings.parse? text with
      | some settings => .ok settings
      | none => .error (.configInvalid path)

/-- Carries out a command line on files: settings first, then the script, then the command. There is
no result where the run stops. -/
def run (read : String → Except FileError ByteArray) (i : Invocation) :
    Option (Except CommandError Outcome) :=
  match loadSettings read i.config, read i.file >>= decodeText with
  | .error e, _ => some (.error e)
  | .ok _, .error e => some (.error (.sourceUnread i.file e))
  | .ok settings, .ok source => (i.command.run read settings i.format source).map fun
    | .ok outcome => .ok outcome
    | .error fault => .error (.processing i.file fault)

end Invocation

end ScriptLens
