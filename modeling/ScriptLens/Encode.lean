import ScriptLens.Completion
import ScriptLens.Highlight
import ScriptLens.LineChecks
import ScriptLens.Report
import ScriptLens.Syntax.Encode

/-!
The JSON forms of findings, measures, highlights and candidates, and the forms that editors take.
-/

namespace ScriptLens

def Diagnostic.toJson (d : Diagnostic) : Json :=
  .object ([("code", .string d.code.name), ("severity", .string d.severity.name),
    ("message", .string d.message), ("range", d.range.toJson), ("source", .string d.origin.name)] ++
    (d.rule.map fun rule => ("ruleId", Json.string rule)).toList)

/-- A place for an editor, which counts lines and characters from zero. -/
def Position.toEditorJson (p : Position) : Json :=
  .object [("line", .ofNat (p.line - 1)), ("character", .ofNat (p.column - 1))]

/-- A finding for an editor; a broken rule goes by its own name. -/
def Diagnostic.toEditorJson (d : Diagnostic) : Json :=
  .object
    [("range", .object [("start", d.range.start.toEditorJson), ("end", d.range.stop.toEditorJson)]),
    ("severity", .ofNat d.severity.rank), ("code", .string (d.rule.getD d.code.name)),
    ("source", .string d.origin.name), ("message", .string d.message)]

def Violation.toJson (v : Violation) : Json :=
  .object ([("rule", .string v.rule), ("message", .string v.message), ("line", .ofNat v.line),
    ("column", .ofNat v.column.toNat), ("severity", .string v.severity.name)] ++
    (v.suggestion.map fun text => ("suggestion", Json.string text)).toList)

def Statistics.toJson (s : Statistics) : Json :=
  .object [("lines", .ofNat s.lines), ("tokens", .ofNat s.tokens),
    ("functions", .ofNat s.functions), ("classes", .ofNat s.classes),
    ("comments", .ofNat s.comments), ("complexity", .ofNat s.complexity)]

def Report.toJson (r : Report) : Json :=
  .object [("tokens", .ofList Token.toJson r.tokens), ("program", r.output.program.toJson),
    ("skipped", .ofList Skipped.toJson r.output.skipped),
    ("diagnostics", .ofList Diagnostic.toJson r.diagnostics), ("statistics", r.statistics.toJson)]

def Highlight.toJson (h : Highlight) : Json :=
  .object [("line", .ofNat h.line), ("character", .ofNat h.character), ("length", .ofNat h.length),
    ("tokenType", .string h.type.name),
    ("modifiers", .ofList (fun m : HighlightModifier => .string m.name) h.modifiers)]

/-- The flat list of numbers that an editor takes for a whole script. -/
def Highlight.toEditorJson (highlights : List Highlight) : Json :=
  .object [("data", .ofList .ofNat ((Highlight.encode highlights).flatMap Highlight.Delta.toList))]

/-- The names by which an editor knows types and modifiers. -/
def Highlight.legend : Json :=
  .object [("tokenTypes", .ofList (fun t : HighlightType => .string t.name) HighlightType.all),
    ("tokenModifiers", .ofList (fun m : HighlightModifier => .string m.name) HighlightModifier.all)]

/-- A candidate for an editor; snippets are marked by a number, and empty documentation is left
out. -/
def CompletionItem.toJson (i : CompletionItem) : Json :=
  .object
    ([("label", .string i.label), ("kind", .ofNat i.kind.number), ("detail", .string i.detail)] ++
    (if i.documentation.isEmpty then [] else [("documentation", .string i.documentation)]) ++
    [("sortText", .string i.sortText), ("insertText", .string i.insertText)] ++
    (if i.isSnippet then [("insertTextFormat", .ofNat 2)] else []))

end ScriptLens
