import ScriptLens.Position
import ScriptLens.Sorting
import ScriptLens.Text.Basic
import ScriptLens.Text.Space

/-!
Findings about a script.
-/

namespace ScriptLens

inductive Severity where
  | error | warning | info | hint
deriving DecidableEq, Repr, Inhabited

namespace Severity

def name : Severity → String
  | error => "error"
  | warning => "warning"
  | info => "info"
  | hint => "hint"

/-- The severity with exactly this name. -/
def ofName? : String → Option Severity
  | "error" => some error
  | "warning" => some warning
  | "info" => some info
  | "hint" => some hint
  | _ => none

/-- The severity that a filter names, white space and the case of letters aside. Any other word
selects none. -/
def ofLevel? (level : String) : Option Severity :=
  let word := Text.foldAscii (String.ofList (Text.trim level.toList))
  if word = "information" then some info else ofName? word

/-- The number of a severity in the editor protocol. -/
def rank : Severity → Nat
  | error => 1
  | warning => 2
  | info => 3
  | hint => 4

end Severity

/-- What a finding is about. -/
inductive Code where
  | parseError
  | unmatchedBrace | unmatchedParen | unmatchedBracket | unclosedBracket | unclosedBrace
  | unclosedParen
  | invalidOperatorSequence | useAssignmentOperator | incompleteIfStatement
  | undefinedFunction | unreachableCode | duplicateFunction | readOnlyAssignment
  | hungarianNotation | shortVariableName | inconsistentIndentation | oldVariableSyntax
  | missingRequires | deeplyNestedLoop | potentialSecurityRisk
  | legacyAssignment | missingDirective | functionNaming | emptyHotkey | standardsViolation
deriving DecidableEq, Repr, Inhabited

def Code.name : Code → String
  | parseError => "ParseError"
  | unmatchedBrace => "UnmatchedBrace"
  | unmatchedParen => "UnmatchedParen"
  | unmatchedBracket => "UnmatchedBracket"
  | unclosedBracket => "UnclosedBracket"
  | unclosedBrace => "UnclosedBrace"
  | unclosedParen => "UnclosedParen"
  | invalidOperatorSequence => "InvalidOperatorSequence"
  | useAssignmentOperator => "UseAssignmentOperator"
  | incompleteIfStatement => "IncompleteIfStatement"
  | undefinedFunction => "UndefinedFunction"
  | unreachableCode => "UnreachableCode"
  | duplicateFunction => "DuplicateFunction"
  | readOnlyAssignment => "ReadOnlyAssignment"
  | hungarianNotation => "HungarianNotation"
  | shortVariableName => "ShortVariableName"
  | inconsistentIndentation => "InconsistentIndentation"
  | oldVariableSyntax => "OldVariableSyntax"
  | missingRequires => "MissingRequires"
  | deeplyNestedLoop => "DeeplyNestedLoop"
  | potentialSecurityRisk => "PotentialSecurityRisk"
  | legacyAssignment => "LegacyAssignment"
  | missingDirective => "MissingDirective"
  | functionNaming => "FunctionNaming"
  | emptyHotkey => "EmptyHotkey"
  | standardsViolation => "StandardsViolation"

/-- Which checker made a finding. -/
inductive Origin where
  | lint | lineChecks | standards
deriving DecidableEq, Repr, Inhabited

def Origin.name : Origin → String
  | lint => "ahk-lint"
  | lineChecks => "ahk-diagnostics"
  | standards => "ahk-standards"

/-- One finding. -/
structure Diagnostic where
  code : Code
  severity : Severity
  message : String
  range : Span
  origin : Origin
  /-- The rule of the standards that was broken. -/
  rule : Option String
deriving DecidableEq, Repr, Inhabited

namespace Diagnostic

/-- A finding of the linter. -/
def lint (severity : Severity) (code : Code) (message : String) (range : Span) : Diagnostic :=
  ⟨code, severity, message, range, .lint, none⟩

def isError (d : Diagnostic) : Bool := d.severity = .error

/-- Findings in the order of their starts, those at one place in the order found. -/
def inOrder (found : List Diagnostic) : List Diagnostic :=
  Sorting.sort (fun a b => decide (a.range.start.offset ≤ b.range.start.offset)) found

/-- The form `line:column severity [code] message`. -/
def render (d : Diagnostic) : String :=
  d.range.start.render ++ " " ++ d.severity.name ++ " [" ++ d.code.name ++ "] " ++ d.message

/-- One finding a line. -/
def renderAll (found : List Diagnostic) : String :=
  String.join (found.map fun d => d.render ++ "\n")

end Diagnostic

end ScriptLens
