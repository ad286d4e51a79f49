import ScriptLens.Diagnostic
import ScriptLens.Lint.Names
import ScriptLens.Lint.Settings
import ScriptLens.LineIndex
import ScriptLens.Text.Pattern
import ScriptLens.Token.Basic
import ScriptLens.Word

/-!
Findings about naming, layout and habits.
-/

namespace ScriptLens.Lint

open Text (Pattern)

/-- Whether a name starts with a type word and a capital letter. -/
def isHungarian (name : List Char) : Bool :=
  ["str", "int", "bool", "obj", "arr"].any fun word =>
    (Pattern.match? (Pattern.exactly word ++ [.one Char.isUpper]) name).isSome

/-- Whether a name is one ASCII letter. -/
def isSingleLetter : List Char → Bool
  | [c] => c.isAlpha
  | _ => false

/-- The finding about a name, if it is ill chosen. -/
def nameFinding? (settings : LintSettings) (t : Token) : Option Diagnostic :=
  if isHungarian t.text.toList then
    some (.lint .info .hungarianNotation ("Avoid Hungarian notation in '" ++ t.text ++ "'") t.span)
  else if isSingleLetter t.text.toList && !Text.listed settings.allowedShortNames t.text then
    some (.lint .info .shortVariableName
      ("Single-letter name '" ++ t.text ++ "'; prefer a descriptive name") t.span)
  else none

/-- Whether a token stands behind a dot. -/
def afterDot (previous : Option Token) : Bool := previous.any (·.kind = .dot)

/-- Ill-chosen names, each where it first occurs. `reported` holds those found before. -/
def namesFrom (settings : LintSettings) (reported : List String) (previous : Option Token) :
    List Token → List Diagnostic
  | [] => []
  | t :: rest =>
    if t.kind = .identifier && !afterDot previous && !reported.contains t.text then
      match nameFinding? settings t with
      | some d => d :: namesFrom settings (t.text :: reported) (some t) rest
      | none => namesFrom settings reported (some t) rest
    else namesFrom settings reported (some t) rest

/-- The number of tokens of a kind that start on a line. -/
def countOn (tokens : List Token) (kind : Kind) (line : Nat) : Nat :=
  tokens.countP fun t => t.kind = kind && t.start.line = line

/-- Whether a line begins inside a token. -/
def isContinued (tokens : List Token) (line : Nat) : Bool :=
  tokens.any fun t => t.kind != .newline && t.start.line < line && line ≤ t.stop.line

def isIndent (c : Char) : Bool := c = ' ' || c = '\t'

/-- The width of an indentation; none where the sum leaves its word. -/
def indentFound (width : UInt64) (indent : List Char) : Option Nat :=
  indent.foldlM (fun n c => word? UInt64.size (n + if c = '\t' then width.toNat else 1)) 0

/-- What is found about the indentation of a line at a brace level, at most one finding; none where
a width leaves its word. The widths of lines at level zero are measured too. -/
def indentFindings (width : UInt64) (index : LineIndex) (tokens : List Token) (number level : Nat)
    (line : List Char) : Option (List Diagnostic) :=
  let indent := line.takeWhile isIndent
  match line.dropWhile isIndent with
  | [] => some []
  | first :: _ =>
    if first = ';' || isContinued tokens number then some []
    else do
      let level := if first = '}' then level - 1 else level
      let found ← indentFound width indent
      let expected ← word? UInt64.size (level * width.toNat)
      if level = 0 || found = expected then return []
      return [.lint .info .inconsistentIndentation
        ("Expected " ++ toString expected ++ " spaces, found " ++ toString found)
        ⟨index.positionAt number 1, index.positionAt number (indent.length + 1)⟩]

/-- Badly indented lines from a line number and a brace level on. -/
def indentationFrom (width : UInt64) (index : LineIndex) (tokens : List Token)
    (number level : Nat) : List (List Char) → Option (List Diagnostic)
  | [] => some []
  | line :: rest => do
    let here ← indentFindings width index tokens number level line
    let below ← indentationFrom width index tokens (number + 1)
      (level + countOn tokens .lBrace number - countOn tokens .rBrace number) rest
    return here ++ below

/-- Badly indented lines. -/
def indentation (width : UInt64) (source : List Char) (tokens : List Token) :
    Option (List Diagnostic) :=
  indentationFrom width (.ofText source) tokens 1 0 (Text.lines source)

/-- A variable between percent signs. -/
def percentVariable : Pattern := [.one (· = '%'), .some Text.isWord, .one (· = '%')]

/-- Strings that refer to variables between percent signs. -/
def oldReferences (tokens : List Token) : List Diagnostic :=
  tokens.filterMap fun t =>
    if t.kind = .string && percentVariable.occurs t.text.toList then
      some (.lint .warning .oldVariableSyntax
        "Legacy %var% reference in string; concatenate the variable instead" t.span)
    else none

/-- Loops nested too deeply. `opened` tells of each open brace whether it belongs to a loop, and
`pending` whether a loop still waits for its brace. -/
def loopDepthFrom (limit : UInt64) (opened : List Bool) (pending : Bool) :
    List Token → List Diagnostic
  | [] => []
  | t :: rest =>
    if t.kind.isLoop then
      let depth := opened.count true + 1
      (if limit.toNat < depth then
        [.lint .info .deeplyNestedLoop
          ("Loop nested " ++ toString depth ++ " levels deep (max " ++ toString limit.toNat ++
            "); consider extracting a function") t.span]
      else []) ++ loopDepthFrom limit opened true rest
    else match t.kind with
      | .lBrace => loopDepthFrom limit (pending :: opened) false rest
      | .rBrace => loopDepthFrom limit opened.tail pending rest
      | .newline =>
        let opens := (rest.find? (·.kind != .newline)).any (·.kind = .lBrace)
        loopDepthFrom limit opened (pending && opens) rest
      | _ => loopDepthFrom limit opened pending rest

/-- Names of calls that touch processes or files. -/
def dangerousFrom (previous : Option Token) : List Token → List Diagnostic
  | [] => []
  | t :: rest =>
    (if t.kind = .identifier && !afterDot previous && Names.isDangerous t.text then
      [.lint .warning .potentialSecurityRisk
        ("Be careful with " ++ t.text ++ " - ensure input is validated") t.span]
    else []) ++ dangerousFrom (some t) rest

/-- The directive that asks for version 2 of the engine. -/
def requiresVersion2 : Pattern :=
  Pattern.anyCase "#Requires" ++ [.some Text.isSpace] ++ Pattern.anyCase "AutoHotkey" ++
    [.some Text.isSpace] ++ Pattern.anyCase "v2"

/-- A script that is not empty and does not ask for version 2. -/
def missingVersion (settings : LintSettings) (source : List Char) : List Diagnostic :=
  if settings.requireVersionDirective && !Text.isVoid source && !requiresVersion2.occurs source then
    [.lint .info .missingRequires "Add '#Requires AutoHotkey v2' to declare the target version"
      (.point .start)]
  else []

/-- All findings about style, in the order of the script, where those about indentation are
known. -/
def style (settings : LintSettings) (source : List Char) (tokens : List Token)
    (indents : List Diagnostic) : List Diagnostic :=
  Diagnostic.inOrder
    (namesFrom settings [] none tokens ++
      indents ++
      oldReferences tokens ++
      loopDepthFrom settings.maxLoopDepth [] false tokens ++
      dangerousFrom none tokens ++
      missingVersion settings source)

end ScriptLens.Lint
