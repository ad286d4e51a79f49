import ScriptLens.Diagnostic
import ScriptLens.Text.Pattern

/-!
Coding standards: habits of version 1 that break or misbehave in version 2, found line by line. Each
rule reports a line at most once.
-/

namespace ScriptLens

/-- A line that breaks a rule. -/
structure Violation where
  rule : String
  message : String
  /-- Counted from one. -/
  line : Nat
  /-- Counted in characters from zero, and cut to its word. -/
  column : UInt32
  severity : Severity
  suggestion : Option String
deriving DecidableEq, Repr

namespace Standards

open Text (Pattern Item)

/-- Where a rule hits a line, in characters, and what to do about it. -/
structure Hit where
  column : Nat
  suggestion : String

/-- A rule about single lines. -/
structure Rule where
  name : String
  message : String
  severity : Severity
  check : List Char → Option Hit

/-- The characters before the first occurrence of a part. -/
def columnOf? (part : String) (line : List Char) : Option Nat :=
  (Text.before? part.toList line).map List.length

def blanks : Item := .many Text.isSpace

/-- A key in braces: `{ key :`, quotes allowed, and no assignment. -/
def objectLiteral : Pattern :=
  [.one (· = '{'), blanks, .maybe (· = '"'), .some Text.isWord, .maybe (· = '"'), blanks,
   .one (· = ':'), .one (· != '=')]

/-- The word `new` before a name and a parenthesis. -/
def newInstance : Pattern :=
  .boundary :: Pattern.exactly "new" ++
    [.some Text.isSpace, .some Text.isWord, blanks, .one (· = '(')]

/-- A word at the start of the line, an equals sign and a value. -/
def equalsValue : Pattern :=
  [blanks, .some Text.isWord, blanks, .one (· = '='), blanks, .one (· != '=')]

/-- An event handler that is bound to no object: up to its name, and from its name on. -/
def handlerHead : Pattern :=
  Pattern.exactly "OnEvent" ++
    [blanks, .one (· = '('), blanks, .one (· = '"'), .some (· != '"'), .one (· = '"'), blanks,
     .one (· = ','), blanks] ++
    Pattern.exactly "this."

def handlerTail : Pattern := [.some Text.isWord, blanks, .one (· = ')')]

/-- An arrow function whose body is a block. -/
def blockArrow : Pattern :=
  Pattern.exactly "(*)" ++ [blanks] ++ Pattern.exactly "=>" ++ [blanks, .one (· = '{')]

/-- Whether a line assigns by `=`; a line with another operator that holds `=` does not count. -/
def isLegacyAssignment (line : List Char) : Bool :=
  (equalsValue.match? line).isSome &&
    ["==", "!=", ">=", "<=", ":="].all fun op => !Text.occursIn op line

def mapConstructor (line : List Char) : Option Hit :=
  if Text.occursIn "Map(" line then none
  else (objectLiteral.search? line).map fun (before, _) =>
    ⟨before.length, "Replace \x7bkey: value\x7d with Map(\"key\", value)"⟩

def newKeyword (line : List Char) : Option Hit :=
  (newInstance.search? line).map fun (before, _) => ⟨before.length, "Remove the \"new\" keyword"⟩

def assignmentOperator (line : List Char) : Option Hit :=
  if isLegacyAssignment line then
    (columnOf? "=" line).map fun column => ⟨column, "Replace \"=\" with \":=\""⟩
  else none

def quoteEscaping (line : List Char) : Option Hit :=
  ((columnOf? "\\\"" line).or (columnOf? "\\'" line)).map fun column =>
    ⟨column, "Escape quotes with a backtick: `\""⟩

def commentStyle (line : List Char) : Option Hit :=
  if "//".toList.isPrefixOf (Text.trimStart line) then
    (columnOf? "//" line).map fun column => ⟨column, "Replace \"//\" with \";\""⟩
  else none

/-- The name of the method that an event handler passes on unbound. -/
def unboundMethod? (line : List Char) : Option String := do
  let (_, m) ← (handlerHead ++ handlerTail).search? line
  let name ← (m.pieces.drop handlerHead.length).head?
  return String.ofList name

def methodBinding (line : List Char) : Option Hit :=
  if Text.occursIn ".Bind(" line then none
  else do
    let name ← unboundMethod? line
    let column ← columnOf? "this." line
    return ⟨column, "Add .Bind(this) after " ++ name⟩

def arrowComplexity (line : List Char) : Option Hit :=
  if blockArrow.occurs line then
    (columnOf? "=>" line).map fun column =>
      ⟨column, "Use a regular function for multi-statement callbacks"⟩
  else none

/-- The rules in the order in which they report. -/
def rules : List Rule :=
  [⟨"use_map_constructor", "Use Map() constructor instead of object literals for AutoHotkey v2",
    .warning, mapConstructor⟩, ⟨"no_new_keyword",
    "Remove \"new\" keyword when initializing classes in AutoHotkey v2", .error, newKeyword⟩,
   ⟨"use_assignment_operator",
    "Use \":=\" for assignment, \"=\" for comparison in AutoHotkey v2", .error, assignmentOperator⟩,
   ⟨"escape_quotes_with_backticks", "Use backticks to escape quotes in AutoHotkey v2 strings",
    .warning, quoteEscaping⟩, ⟨"use_semicolon_comments",
    "Use semicolon (;) for comments, not double slash (//) in AutoHotkey v2", .warning,
    commentStyle⟩, ⟨"bind_methods_for_callbacks",
    "Use .Bind(this) when passing methods as callbacks in AutoHotkey v2", .error, methodBinding⟩,
   ⟨"arrow_functions_simple_only",
    "Use arrow functions only for simple expressions in AutoHotkey v2", .warning, arrowComplexity⟩]

/-- What a rule says about a line with a number. -/
def Rule.violation? (rule : Rule) (number : Nat) (line : List Char) : Option Violation :=
  (rule.check line).map fun hit =>
    ⟨rule.name, rule.message, number, hit.column.toUInt32, rule.severity, some hit.suggestion⟩

/-- What the rules say about a line; comment lines are free. -/
def lineViolations (number : Nat) (line : List Char) : List Violation :=
  if (Text.trimStart line).head? = some ';' then []
  else rules.filterMap fun rule => rule.violation? number line

/-- All violations in a script. -/
def validate (source : String) : List Violation :=
  (Text.lines source.toList).zipIdx.flatMap fun (line, i) => lineViolations (i + 1) line

end Standards

end ScriptLens
