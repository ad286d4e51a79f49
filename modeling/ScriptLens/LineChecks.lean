import ScriptLens.LineIndex
import ScriptLens.Standards
import ScriptLens.Text.Lower
import ScriptLens.Token.Basic
import ScriptLens.Word

/-!
Checks that work on characters and lines alone, without tokens or a tree, and the standards beside
them.
-/

namespace ScriptLens

/-- What the line checks can be told. -/
structure DiagnoseOptions where
  enableStandards : Bool := true
  /-- Keep findings of this level only; a word that names no level keeps all. -/
  severityFilter : Option String := none
deriving DecidableEq, Repr

namespace LineChecks

open Text (Pattern)

def finding (severity : Severity) (code : Code) (message : String) (range : Span) : Diagnostic :=
  ⟨code, severity, message, range, .lineChecks, none⟩

/-- What the bracket scan is reading. -/
inductive Mode where
  | code | string | comment
deriving DecidableEq, Repr

/-- The state of the bracket scan. Openings wait, innermost first, at their offsets. -/
structure BracketScan where
  mode : Mode := .code
  before : Option Char := none
  offset : Nat := 0
  braces : List Nat := []
  parens : List Nat := []
  /-- Findings so far, latest first. -/
  found : List (Code × String × Nat) := []

namespace BracketScan

/-- Takes one character. Strings and comments end with their line; a quote behind a backtick is no
quote, and a comment starts only behind white space. -/
def step (s : BracketScan) (c : Char) : BracketScan :=
  let t := { s with before := some c, offset := s.offset + c.utf8Size }
  if c = '\n' then { t with mode := .code }
  else if s.mode = .comment then t
  else if c = '"' && s.before != some '`' then
    { t with mode := if s.mode = .string then .code else .string }
  else if s.mode = .string then t
  else if c = ';' && s.before.all Text.isSpace then { t with mode := .comment }
  else match c with
    | '{' => { t with braces := s.offset :: s.braces }
    | '(' => { t with parens := s.offset :: s.parens }
    | '}' =>
      match s.braces with
      | [] => { t with found := (.unmatchedBrace, "Unmatched closing brace", s.offset) :: s.found }
      | _ :: braces => { t with braces := braces }
    | ')' =>
      match s.parens with
      | [] => { t with
          found := (.unmatchedParen, "Unmatched closing parenthesis", s.offset) :: s.found }
      | _ :: parens => { t with parens := parens }
    | _ => t

/-- All findings of a finished scan, the waiting openings last. -/
def findings (s : BracketScan) : List (Code × String × Nat) :=
  s.found.reverse ++
    s.braces.reverse.map (fun offset => (.unclosedBrace, "Unclosed brace", offset)) ++
    s.parens.reverse.map (fun offset => (.unclosedParen, "Unclosed parenthesis", offset))

end BracketScan

/-- Braces and parentheses that do not pair up, in the order of the script. -/
def brackets (index : LineIndex) : List Diagnostic :=
  let s := index.text.foldl BracketScan.step {}
  Diagnostic.inOrder (s.findings.map fun (code, message, offset) =>
    finding .error code message ⟨index.position offset, index.position (offset + 1)⟩)

/-- A script that is not empty and has no version directive in its first five lines. -/
def missingDirective (source : List Char) (lines : List (List Char)) : List Diagnostic :=
  if !Text.isVoid source && !(lines.take 5).any (Text.occursIn "#Requires" ·) then
    [finding .info .missingDirective "Missing '#Requires AutoHotkey v2.0' directive"
      (.point .start)]
  else []

/-- A header `name(…)` alone on a line, with or without an opening brace. -/
def functionHeader : Pattern :=
  [.many Text.isSpace, .some Text.isWord, .many Text.isSpace, .one (· = '('), .many (· != ')'),
   .one (· = ')'), .many Text.isSpace, .maybe (· = '{'), .many Text.isSpace, .finish]

/-- The name of a function declared on a line, whose brace ends this line or opens the next. -/
def declaredFunction? (line : List Char) (next : Option (List Char)) : Option (List Char) := do
  let m ← functionHeader.match? line
  if (Text.trimEnd line).getLast? = some '{' ||
      next.any fun n => (Text.trimStart n).head? = some '{' then
    m.pieces[1]?
  else none

/-- Whether a function name should rather start with a capital. -/
def isPoorName (name : List Char) : Bool :=
  name.head?.any Char.isLower && (Kind.keyword? (String.ofList (Text.lower name))).isNone

/-- The span of `length` bytes from `first` bytes into a line. -/
def lineSpan (index : LineIndex) (number first length : Nat) : Span :=
  let start := index.lineStart number + first
  ⟨index.position start, index.position (start + length)⟩

/-- The bytes before a part of a line; none if it does not occur. -/
def bytesBefore (part line : List Char) : Nat :=
  Text.byteLength ((Text.before? part line).getD [])

/-- An assignment written with `=`. -/
def legacyAssignment (index : LineIndex) (number : Nat) (line : List Char) : List Diagnostic :=
  if Standards.isLegacyAssignment line then
    [finding .warning .legacyAssignment "Use ':=' for assignment; '=' compares in AutoHotkey v2"
      (lineSpan index number (bytesBefore ['='] line) 1)]
  else []

/-- A function whose name starts with a small letter. -/
def functionNaming (index : LineIndex) (number : Nat) (line : List Char)
    (next : Option (List Char)) : List Diagnostic :=
  match declaredFunction? line next with
  | some name =>
    if isPoorName name then
      [finding .hint .functionNaming
        ("Function '" ++ String.ofList name ++ "' should start with an uppercase letter")
        (lineSpan index number (bytesBefore name line) (Text.byteLength name))]
    else []
  | none => []

/-- A hotkey with nothing behind it and nothing on the next line. -/
def emptyHotkey (index : LineIndex) (number : Nat) (line : List Char)
    (next : Option (List Char)) : List Diagnostic :=
  let trimmed := Text.trim line
  match Text.stripEnding? [':', ':'] trimmed with
  | some trigger =>
    if next.all Text.isVoid && !Text.isVoid trigger then
      [finding .warning .emptyHotkey
        ("Hotkey '" ++ String.ofList (Text.trim trigger) ++ "' has no action")
        (lineSpan index number (bytesBefore trigger line) (Text.byteLength trimmed))]
    else []
  | none => []

/-- The findings about a line; empty and comment lines are free. -/
def lineFindings (index : LineIndex) (number : Nat) (line : List Char)
    (next : Option (List Char)) : List Diagnostic :=
  match Text.trim line with
  | [] => []
  | c :: _ =>
    if c = ';' then []
    else legacyAssignment index number line ++ functionNaming index number line next ++
      emptyHotkey index number line next

/-- The findings about all lines from a number on. -/
def linesFrom (index : LineIndex) (number : Nat) : List (List Char) → List Diagnostic
  | [] => []
  | line :: rest => lineFindings index number line rest.head? ++ linesFrom index (number + 1) rest

/-- A broken rule as a finding about one character; none where a column leaves its word. -/
def ofViolation (index : LineIndex) (v : Violation) : Option Diagnostic := do
  let start ← word? UInt32.size (v.column.toNat + 1)
  let stop ← word? UInt32.size (v.column.toNat + 2)
  return ⟨.standardsViolation, v.severity, v.message,
    ⟨index.positionAt v.line start, index.positionAt v.line stop⟩,
    .standards, some ("standards." ++ v.rule)⟩

/-- All findings about a script in their order, those about broken rules given, or those of one
level only. -/
def findings (options : DiagnoseOptions) (source : String) (violations : List Diagnostic) :
    List Diagnostic :=
  let text := source.toList
  let index := LineIndex.ofText text
  let lines := Text.lines text
  let found :=
    brackets index ++ missingDirective text lines ++ linesFrom index 1 lines ++ violations
  match options.severityFilter.bind Severity.ofLevel? with
  | some level => found.filter (·.severity = level)
  | none => found

end LineChecks

/-- All findings of the line checks and, if wanted, of the standards: first brackets, then lines,
then rules. None where the column of a broken rule leaves its word and the run stops. -/
def diagnoseWith (rules : String → List Violation) (options : DiagnoseOptions) (source : String) :
    Option (List Diagnostic) :=
  let violations := if options.enableStandards
    then (rules source).mapM (LineChecks.ofViolation (.ofSource source)) else some []
  violations.map (LineChecks.findings options source)

def diagnose (options : DiagnoseOptions) (source : String) : Option (List Diagnostic) :=
  diagnoseWith Standards.validate options source

end ScriptLens
