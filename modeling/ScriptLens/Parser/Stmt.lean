import ScriptLens.Parser.Expr
import ScriptLens.Text.Space

/-!
The rules for statements, recovery from a failed one, and the parser of whole scripts.

Every way in which a rule reaches itself again goes one nesting level down, and the depth counter
refuses more than `maxDepth` levels; so a tower of `maxDepth + 1` levels is as good as an endless
one.
-/

namespace ScriptLens.Parser

open ParseM

/-- One statement; a failed one is dropped, noted, and yields nothing. -/
def recovered (inner : Level) : ParseM (Option Stmt) :=
  ExceptT.mk fun s =>
    match (nested inner.statement).run s.begin with
    | (.ok stmt, t) => (.ok (some stmt), t)
    | (.error e, t) => (.ok none, t.recover s.peek e)

/-- One more statement, latest first, unless a condition on the state holds behind the line
breaks. -/
def statementLink (inner : Level) (stop : State → Bool) (body : List Stmt) :
    ParseM (List Stmt × Bool) := do
  skipNewlines
  if stop (← get) then return (body, false)
  else
    let stmt ← recovered inner
    return (stmt.toList ++ body, true)

/-- Statements, with line breaks between them, until a condition on the state holds. -/
def statementsUntil (inner : Level) (stop : State → Bool) : ParseM (List Stmt) := do
  let body ← repeating (statementLink inner stop) []
  return body.reverse

/-- Statements in braces. -/
def block (inner : Level) : ParseM (List Stmt) := do
  let _ ← expect .lBrace .openBlock
  let body ← statementsUntil inner fun s => s.atEnd || s.check .rBrace
  let _ ← expect .rBrace .closeBlock
  return body

/-- Where a body without braces ends. -/
def endsBody (atHotkey : Bool) (s : State) : Bool :=
  s.atEnd || s.check .rBrace || s.check .kwElse || s.check .kwElseIf ||
    (atHotkey && s.check .hotkey)

/-- A block, or statements up to where a body ends. -/
def body (inner : Level) : ParseM (List Stmt) := do
  if (← get).checkPastNewlines .lBrace then
    skipNewlines
    block inner
  else statementsUntil inner (endsBody false)

/-- What follows the body of an `if`. -/
def alternate (inner : Level) : ParseM Alternate := do
  if (← get).checkPastNewlines .kwElseIf then
    skipNewlines
    return .elseIf (← nested inner.ifChain)
  else if (← get).checkPastNewlines .kwElse then
    skipNewlines
    let _ ← advance
    if ← check .kwIf then return .elseIf (← nested inner.ifChain)
    else return .otherwise (← body inner)
  else return .absent

/-- An `if` or `elseif`, which is the current token, with all that follows in its chain. -/
def ifChain (inner : Level) : ParseM IfChain := do
  let first ← advance
  let test ← expression inner
  let consequent ← body inner
  let rest ← alternate inner
  return .mk test consequent rest ((← get).spanFrom first)

def whileLoop (inner : Level) : ParseM Stmt := do
  let first ← advance
  let test ← expression inner
  let stmts ← body inner
  return .whileLoop test stmts ((← get).spanFrom first)

/-- One more name behind a comma, latest first, if there is one. -/
def variableLink (names : List String) : ParseM (List String × Bool) := do
  if ← eat .comma then
    let t ← expect .identifier .loopVariable
    return (t.text :: names, true)
  else return (names, false)

/-- Names between commas, the first one named apart in errors. -/
def loopVariables : ParseM (List String) := do
  let first ← expect .identifier .loopVariableAfterFor
  let names ← repeating variableLink [first.text]
  return names.reverse

/-- The end of a loop header, which closes the parenthesis that opened it. -/
def closeHeader (parenthesized : Bool) : ParseM Unit := do
  if parenthesized then
    let _ ← expect .rParen .closeForHeader

/-- A loop `for a, b in expr`, the header in parentheses or not. -/
def forLoop (inner : Level) : ParseM Stmt := do
  let first ← advance
  let parenthesized ← eat .lParen
  let names ← loopVariables
  let _ ← expect .kwIn .inKeyword
  let iterable ← expression inner
  closeHeader parenthesized
  let stmts ← body inner
  return .forLoop names iterable stmts ((← get).spanFrom first)

/-- An expression, unless the statement ends here. -/
def operand? (inner : Level) (closing : Kind) : ParseM (Option Expr) := do
  let s ← get
  if s.atEnd || s.check .newline || s.check closing then return none
  else return some (← expression inner)

def loop (inner : Level) : ParseM Stmt := do
  let first ← advance
  let count ← operand? inner .lBrace
  let stmts ← body inner
  return .loop count stmts ((← get).spanFrom first)

def returns (inner : Level) : ParseM Stmt := do
  let first ← advance
  let argument ← operand? inner .rBrace
  return .returns argument ((← get).spanFrom first)

/-- The default of a parameter behind `:=`, if there is one. -/
def default? (inner : Level) : ParseM (Option Expr) := do
  if ← eat .assign then return some (← nested inner.disjunction)
  else return none

/-- A parameter `&name* := default`, all but the name optional. -/
def param (inner : Level) : ParseM Param := do
  let first := (← get).peek
  let byRef ← eat .ampersand
  let name ← expect .identifier .parameterName
  let variadic ← eat .multiply
  let default ← default? inner
  return ⟨name.text, byRef, variadic, default, (← get).spanFrom first⟩

/-- Parameters behind the opening parenthesis, up to and including the closing one. -/
def params (inner : Level) : ParseM (List Param) := inParens (param inner) .closeParameters

def function (inner : Level) : ParseM Stmt := do
  let first := (← get).peek
  let isStatic ← eat .kwStatic
  let name ← expect .identifier .functionName
  let _ ← expect .lParen .openParameters
  let params ← params inner
  skipNewlines
  let stmts ← block inner
  return .function name.text name.span params stmts isStatic ((← get).spanFrom first)

/-- The base class behind the word `extends`. -/
def superClass? : ParseM (Option String) := do
  let t := (← get).peek
  if t.kind = .identifier ∧ Text.sameName t.text "extends" then
    let _ ← advance
    return some (← expect .identifier .baseClassName).text
  else return none

def classDecl (inner : Level) : ParseM Stmt := do
  let first ← advance
  let name ← expect .identifier .className
  let base ← superClass?
  skipNewlines
  let stmts ← block inner
  return .classDecl name.text name.span base stmts ((← get).spanFrom first)

/-- A block, statements up to the next hotkey, or one statement on the line of the hotkey. -/
def hotkeyBody (inner : Level) : ParseM (List Stmt) := do
  let s ← get
  if s.checkPastNewlines .lBrace then
    skipNewlines
    block inner
  else if s.atEnd || s.check .newline then statementsUntil inner (endsBody true)
  else return (← recovered inner).toList

def hotkey (inner : Level) : ParseM Stmt := do
  let first ← advance
  let stmts ← hotkeyBody inner
  return .hotkey first.text stmts ((← get).spanFrom first)

namespace State

/-- The tokens left on the line. -/
def restOfLine (s : State) : List Token := s.ahead.takeWhile (·.kind != .newline)

/-- The script from the first to the last token left on the line. -/
def lineText (s : State) : List Char :=
  match s.restOfLine.head?, s.restOfLine.getLast? with
  | some a, some b => (Text.slice? s.source a.start.offset b.stop.offset).getD []
  | _, _ => []

/-- Consumes the tokens left on the line. -/
def skipLine (s : State) : State := s.restOfLine.foldl (fun s _ => s.advance) s

end State

/-- A directive with the text on its line behind its name, cut free of white space. -/
def directive : ParseM Stmt := do
  let first ← advance
  let value := (← get).lineText
  modify State.skipLine
  return .directive first.text (String.ofList (Text.trim value)) ((← get).spanFrom first)

/-- One statement, by its first token. -/
def statement (inner : Level) : ParseM Stmt := do
  let s ← get
  match s.peek.kind with
  | .kwIf => return .ifs (← ifChain inner)
  | .kwWhile => whileLoop inner
  | .kwFor => forLoop inner
  | .kwLoop => loop inner
  | .kwClass => classDecl inner
  | .kwReturn => returns inner
  | .kwBreak => return .breaks (← advance).span
  | .kwContinue => return .continues (← advance).span
  | .hotkey => hotkey inner
  | .directive => directive
  | _ =>
    if s.atFunction then function inner
    else
      let e ← expression inner
      return .expression e e.span

/-- The rules one level above given ones. -/
def layer (inner : Level) : Level :=
  ⟨assignment inner, disjunction inner, unary inner, ifChain inner, statement inner⟩

/-- The rules `levels` levels above a floor on which every rule refuses. -/
def tower : Nat → Level
  | 0 =>
    ⟨refuse .nestedTooDeeply, refuse .nestedTooDeeply, refuse .nestedTooDeeply,
      refuse .nestedTooDeeply, refuse .nestedTooDeeply⟩
  | levels + 1 => layer (tower levels)

/-- The rules at the top level. -/
def rules : Level := tower (maxDepth + 1)

/-- All statements up to the end of the tokens. -/
def script : ParseM (List Stmt) := statementsUntil rules State.atEnd

end ScriptLens.Parser

namespace ScriptLens

/-- A script that was read, and the statements that had to be dropped. -/
structure ParseOutput where
  program : Program
  skipped : List Skipped

/-- Parses any list of tokens. A statement that does not parse is dropped and reported. -/
def parseTokens (source : String) (tokens : List Token) : ParseOutput :=
  let start := Parser.State.ofTokens source tokens
  let (result, s) := Parser.script.run start
  let body := match result with
    | .ok body => body
    | .error _ => []
  let final := (Parser.State.prepare tokens).getLastD Parser.State.fallbackEnd
  ⟨⟨body, ⟨.start, final.stop⟩⟩, s.skipped.reverse⟩

/-- Parses the one statement that stands first in a list of tokens. -/
def parseStatement (source : String) (tokens : List Token) : Except ParseError Stmt :=
  (Parser.rules.statement.run (Parser.State.ofTokens source tokens)).1

/-- Parses a script; only an unterminated string fails. -/
def parse (source : String) : Except LexError ParseOutput := do
  return parseTokens source (← tokenize source)

end ScriptLens
