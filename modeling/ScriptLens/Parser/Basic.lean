import ScriptLens.Token.Declaration
import ScriptLens.Token.Scan
import ScriptLens.Syntax.Basic

/-!
The parser's state, its errors and the steps from which all of its rules are built.

The state holds the tokens still ahead, the token that ends them, the token consumed last and a
counter of nesting depth. A rule that fails leaves the state where it failed, so recovery goes on
from there.
-/

namespace ScriptLens

/-- What the parser looked for when it failed. -/
inductive Expected where
  | expression | propertyName
  | closeArguments | closeGroup | closeParameters | closeForHeader
  | openBlock | closeBlock
  | loopVariableAfterFor | loopVariable | inKeyword
  | functionName | openParameters | parameterName
  | className | baseClassName
deriving DecidableEq, Repr

def Expected.text : Expected → String
  | expression => "expression"
  | propertyName => "property name after '.'"
  | closeArguments => "')' after arguments"
  | closeGroup => "')' after expression"
  | closeParameters => "')' after parameters"
  | closeForHeader => "')' after for header"
  | openBlock => "'\x7b'"
  | closeBlock => "'\x7d' to close block"
  | loopVariableAfterFor => "loop variable after 'for'"
  | loopVariable => "loop variable"
  | inKeyword => "'in' in for loop"
  | functionName => "function name"
  | openParameters => "'(' after function name"
  | parameterName => "parameter name"
  | className => "class name"
  | baseClassName => "base class name after 'extends'"

/-- Why a rule failed. -/
inductive ParseCause where
  | expected (what : Expected)
  | invalidTarget
  | nestedTooDeeply
  | chainTooLong
deriving DecidableEq, Repr

def ParseCause.text : ParseCause → String
  | expected what => "Expected " ++ what.text
  | invalidTarget => "Invalid assignment target"
  | nestedTooDeeply => "Construct nested too deeply"
  | chainTooLong => "Expression chain too long"

/-- How a message names a token. -/
def Token.describe (t : Token) : String :=
  match t.kind with
  | .eof => "end of input"
  | .newline => "end of line"
  | _ => "'" ++ t.text ++ "'"

/-- A violation of the grammar and the token at which it was noticed. -/
structure ParseError where
  cause : ParseCause
  found : Token
deriving DecidableEq, Repr

namespace ParseError

def message (e : ParseError) : String := e.cause.text ++ ", found " ++ e.found.describe

def span (e : ParseError) : Span := e.found.span

def render (e : ParseError) : String := Span.annotate e.message (some e.span)

end ParseError

/-- A statement that recovery dropped: what it covered and why it failed. -/
structure Skipped where
  span : Span
  error : ParseError
deriving DecidableEq, Repr

namespace Parser

/-- Nesting of statements and expressions beyond this depth is refused. -/
def maxDepth : Nat := 128

/-- Where the parser stands. -/
structure State where
  source : List Char
  /-- Tokens still ahead, none of them an end mark. -/
  ahead : List Token
  /-- The end mark behind them. -/
  final : Token
  /-- The token consumed last; at the very start, the token that comes first. -/
  last : Token
  depth : Nat
  /-- Dropped statements, latest first. -/
  skipped : List Skipped
  /-- How many tokens were ahead at the start of each statement so far, latest first. -/
  begun : List Nat

namespace State

/-- The end mark of a token list that has none. -/
def fallbackEnd : Token := ⟨.eof, "", .start, .start⟩

/-- The tokens that matter to the grammar, closed by an end mark. -/
def prepare (tokens : List Token) : List Token :=
  let kept := tokens.filter (·.kind != .comment)
  match kept.getLast? with
  | some t => if t.kind = .eof then kept else kept ++ [fallbackEnd]
  | none => [fallbackEnd]

/-- The state before the first token. Tokens behind the first end mark are never read. -/
def ofTokens (source : String) (tokens : List Token) : State :=
  let kept := prepare tokens
  let final := (kept.find? (·.kind == .eof)).getD fallbackEnd
  { source := source.toList
    ahead := kept.takeWhile (·.kind != .eof)
    final := final
    last := kept.headD final
    depth := 0
    skipped := []
    begun := [] }

def atEnd (s : State) : Bool := s.ahead.isEmpty

def peek (s : State) : Token := s.ahead.headD s.final

def check (s : State) (kind : Kind) : Bool := s.peek.kind = kind

/-- Consumes the current token; at the end nothing happens. -/
def advance (s : State) : State :=
  match s.ahead with
  | [] => s
  | t :: rest => { s with ahead := rest, last := t }

/-- Passes over line breaks. -/
def skipNewlines (s : State) : State :=
  go s.ahead s
where
  go : List Token → State → State
    | [], s => s
    | t :: rest, s => if t.kind = .newline then go rest s.advance else s

/-- Whether the next token that is no line break has a kind. -/
def checkPastNewlines (s : State) (kind : Kind) : Bool :=
  ((s.ahead.dropWhile (·.kind = .newline)).headD s.final).kind = kind

/-- The span from a token to the one consumed last, or of the token alone if that ends earlier. -/
def spanFrom (s : State) (first : Token) : Span :=
  if first.stop.offset ≤ s.last.stop.offset then ⟨first.start, s.last.stop⟩ else first.span

/-- Whether a function declaration starts here. -/
def atFunction (s : State) : Bool :=
  let tokens := match s.ahead with
    | t :: rest => if t.kind = .kwStatic then rest else t :: rest
    | [] => []
  Token.headsDeclaration (· = .newline) tokens

/-- Drops tokens after a failed statement: at least one, then up to a line break or a word that
starts a statement. -/
def synchronize (s : State) : State :=
  let s := s.advance
  go s.ahead s
where
  go : List Token → State → State
    | [], s => s
    | t :: rest, s =>
      if s.last.kind = .newline then s
      else match t.kind with
        | .kwClass | .kwIf | .kwWhile | .kwFor | .kwReturn => s
        | _ => go rest s.advance

/-- Notes that a statement starts here. -/
def begin (s : State) : State := { s with begun := s.ahead.length :: s.begun }

/-- Goes on after a failed statement, noting what was dropped and why. -/
def recover (s : State) (first : Token) (e : ParseError) : State :=
  let s := s.synchronize
  { s with skipped := ⟨s.spanFrom first, e⟩ :: s.skipped }

end State

end Parser

/-- A rule of the grammar: it reads the state and gives a result or an error with the state
after. -/
abbrev ParseM := ExceptT ParseError (StateM Parser.State)

namespace ParseM

open ScriptLens.Parser

/-- Fails at the current token. -/
def refuse (cause : ParseCause) : ParseM α := do
  throw ⟨cause, (← get).peek⟩

/-- The current token, consumed unless it is the end. -/
def advance : ParseM Token := do
  let s ← get
  set s.advance
  return s.peek

def check (kind : Kind) : ParseM Bool := return (← get).check kind

/-- Consumes the current token if it has a kind. -/
def eat (kind : Kind) : ParseM Bool := do
  if ← check kind then
    let _ ← advance
    return true
  else return false

/-- The current token, which must have a kind. -/
def expect (kind : Kind) (what : Expected) : ParseM Token := do
  if ← check kind then advance else refuse (.expected what)

def skipNewlines : ParseM Unit := modify State.skipNewlines

/-- Runs a rule one level deeper, unless that is too deep. -/
def nested (rule : ParseM α) : ParseM α := do
  if maxDepth ≤ (← get).depth then refuse .nestedTooDeeply
  else ExceptT.mk fun s =>
    let (result, t) := rule.run { s with depth := s.depth + 1 }
    (result, { t with depth := t.depth - 1 })

/-- Runs a rule whose links each count as a level, and releases them when it returns. -/
def chain (rule : ParseM α) : ParseM α :=
  ExceptT.mk fun s =>
    let (result, t) := rule.run s
    (result, { t with depth := s.depth })

/-- Takes one more link of a chain. -/
def link : ParseM Unit := do
  let s ← get
  if maxDepth ≤ s.depth then refuse .chainTooLong
  else set { s with depth := s.depth + 1 }

/-- Runs `step` on its own results as long as it asks for more. A step that asks for more without
having consumed a token is the last one. -/
def repeating (step : α → ParseM (α × Bool)) (a : α) : ParseM α :=
  ExceptT.mk fun s => go step a s
where
  go (step : α → ParseM (α × Bool)) (a : α) (s : State) : Except ParseError α × State :=
    match (step a).run s with
    | (.error e, t) => (.error e, t)
    | (.ok (b, more), t) =>
      if more ∧ t.ahead.length < s.ahead.length then go step b t else (.ok b, t)
  termination_by s.ahead.length

end ParseM

end ScriptLens
