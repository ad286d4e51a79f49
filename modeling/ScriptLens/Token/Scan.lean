import ScriptLens.Token.Lexeme

/-!
From a script to its tokens. The scanner takes one lexeme after another and keeps apart the stretch
of the current line that a later `::` would claim for a hotkey. Only a string that never closes
stops it.
-/

namespace ScriptLens

/-- Why a script has no complete token sequence. -/
inductive LexError where
  /-- A string opened here and never closed. -/
  | unterminatedString (opened : Position)
deriving DecidableEq, Repr

namespace LexError

def position : LexError → Position
  | unterminatedString opened => opened

def message : LexError → String
  | unterminatedString _ => "Unterminated string"

/-- A message with the place it concerns. -/
def annotate (message : String) (p : Position) : String := message ++ " at " ++ p.render

def render (e : LexError) : String := annotate e.message e.position

end LexError

/-- The stretch of the current line that a hotkey would claim: from the start of the line, or from
the end of a string that began on an earlier line. Text and tokens stand latest first. -/
structure Stretch where
  start : Position
  text : List Char
  tokens : List Token

namespace Stretch

/-- Nothing read yet. -/
def fresh (start : Position) : Stretch := ⟨start, [], []⟩

/-- The hotkey that claims the stretch and ends at `stop`, its trigger cut free of blanks. -/
def hotkey (s : Stretch) (stop : Position) : Token :=
  let whole := s.text.reverse
  let trigger := ((s.text.dropWhile isBlank).reverse).dropWhile isBlank
  ⟨.hotkey, String.ofList (trigger ++ [':', ':']), s.start.after (whole.takeWhile isBlank), stop⟩

end Stretch

/-- What the scanner knows after reading part of a script. -/
structure Scanner where
  /-- Tokens that no hotkey can claim any more, latest first. -/
  settled : List Token
  stretch : Stretch
  /-- Where the scanner stands. -/
  here : Position

namespace Scanner

def initial : Scanner := ⟨[], .fresh .start, .start⟩

/-- Moves on to `stop` after a token. One that holds a line feed ends the stretch. -/
def push (s : Scanner) (kind : Kind) (text : List Char) : Scanner :=
  let stop := s.here.after text
  let token : Token := ⟨kind, String.ofList text, s.here, stop⟩
  if '\n' ∈ text then ⟨token :: (s.stretch.tokens ++ s.settled), .fresh stop, stop⟩
  else ⟨s.settled,
    { s.stretch with text := text.reverse ++ s.stretch.text, tokens := token :: s.stretch.tokens },
    stop⟩

/-- Moves on past one lexeme. -/
def take (s : Scanner) (lexeme : Lexeme) : Scanner :=
  match lexeme.shape with
  | .token kind => s.push kind lexeme.text
  | .colonPair =>
    let stop := s.here.after lexeme.text
    ⟨s.settled, { s.stretch with
      text := lexeme.text.reverse ++ s.stretch.text, tokens := [s.stretch.hotkey stop] }, stop⟩
  | .blank | .unclosed =>
    { s with
      stretch := { s.stretch with text := lexeme.text.reverse ++ s.stretch.text }
      here := s.here.after lexeme.text }

/-- Takes lexemes to the end of the text, or up to a string that never closes. -/
def run (s : Scanner) : List Char → Scanner × Option LexError
  | [] => (s, none)
  | c :: rest =>
    let lexeme := Lexeme.read c rest
    if lexeme.shape = .unclosed then (s.take lexeme, some (.unterminatedString s.here))
    else run (s.take lexeme) lexeme.rest
termination_by text => text.length
decreasing_by exact Lexeme.read_rest_length c rest

/-- All tokens read, in order, closed by the end mark. -/
def tokens (s : Scanner) : List Token :=
  (s.stretch.tokens ++ s.settled).reverse ++ [⟨.eof, "", s.here, s.here⟩]

end Scanner

/-- The tokens of a script up to its end or its first fault. The last token is always the end
mark. -/
structure Scan where
  tokens : List Token
  fault : Option LexError

/-- Scans a script, keeping what was read before a fault. -/
def scan (source : String) : Scan :=
  let (s, fault) := Scanner.initial.run source.toList
  ⟨s.tokens, fault⟩

/-- The tokens of a script in which every string closes. -/
def tokenize (source : String) : Except LexError (List Token) :=
  let result := scan source
  match result.fault with
  | none => .ok result.tokens
  | some e => .error e

end ScriptLens
