import ScriptLens.Position
import ScriptLens.Text.Basic

/-!
Tokens of a script: their kinds, the keyword table and the classes of kinds.
-/

namespace ScriptLens

/-- What a token is. -/
inductive Kind where
  | kwIf | kwElse | kwElseIf | kwWhile | kwFor | kwLoop | kwBreak | kwContinue | kwReturn | kwClass
  | kwStatic | kwGlobal | kwLocal | kwTry | kwCatch | kwFinally | kwThrow | kwAnd | kwOr | kwNot
  | kwIn | kwIs | kwTrue | kwFalse | kwNull
  | assign | equals | notEquals | less | greater | lessEqual | greaterEqual
  | plus | minus | multiply | divide | modulo | power | regexMatch | regexNotMatch
  | lParen | rParen | lBrace | rBrace | lBracket | rBracket
  | comma | dot | colon | question | ampersand | pipe
  | number | string | identifier | builtinVar
  | hotkey | directive | comment | newline | eof
deriving DecidableEq, Repr, Inhabited

namespace Kind

/-- The display name of a kind. -/
def name : Kind → String
  | kwIf => "If" | kwElse => "Else" | kwElseIf => "ElseIf" | kwWhile => "While" | kwFor => "For"
  | kwLoop => "Loop" | kwBreak => "Break" | kwContinue => "Continue" | kwReturn => "Return"
  | kwClass => "Class" | kwStatic => "Static" | kwGlobal => "Global" | kwLocal => "Local"
  | kwTry => "Try" | kwCatch => "Catch" | kwFinally => "Finally" | kwThrow => "Throw"
  | kwAnd => "And" | kwOr => "Or" | kwNot => "Not" | kwIn => "In" | kwIs => "Is"
  | kwTrue => "True" | kwFalse => "False" | kwNull => "Null"
  | assign => "Assign" | equals => "Equals" | notEquals => "NotEquals" | less => "Less"
  | greater => "Greater" | lessEqual => "LessEqual" | greaterEqual => "GreaterEqual"
  | plus => "Plus" | minus => "Minus" | multiply => "Multiply" | divide => "Divide"
  | modulo => "Modulo" | power => "Power" | regexMatch => "Match" | regexNotMatch => "NotMatch"
  | lParen => "LParen" | rParen => "RParen" | lBrace => "LBrace" | rBrace => "RBrace"
  | lBracket => "LBracket" | rBracket => "RBracket" | comma => "Comma" | dot => "Dot"
  | colon => "Colon" | question => "Question" | ampersand => "Ampersand" | pipe => "Pipe"
  | number => "Number" | string => "String" | identifier => "Identifier"
  | builtinVar => "BuiltinVar" | hotkey => "Hotkey" | directive => "Directive"
  | comment => "Comment" | newline => "Newline" | eof => "Eof"

/-- Words in capitals joined by underscores; a word starts at every capital letter. -/
def shout : List Char → List Char
  | [] => []
  | c :: rest => (if c.isUpper then ['_', c] else [c.toUpper]) ++ shout rest

/-- The display name as capital words joined by underscores. -/
def constantName (k : Kind) : String := String.ofList ((shout k.name.toList).drop 1)

/-- The keyword spelled by a word in lower case. -/
def keyword? : String → Option Kind
  | "if" => some kwIf | "else" => some kwElse | "elseif" => some kwElseIf
  | "while" => some kwWhile | "for" => some kwFor | "loop" => some kwLoop
  | "break" => some kwBreak | "continue" => some kwContinue | "return" => some kwReturn
  | "class" => some kwClass | "static" => some kwStatic | "global" => some kwGlobal
  | "local" => some kwLocal | "try" => some kwTry | "catch" => some kwCatch
  | "finally" => some kwFinally | "throw" => some kwThrow | "and" => some kwAnd
  | "or" => some kwOr | "not" => some kwNot | "in" => some kwIn | "is" => some kwIs
  | "true" => some kwTrue | "false" => some kwFalse | "null" => some kwNull
  | _ => none

/-- The kind of a word: `mod`, a keyword, an engine variable `A_…` or an identifier. Keywords ignore
the case of letters, the `A_` mark does not. -/
def ofWord (word : List Char) : Kind :=
  let lower := Text.foldAscii (String.ofList word)
  if lower = "mod" then modulo
  else match keyword? lower with
    | some k => k
    | none => if ['A', '_'].isPrefixOf word then builtinVar else identifier

def isKeyword : Kind → Bool
  | kwIf | kwElse | kwElseIf | kwWhile | kwFor | kwLoop | kwBreak | kwContinue | kwReturn | kwClass
  | kwStatic | kwGlobal | kwLocal | kwTry | kwCatch | kwFinally | kwThrow | kwAnd | kwOr | kwNot
  | kwIn | kwIs | kwTrue | kwFalse | kwNull => true
  | _ => false

def isOperator : Kind → Bool
  | assign | equals | notEquals | less | greater | lessEqual | greaterEqual
  | plus | minus | multiply | divide | modulo | power | regexMatch | regexNotMatch => true
  | _ => false

def isDelimiter : Kind → Bool
  | lParen | rParen | lBrace | rBrace | lBracket | rBracket
  | comma | dot | colon | question | ampersand | pipe => true
  | _ => false

/-- Keywords that open a loop. -/
def isLoop : Kind → Bool
  | kwLoop | kwWhile | kwFor => true
  | _ => false

end Kind

/-- One lexeme of a script with the places where it starts and stops. -/
structure Token where
  kind : Kind
  text : String
  start : Position
  stop : Position
deriving DecidableEq, Repr, Inhabited

namespace Token

def span (t : Token) : Span := ⟨t.start, t.stop⟩

/-- Number of characters of the script that the token covers; its own text counts where the place
does not cut the script properly. -/
def charLength (t : Token) (source : List Char) : Nat :=
  match Text.slice? source t.start.offset t.stop.offset with
  | some part => part.length
  | none => t.text.length

end Token

end ScriptLens
