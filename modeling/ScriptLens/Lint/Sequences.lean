import ScriptLens.Diagnostic
import ScriptLens.Token.Basic

/-!
Findings about neighbouring tokens: operators in a row, `=` where an assignment is meant, and an
`if` without a condition.
-/

namespace ScriptLens.Lint

/-- Pairs of operators that spell an operator when put together. -/
def validPairs : List String := [":=", ">=", "<=", "!=", "==", "**", "!~", "~="]

/-- Operators that may not follow one another. -/
def isSequenceOperator : Kind → Bool
  | .plus | .minus | .multiply | .divide | .equals | .notEquals | .less | .greater | .lessEqual
  | .greaterEqual | .assign => true
  | _ => false

/-- Tokens before which a minus sign is a sign. -/
def startsOperand : Kind → Bool
  | .number | .identifier | .builtinVar | .lParen => true
  | _ => false

/-- Whether a statement starts behind the token. -/
def startsStatement : Option Token → Bool
  | none => true
  | some t => t.kind = .newline || t.kind = .lBrace || t.kind = .hotkey

/-- The findings about `current` and `next`, with the tokens around them. -/
def pairFindings (previous : Option Token) (current next : Token) (after : Option Token) :
    List Diagnostic :=
  let signed := next.kind = .minus && after.any (startsOperand ·.kind)
  let joined := validPairs.contains (current.text ++ next.text)
  (if isSequenceOperator current.kind && isSequenceOperator next.kind && !signed && !joined then
    [.lint .error .invalidOperatorSequence
      ("Invalid operator sequence '" ++ current.text ++ " " ++ next.text ++ "'")
      ⟨current.start, next.stop⟩]
  else []) ++
  (if current.kind = .identifier && next.kind = .equals && startsStatement previous then
    [.lint .warning .useAssignmentOperator
      "Use ':=' for assignment; '=' only compares in v2" next.span]
  else []) ++
  (if current.kind = .kwIf && next.kind = .newline then
    [.lint .error .incompleteIfStatement "Incomplete if statement: missing condition" current.span]
  else [])

/-- The findings about all neighbours behind `previous`. -/
def sequencesFrom (previous : Option Token) : List Token → List Diagnostic
  | current :: next :: rest =>
    pairFindings previous current next rest.head? ++ sequencesFrom (some current) (next :: rest)
  | _ => []

/-- All findings about neighbouring tokens, in the order of the script. -/
def sequences (tokens : List Token) : List Diagnostic :=
  Diagnostic.inOrder (sequencesFrom none tokens)

end ScriptLens.Lint
