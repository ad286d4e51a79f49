import ScriptLens.Parser.Basic

/-!
The rules for expressions. A rule that needs one nesting level more takes it from `Level`, which
stands for the rules one level down; the tower of levels is built in `ScriptLens.Parser.Stmt`.
-/

namespace ScriptLens

/-- The rules that other rules reach one nesting level down. -/
structure Level where
  assignment : ParseM Expr
  disjunction : ParseM Expr
  unary : ParseM Expr
  ifChain : ParseM IfChain
  statement : ParseM Stmt

namespace Parser

open ParseM

/-- A binary node over the spans of its operands. -/
def binary (operator : BinaryOp) (left right : Expr) : Expr :=
  .binary operator left right (left.span.cover right.span)

/-- A literal node of a token. -/
def literal (t : Token) (value : Literal) : Expr := .literal value t.text t.span

/-- The text between the quotes of a string token. -/
def stringValue (text : String) : String :=
  match text.toList with
  | '"' :: rest => if rest.getLast? = some '"' then String.ofList rest.dropLast else text
  | _ => text

/-- Any expression. -/
def expression (inner : Level) : ParseM Expr := nested inner.assignment

/-- One more item of a list with commas, latest first, and whether a comma asks for another. Line
breaks may stand around commas. -/
def itemLink (item : ParseM α) (items : List α) : ParseM (List α × Bool) := do
  let a ← item
  skipNewlines
  if ← eat .comma then
    skipNewlines
    return (a :: items, true)
  else return (a :: items, false)

/-- Items with commas between them behind an opening parenthesis, up to and including the closing
one. -/
def inParens (item : ParseM α) (closing : Expected) : ParseM (List α) := do
  skipNewlines
  let items ← if ← check .rParen then pure [] else repeating (itemLink item) []
  let _ ← expect .rParen closing
  return items.reverse

/-- Arguments behind the opening parenthesis, up to and including the closing one. -/
def arguments (inner : Level) : ParseM (List Expr) := inParens (expression inner) .closeArguments

/-- A literal, a name or an expression in parentheses, which leave no trace in the tree. -/
def primary (inner : Level) : ParseM Expr := do
  let t := (← get).peek
  match t.kind with
  | .kwTrue => let _ ← advance; return literal t (.boolean true)
  | .kwFalse => let _ ← advance; return literal t (.boolean false)
  | .kwNull => let _ ← advance; return literal t .null
  | .number => let _ ← advance; return literal t (.number (.ofLiteral t.text.toList))
  | .string => let _ ← advance; return literal t (.string (stringValue t.text))
  | .identifier => let _ ← advance; return .name t.text false t.span
  | .builtinVar => let _ ← advance; return .name t.text true t.span
  | .lParen =>
    let _ ← advance
    let e ← expression inner
    let _ ← expect .rParen .closeGroup
    return e
  | _ => refuse (.expected .expression)

/-- One call or member access behind an expression, if there is one. -/
def postfixLink (inner : Level) (e : Expr) : ParseM (Expr × Bool) := do
  if ← eat .lParen then
    link
    let args ← arguments inner
    return (.call e args (e.span.cover (← get).last.span), true)
  else if ← eat .dot then
    link
    let t := (← get).peek
    if t.kind = .identifier ∨ t.kind = .builtinVar then
      let _ ← advance
      return (.member e t.text (e.span.cover t.span), true)
    else refuse (.expected .propertyName)
  else return (e, false)

/-- Calls and member accesses in a row. -/
def postfixed (inner : Level) : ParseM Expr := chain do
  let e ← primary inner
  repeating (postfixLink inner) e

/-- A sign or `not` before an operand. -/
def unary (inner : Level) : ParseM Expr := do
  let t := (← get).peek
  let signed (operator : UnaryOp) : ParseM Expr := do
    let _ ← advance
    let argument ← nested inner.unary
    return .unary operator argument (t.span.cover argument.span)
  match t.kind with
  | .kwNot => signed .not
  | .minus => signed .negate
  | _ => postfixed inner

/-- One operator of a level with its right operand, if it comes next. -/
def binaryLink (operator? : Kind → Option BinaryOp) (operand : ParseM Expr) (left : Expr) :
    ParseM (Expr × Bool) := do
  match operator? (← get).peek.kind with
  | none => return (left, false)
  | some operator =>
    let _ ← advance
    link
    let right ← operand
    return (binary operator left right, true)

/-- Operands joined from the left by the operators of one level. -/
def leftChain (operator? : Kind → Option BinaryOp) (operand : ParseM Expr) : ParseM Expr := chain do
  let left ← operand
  repeating (binaryLink operator? operand) left

def factorOp? : Kind → Option BinaryOp
  | .multiply => some .multiply
  | .divide => some .divide
  | .modulo => some .modulo
  | _ => none

def termOp? : Kind → Option BinaryOp
  | .plus => some .add
  | .minus => some .subtract
  | _ => none

def comparisonOp? : Kind → Option BinaryOp
  | .less => some .less
  | .greater => some .greater
  | .lessEqual => some .lessEqual
  | .greaterEqual => some .greaterEqual
  | _ => none

def equalityOp? : Kind → Option BinaryOp
  | .equals => some .equal
  | .notEquals => some .notEqual
  | _ => none

def andOp? : Kind → Option BinaryOp
  | .kwAnd => some .and
  | _ => none

def orOp? : Kind → Option BinaryOp
  | .kwOr => some .or
  | _ => none

def factor (inner : Level) : ParseM Expr := leftChain factorOp? (unary inner)

def term (inner : Level) : ParseM Expr := leftChain termOp? (factor inner)

def comparison (inner : Level) : ParseM Expr := leftChain comparisonOp? (term inner)

def equality (inner : Level) : ParseM Expr := leftChain equalityOp? (comparison inner)

def conjunction (inner : Level) : ParseM Expr := leftChain andOp? (equality inner)

def disjunction (inner : Level) : ParseM Expr := leftChain orOp? (conjunction inner)

/-- An assignment `target := value`, joined from the right, or an expression without assignment. -/
def assignment (inner : Level) : ParseM Expr := do
  let target ← disjunction inner
  if ← check .assign then
    if target.isTarget then
      let _ ← advance
      let value ← nested inner.assignment
      return .assignment target value (target.span.cover value.span)
    else refuse .invalidTarget
  else return target

end Parser

end ScriptLens
