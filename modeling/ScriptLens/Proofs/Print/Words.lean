import ScriptLens.Parser.Expr
import ScriptLens.Text.Space

/-!
The canonical form of a script: one statement on a line, every body in braces, parentheses where the
level of an operand asks for them, and single blanks between the words of a line.
-/

namespace ScriptLens

/-- A word of a printed line: a token, or the value of a directive, which can be many. -/
inductive Word where
  | token (kind : Kind) (text : String)
  | value (text : String)
deriving DecidableEq, Repr

namespace Word

def text : Word → List Char
  | token _ text => text.toList
  | value text => text.toList

def lParen : Word := .token .lParen "("
def rParen : Word := .token .rParen ")"
def lBrace : Word := .token .lBrace "\x7b"
def rBrace : Word := .token .rBrace "\x7d"
def comma : Word := .token .comma ","
def dot : Word := .token .dot "."
def assign : Word := .token .assign ":="
def newline : Word := .token .newline "\n"

/-- Words in parentheses, if these are needed. -/
def grouped (needed : Bool) (words : List Word) : List Word :=
  if needed then lParen :: words ++ [rParen] else words

/-- The words of a line with single blanks between them. -/
def unwords : List Word → List Char
  | [] => []
  | [w] => w.text
  | w :: more => w.text ++ ' ' :: unwords more

/-- Lines, each closed by its line break. -/
def unlines : List (List Word) → List Char
  | [] => []
  | line :: lines => unwords line ++ '\n' :: unlines lines

/-- Items with commas between them. -/
def separated : List (List Word) → List Word
  | [] => []
  | [item] => item
  | item :: rest => item ++ comma :: separated rest

/-- The tokens of lines in a row, each line closed by its line break. -/
def flat (lines : List (List Word)) : List Word := lines.flatMap (· ++ [newline])

end Word

namespace BinaryOp

/-- Levels of the grammar, the loosest first: an assignment is level 0, a literal or a name level
9. -/
def level : BinaryOp → Nat
  | or => 1
  | and => 2
  | equal | notEqual => 3
  | less | greater | lessEqual | greaterEqual => 4
  | add | subtract => 5
  | multiply | divide | modulo => 6

theorem level_bounds (operator : BinaryOp) : 1 ≤ operator.level ∧ operator.level ≤ 6 := by
  cases operator <;> decide

def kind : BinaryOp → Kind
  | or => .kwOr | and => .kwAnd | equal => .equals | notEqual => .notEquals
  | less => .less | greater => .greater | lessEqual => .lessEqual | greaterEqual => .greaterEqual
  | add => .plus | subtract => .minus | multiply => .multiply | divide =>
      .divide | modulo => .modulo

def text : BinaryOp → String
  | or => "or" | and => "and" | equal => "=" | notEqual => "!="
  | less => "<" | greater => ">" | lessEqual => "<=" | greaterEqual => ">="
  | add => "+" | subtract => "-" | multiply => "*" | divide => "/" | modulo => "mod"

end BinaryOp

namespace UnaryOp

def kind : UnaryOp → Kind
  | not => .kwNot
  | negate => .minus

def text : UnaryOp → String
  | not => "not"
  | negate => "-"

end UnaryOp

/-- The kind of token that spells a literal. -/
def Literal.kind : Literal → Kind
  | number _ => .number
  | string _ => .string
  | boolean true => .kwTrue
  | boolean false => .kwFalse
  | null => .kwNull

namespace Expr

def level : Expr → Nat
  | assignment .. => 0
  | binary operator .. => operator.level
  | unary .. => 7
  | call .. | member .. => 8
  | literal .. | name .. => 9

/-- The kind of a token that spells a name. -/
def nameKind (builtin : Bool) : Kind := if builtin then .builtinVar else .identifier

/-- Whether a name is marked as an engine variable. -/
def isMarked (name : String) : Bool := ['A', '_'].isPrefixOf name.toList

mutual

/-- An expression, with no parentheses around it. -/
def words : Expr → List Word
  | assignment target value _ =>
    Word.grouped (target.level < 1) target.words ++ .assign :: value.words
  | binary operator left right _ =>
    Word.grouped (left.level < operator.level) left.words ++
      .token operator.kind operator.text ::
        Word.grouped (right.level < operator.level + 1) right.words
  | unary operator argument _ =>
    .token operator.kind operator.text :: Word.grouped (argument.level < 7) argument.words
  | call callee arguments _ =>
    Word.grouped (callee.level < 8) callee.words ++ .lParen :: (listed arguments ++ [.rParen])
  | member object property _ =>
    Word.grouped (object.level < 8) object.words ++
      [.dot, .token (nameKind (isMarked property)) property]
  | literal value raw _ => [.token value.kind raw]
  | name n builtin _ => [.token (nameKind builtin) n]

/-- Expressions with commas between them. -/
def listed : List Expr → List Word
  | [] => []
  | [e] => e.words
  | e :: rest => e.words ++ .comma :: listed rest

end

theorem listed_eq (es : List Expr) : listed es = Word.separated (es.map words) := by
  induction es with
  | nil => simp [listed, Word.separated]
  | cons e es ih =>
      cases es with
      | nil => simp [listed, Word.separated]
      | cons e' es => simpa [listed, Word.separated] using ih

/-- An expression as an operand of some level. -/
def wordsAt (level : Nat) (e : Expr) : List Word := Word.grouped (e.level < level) e.words

end Expr

namespace Param

/-- A default stands one level above an assignment. -/
def defaultWords : Option Expr → List Word
  | some e => .assign :: e.wordsAt 1
  | none => []

def words (p : Param) : List Word :=
  (if p.byRef then [.token .ampersand "&"] else []) ++ .token .identifier p.name ::
    ((if p.variadic then [.token .multiply "*"] else []) ++ defaultWords p.default)

end Param

namespace Stmt

def nameWords (names : List String) : List Word :=
  Word.separated (names.map fun n => [.token .identifier n])

/-- What stands on the lines of a statement apart from its bodies. -/
def optional (e : Option Expr) : List Word := (e.map Expr.words).getD []

def baseWords : Option String → List Word
  | some base => [.token .identifier "extends", .token .identifier base]
  | none => []

def staticWords (isStatic : Bool) : List Word :=
  if isStatic then [.token .kwStatic "static"] else []

def valueWords (value : String) : List Word := if value = "" then [] else [.value value]

mutual

/-- The lines of a statement. -/
def lines : Stmt → List (List Word)
  | ifs chain => chainLines [.token .kwIf "if"] chain
  | whileLoop test body _ => (.token .kwWhile "while" :: test.words ++ [.lBrace]) :: blockLines body
  | forLoop names iterable body _ =>
    (.token .kwFor "for" :: nameWords names ++ .token .kwIn "in" :: iterable.words ++ [.lBrace]) ::
      blockLines body
  | loop count body _ => (.token .kwLoop "loop" :: optional count ++ [.lBrace]) :: blockLines body
  | classDecl name _ superClass body _ =>
    (.token .kwClass "class" :: .token .identifier name :: baseWords superClass ++ [.lBrace]) ::
      blockLines body
  | function name _ params body isStatic _ =>
    (staticWords isStatic ++ .token .identifier name :: .lParen ::
      Word.separated (params.map Param.words) ++ [.rParen, .lBrace]) :: blockLines body
  | returns argument _ => [.token .kwReturn "return" :: optional argument]
  | breaks _ => [[.token .kwBreak "break"]]
  | continues _ => [[.token .kwContinue "continue"]]
  | hotkey trigger body _ => [.token .hotkey trigger, .lBrace] :: blockLines body
  | directive name value _ => [.token .directive name :: valueWords value]
  | expression e _ => [e.words]

/-- A chain whose first link is opened by some words. -/
def chainLines (opening : List Word) : IfChain → List (List Word)
  | .mk test consequent alternate _ =>
    (opening ++ test.words ++ [.lBrace]) :: (blockLines consequent ++ alternateLines alternate)

def alternateLines : Alternate → List (List Word)
  | .absent => []
  | .elseIf next => chainLines [.token .kwElse "else", .token .kwIf "if"] next
  | .otherwise body => [.token .kwElse "else", .lBrace] :: blockLines body

/-- The lines behind an opening brace, up to the closing one. -/
def blockLines : List Stmt → List (List Word)
  | [] => [[.rBrace]]
  | s :: rest => lines s ++ blockLines rest

end

/-- The lines of statements in a row. -/
def allLines (body : List Stmt) : List (List Word) := body.flatMap lines

end Stmt

/-- The canonical form of a script. -/
def Program.print (p : Program) : String :=
  String.ofList (Word.unlines (Stmt.allLines p.body))

end ScriptLens
