import ScriptLens.Number.Shortest
import ScriptLens.Syntax.Basic
import ScriptLens.Text.Printable

/-!
Syntax trees as an indented outline: each record by its name with one field a line, four blanks a
level.
-/

namespace ScriptLens

/-- What an outline shows. -/
inductive Outline where
  | atom (text : String)
  | record (name : String) (fields : List (String × Outline))
  | variant (name : String) (content : Outline)
  | list (items : List Outline)

namespace Outline

/-- A line break with the indentation of a level. -/
def newline (level : Nat) : String := "\n" ++ String.ofList (List.replicate (4 * level) ' ')

mutual

/-- The outline with its last line at a level. -/
def renderAt (level : Nat) : Outline → String
  | .atom text => text
  | .record name fields =>
    name ++ " \x7b" ++ renderFields (level + 1) fields ++ newline level ++ "\x7d"
  | .variant name content =>
    name ++ "(" ++ newline (level + 1) ++ renderAt (level + 1) content ++ "," ++
      newline level ++ ")"
  | .list [] => "[]"
  | .list items => "[" ++ renderItems (level + 1) items ++ newline level ++ "]"

def renderFields (level : Nat) : List (String × Outline) → String
  | [] => ""
  | (name, content) :: rest =>
    newline level ++ name ++ ": " ++ renderAt level content ++ "," ++ renderFields level rest

def renderItems (level : Nat) : List Outline → String
  | [] => ""
  | item :: rest => newline level ++ renderAt level item ++ "," ++ renderItems level rest

end

def render (o : Outline) : String := renderAt 0 o

def nat (n : Nat) : Outline := .atom (toString n)

def bool (b : Bool) : Outline := .atom (if b then "true" else "false")

def text (s : String) : Outline := .atom (Text.quoted s)

def option (outline : α → Outline) : Option α → Outline
  | none => .atom "None"
  | some a => .variant "Some" (outline a)

/-- Numbers in an outline: positional from `10 ^ -4` up to below `10 ^ 16`, exponents unsigned
beyond, and the greater digit on a tie. -/
def numberLayout : DecimalLayout := ⟨-4, 15, false, true⟩

def number (d : Double) : Outline := .atom ((d.render? numberLayout).getD "inf")

end Outline

def Position.outline (p : Position) : Outline :=
  .record "Position" [("line", .nat p.line), ("column", .nat p.column), ("offset", .nat p.offset)]

def Span.outline (s : Span) : Outline :=
  .record "Span" [("start", s.start.outline), ("end", s.stop.outline)]

def BinaryOp.name : BinaryOp → String
  | or => "Or" | and => "And" | equal => "Equal" | notEqual => "NotEqual" | less => "Less"
  | greater => "Greater" | lessEqual => "LessEqual" | greaterEqual => "GreaterEqual" | add => "Add"
  | subtract => "Subtract" | multiply => "Multiply" | divide => "Divide" | modulo => "Modulo"

def UnaryOp.name : UnaryOp → String
  | not => "Not"
  | negate => "Negate"

def Literal.outline : Literal → Outline
  | number value => .variant "Number" (.number value)
  | string value => .variant "String" (.text value)
  | boolean value => .variant "Boolean" (.bool value)
  | null => .atom "Null"

namespace Expr

mutual

def outline : Expr → Outline
  | assignment target value span =>
    .record "Assignment"
      [("target", outline target), ("value", outline value), ("span", span.outline)]
  | binary operator left right span =>
    .record "Binary" [("operator", .atom operator.name), ("left", outline left),
      ("right", outline right), ("span", span.outline)]
  | unary operator argument span =>
    .record "Unary" [("operator", .atom operator.name), ("argument", outline argument),
      ("span", span.outline)]
  | call callee arguments span =>
    .record "Call" [("callee", outline callee), ("arguments", .list (outlines arguments)),
      ("span", span.outline)]
  | member object property span =>
    .record "Member"
      [("object", outline object), ("property", .text property), ("span", span.outline)]
  | literal value raw span =>
    .record "Literal" [("value", value.outline), ("raw", .text raw), ("span", span.outline)]
  | name text builtin span =>
    .record "Identifier" [("name", .text text), ("builtin", .bool builtin), ("span", span.outline)]

def outlines : List Expr → List Outline
  | [] => []
  | e :: rest => outline e :: outlines rest

end

end Expr

def Param.outline (p : Param) : Outline :=
  .record "Param"
    [("name", .text p.name), ("by_ref", .bool p.byRef), ("variadic", .bool p.variadic),
    ("default", .option Expr.outline p.default), ("span", p.span.outline)]

namespace Stmt

mutual

def outline : Stmt → Outline
  | ifs chain => .variant "If" (chainOutline chain)
  | whileLoop test body span =>
    .variant "While" (.record "WhileStatement" [("test", test.outline),
      ("body", .list (outlines body)), ("span", span.outline)])
  | forLoop names iterable body span =>
    .variant "For" (.record "ForStatement" [("variables", .list (names.map .text)),
      ("iterable", iterable.outline), ("body", .list (outlines body)), ("span", span.outline)])
  | loop count body span =>
    .variant "Loop" (.record "LoopStatement" [("count", .option Expr.outline count),
      ("body", .list (outlines body)), ("span", span.outline)])
  | classDecl name nameSpan superClass body span =>
    .variant "Class" (.record "ClassDeclaration" [("name", .text name),
      ("name_span", nameSpan.outline), ("super_class", .option .text superClass),
      ("body", .list (outlines body)), ("span", span.outline)])
  | function name nameSpan params body isStatic span =>
    .variant "Function" (.record "FunctionDeclaration" [("name", .text name),
      ("name_span", nameSpan.outline), ("params", .list (params.map Param.outline)),
      ("body", .list (outlines body)), ("is_static", .bool isStatic), ("span", span.outline)])
  | returns argument span =>
    .variant "Return" (.record "ReturnStatement" [("argument", .option Expr.outline argument),
      ("span", span.outline)])
  | breaks span => .record "Break" [("span", span.outline)]
  | continues span => .record "Continue" [("span", span.outline)]
  | hotkey trigger body span =>
    .variant "Hotkey" (.record "HotkeyStatement" [("trigger", .text trigger),
      ("body", .list (outlines body)), ("span", span.outline)])
  | directive word value span =>
    .variant "Directive" (.record "DirectiveStatement" [("directive", .text word),
      ("value", .text value), ("span", span.outline)])
  | expression e span =>
    .variant "Expression" (.record "ExpressionStatement" [("expression", e.outline),
      ("span", span.outline)])

def chainOutline : IfChain → Outline
  | .mk test consequent alternate span =>
    .record "IfStatement" [("test", test.outline), ("consequent", .list (outlines consequent)),
      ("alternate", alternateOutline alternate), ("span", span.outline)]

def alternateOutline : Alternate → Outline
  | .absent => .atom "None"
  | .elseIf next => .variant "Some" (.variant "ElseIf" (chainOutline next))
  | .otherwise body => .variant "Some" (.variant "Else" (.list (outlines body)))

def outlines : List Stmt → List Outline
  | [] => []
  | s :: rest => outline s :: outlines rest

end

end Stmt

def Program.outline (p : Program) : Outline :=
  .record "Program" [("body", .list (Stmt.outlines p.body)), ("span", p.span.outline)]

end ScriptLens
