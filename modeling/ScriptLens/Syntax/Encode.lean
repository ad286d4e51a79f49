import ScriptLens.Json.Basic
import ScriptLens.Number.Shortest
import ScriptLens.Parser.Stmt

/-!
The JSON forms of places, tokens and syntax trees.
-/

namespace ScriptLens

/-- Numbers in JSON: positional from `10 ^ -5` up to below `10 ^ 16`, signed exponents beyond, and
the even digit on a tie. -/
def Json.numberLayout : DecimalLayout := ⟨-5, 15, true, false⟩

/-- A double as a JSON number; JSON has none beyond the finite ones. -/
def Double.toJson (d : Double) : Json :=
  match d.render? Json.numberLayout with
  | some literal => .number literal
  | none => .null

def Position.toJson (p : Position) : Json :=
  .object [("line", .ofNat p.line), ("column", .ofNat p.column), ("offset", .ofNat p.offset)]

def Span.toJson (s : Span) : Json :=
  .object [("start", s.start.toJson), ("end", s.stop.toJson)]

def Token.toJson (t : Token) : Json :=
  .object [("kind", .string t.kind.constantName), ("text", .string t.text),
    ("line", .ofNat t.start.line), ("column", .ofNat t.start.column),
    ("endLine", .ofNat t.stop.line), ("endColumn", .ofNat t.stop.column),
    ("startOffset", .ofNat t.start.offset), ("endOffset", .ofNat t.stop.offset)]

def BinaryOp.symbol : BinaryOp → String
  | or => "or" | and => "and" | equal => "=" | notEqual => "!=" | less => "<" | greater => ">"
  | lessEqual => "<=" | greaterEqual => ">=" | add => "+" | subtract => "-" | multiply => "*"
  | divide => "/" | modulo => "mod"

def UnaryOp.symbol : UnaryOp → String
  | not => "not"
  | negate => "-"

def Literal.toJson : Literal → Json
  | number value => value.toJson
  | string value => .string value
  | boolean value => .bool value
  | null => .null

namespace Expr

mutual

def toJson : Expr → Json
  | assignment target value span =>
    .object [("type", .string "AssignmentExpression"), ("target", toJson target),
      ("value", toJson value), ("span", span.toJson)]
  | binary operator left right span =>
    .object [("type", .string "BinaryExpression"), ("operator", .string operator.symbol),
      ("left", toJson left), ("right", toJson right), ("span", span.toJson)]
  | unary operator argument span =>
    .object [("type", .string "UnaryExpression"), ("operator", .string operator.symbol),
      ("argument", toJson argument), ("span", span.toJson)]
  | call callee arguments span =>
    .object [("type", .string "CallExpression"), ("callee", toJson callee),
      ("arguments", .array (listToJson arguments)), ("span", span.toJson)]
  | member object property span =>
    .object [("type", .string "MemberExpression"), ("object", toJson object),
      ("property", .string property), ("span", span.toJson)]
  | literal value raw span =>
    .object [("type", .string "Literal"), ("value", value.toJson), ("raw", .string raw),
      ("span", span.toJson)]
  | name text builtin span =>
    .object [("type", .string "Identifier"), ("name", .string text), ("builtin", .bool builtin),
      ("span", span.toJson)]

def listToJson : List Expr → List Json
  | [] => []
  | e :: rest => toJson e :: listToJson rest

end

end Expr

def Param.toJson (p : Param) : Json :=
  .object [("name", .string p.name), ("byRef", .bool p.byRef), ("variadic", .bool p.variadic),
    ("default", .ofOption Expr.toJson p.default), ("span", p.span.toJson)]

namespace Stmt

mutual

def toJson : Stmt → Json
  | ifs chain => .object (("type", .string "IfStatement") :: chainFields chain)
  | whileLoop test body span =>
    .object [("type", .string "WhileStatement"), ("test", test.toJson),
      ("body", .array (listToJson body)), ("span", span.toJson)]
  | forLoop names iterable body span =>
    .object [("type", .string "ForStatement"), ("variables", .ofList .string names),
      ("iterable", iterable.toJson), ("body", .array (listToJson body)), ("span", span.toJson)]
  | loop count body span =>
    .object [("type", .string "LoopStatement"), ("count", .ofOption Expr.toJson count),
      ("body", .array (listToJson body)), ("span", span.toJson)]
  | classDecl name nameSpan superClass body span =>
    .object [("type", .string "ClassDeclaration"), ("name", .string name),
      ("nameSpan", nameSpan.toJson), ("superClass", .ofOption .string superClass),
      ("body", .array (listToJson body)), ("span", span.toJson)]
  | function name nameSpan params body isStatic span =>
    .object [("type", .string "FunctionDeclaration"), ("name", .string name),
      ("nameSpan", nameSpan.toJson), ("params", .ofList Param.toJson params),
      ("body", .array (listToJson body)), ("isStatic", .bool isStatic), ("span", span.toJson)]
  | returns argument span =>
    .object [("type", .string "ReturnStatement"), ("argument", .ofOption Expr.toJson argument),
      ("span", span.toJson)]
  | breaks span => .object [("type", .string "BreakStatement"), ("span", span.toJson)]
  | continues span => .object [("type", .string "ContinueStatement"), ("span", span.toJson)]
  | hotkey trigger body span =>
    .object [("type", .string "HotkeyStatement"), ("trigger", .string trigger),
      ("body", .array (listToJson body)), ("span", span.toJson)]
  | directive word value span =>
    .object [("type", .string "DirectiveStatement"), ("directive", .string word),
      ("value", .string value), ("span", span.toJson)]
  | expression e span =>
    .object [("type", .string "ExpressionStatement"), ("expression", e.toJson),
      ("span", span.toJson)]

def chainFields : IfChain → List (String × Json)
  | .mk test consequent alternate span =>
    [("test", test.toJson), ("consequent", .array (listToJson consequent)),
      ("alternate", alternateToJson alternate), ("span", span.toJson)]

def alternateToJson : Alternate → Json
  | .absent => .null
  | .elseIf next => .object [("kind", .string "ElseIf"), ("node", .object (chainFields next))]
  | .otherwise body => .object [("kind", .string "Else"), ("node", .array (listToJson body))]

def listToJson : List Stmt → List Json
  | [] => []
  | s :: rest => toJson s :: listToJson rest

end

end Stmt

def Program.toJson (p : Program) : Json :=
  .object [("body", .array (Stmt.listToJson p.body)), ("span", p.span.toJson)]

def Skipped.toJson (s : Skipped) : Json :=
  .object [("span", s.span.toJson), ("message", .string s.error.message)]

def ParseOutput.toJson (o : ParseOutput) : Json :=
  .object [("program", o.program.toJson), ("skipped", .ofList Skipped.toJson o.skipped)]

end ScriptLens
