import ScriptLens.Position
import ScriptLens.Number.Double

/-!
Syntax trees of scripts. Every node carries the span of the script it covers. The grammar (line
breaks separate statements):

    statement  := if | while | for | loop | class | function | return
                | break | continue | hotkey | directive | expression
    if         := ("if" | "elseif") expr body (("elseif" | "else" "if") ... | "else" body)?
    for        := "for" "("? NAME ("," NAME)* "in" expr ")"? body
    loop       := "loop" expr? body
    class      := "class" NAME ("extends" NAME)? block
    function   := "static"? NAME "(" params? ")" block
    body       := block | statement* (until the end, "}", "else", "elseif")
    expr       := assignment
    assignment := or (":=" assignment)?
    or         := and ("or" and)*
    and        := equality ("and" equality)*
    equality   := comparison (("=" | "!=") comparison)*
    comparison := term (("<" | ">" | "<=" | ">=") term)*
    term       := factor (("+" | "-") factor)*
    factor     := unary (("*" | "/" | "mod") unary)*
    unary      := ("not" | "-") unary | call
    call       := primary ("(" args? ")" | "." NAME)*
-/

namespace ScriptLens

inductive BinaryOp where
  | or | and | equal | notEqual | less | greater | lessEqual | greaterEqual
  | add | subtract | multiply | divide | modulo
deriving DecidableEq, Repr

inductive UnaryOp where
  | not | negate
deriving DecidableEq, Repr

/-- The value of a literal. -/
inductive Literal where
  | number (value : Double)
  | string (value : String)
  | boolean (value : Bool)
  | null
deriving DecidableEq, Repr

inductive Expr where
  | assignment (target value : Expr) (span : Span)
  | binary (operator : BinaryOp) (left right : Expr) (span : Span)
  | unary (operator : UnaryOp) (argument : Expr) (span : Span)
  | call (callee : Expr) (arguments : List Expr) (span : Span)
  | member (object : Expr) (property : String) (span : Span)
  | literal (value : Literal) (raw : String) (span : Span)
  /-- A name; `builtin` marks an engine variable `A_…`. -/
  | name (name : String) (builtin : Bool) (span : Span)
deriving Repr, Inhabited

namespace Expr

def span : Expr → Span
  | assignment _ _ s | binary _ _ _ s | unary _ _ s | call _ _ s | member _ _ s | literal _ _ s
  | name _ _ s => s

/-- What an assignment may assign to. -/
def isTarget : Expr → Bool
  | name .. | member .. => true
  | _ => false

/-- Name and span of the callee, where a bare name is called. -/
def calledName? : Expr → Option (String × Span)
  | call (name n _ s) _ _ => some (n, s)
  | _ => none

end Expr

/-- A parameter of a function. -/
structure Param where
  name : String
  /-- Written `&name`. -/
  byRef : Bool
  /-- Written `name*`. -/
  variadic : Bool
  default : Option Expr
  span : Span
deriving Repr

mutual

inductive Stmt where
  | ifs (chain : IfChain)
  | whileLoop (test : Expr) (body : List Stmt) (span : Span)
  | forLoop (names : List String) (iterable : Expr) (body : List Stmt) (span : Span)
  /-- A loop without a count runs forever. -/
  | loop (count : Option Expr) (body : List Stmt) (span : Span)
  | classDecl (name : String) (nameSpan : Span) (superClass : Option String) (body : List Stmt)
      (span : Span)
  | function (name : String) (nameSpan : Span) (params : List Param) (body : List Stmt)
      (isStatic : Bool) (span : Span)
  | returns (argument : Option Expr) (span : Span)
  | breaks (span : Span)
  | continues (span : Span)
  /-- The trigger ends with `::`. -/
  | hotkey (trigger : String) (body : List Stmt) (span : Span)
  | directive (directive value : String) (span : Span)
  | expression (expression : Expr) (span : Span)

/-- One `if` or `elseif` with what follows its body. -/
inductive IfChain where
  | mk (test : Expr) (consequent : List Stmt) (alternate : Alternate) (span : Span)

/-- What follows the body of an `if`. -/
inductive Alternate where
  | absent
  | elseIf (next : IfChain)
  | otherwise (body : List Stmt)

end

instance : Inhabited Stmt := ⟨.breaks default⟩

namespace IfChain

def span : IfChain → Span
  | mk _ _ _ s => s

mutual

/-- The bodies along a chain, each link's in turn and the last `else`. -/
def bodies : IfChain → List (List Stmt)
  | mk _ consequent alternate _ => consequent :: alternateBodies alternate

def alternateBodies : Alternate → List (List Stmt)
  | .absent => []
  | .elseIf next => bodies next
  | .otherwise body => [body]

end

mutual

/-- The number of links of a chain. -/
def links : IfChain → Nat
  | mk _ _ alternate _ => 1 + alternateLinks alternate

def alternateLinks : Alternate → Nat
  | .absent => 0
  | .elseIf next => links next
  | .otherwise _ => 0

end

end IfChain

namespace Stmt

def span : Stmt → Span
  | ifs chain => chain.span
  | whileLoop _ _ s | forLoop _ _ _ s | loop _ _ s | classDecl _ _ _ _ s | function _ _ _ _ _ s
  | returns _ s | breaks s | continues s | hotkey _ _ s | directive _ _ s | expression _ s => s

/-- The statement lists directly inside a statement; an `if` gives those of its whole chain. -/
def childBodies : Stmt → List (List Stmt)
  | ifs chain => chain.bodies
  | whileLoop _ body _ | forLoop _ _ body _ | loop _ body _ | classDecl _ _ _ body _
  | function _ _ _ body _ _ | hotkey _ body _ => [body]
  | returns .. | breaks _ | continues _ | directive .. | expression .. => []

end Stmt

/-- A whole script. -/
structure Program where
  body : List Stmt
  span : Span

end ScriptLens
