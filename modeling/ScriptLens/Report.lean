import ScriptLens.Lint.Basic

/-!
Everything the analyses say about one script, with simple measures of its code.
-/

namespace ScriptLens

/-- Measures of a script. -/
structure Statistics where
  lines : Nat
  /-- Tokens without the end mark. -/
  tokens : Nat
  functions : Nat
  classes : Nat
  comments : Nat
  complexity : Nat
deriving DecidableEq, Repr

namespace Statistics

def isFunction : Stmt → Bool
  | .function .. => true
  | _ => false

def isClass : Stmt → Bool
  | .classDecl .. => true
  | _ => false

/-- What a statement by itself adds to the complexity: one for a declaration, one for each link of
an `if` and two for a loop. -/
def weight : Stmt → Nat
  | .function .. | .classDecl .. => 1
  | .ifs chain => chain.links
  | .whileLoop .. | .forLoop .. | .loop .. => 2
  | _ => 0

def collect (source : String) (tokens : List Token) (program : Program) : Statistics :=
  let stmts := (Stmt.lists program.body).flatten
  { lines := (Text.splitLines source.toList).length
    tokens := tokens.countP (·.kind != .eof)
    functions := stmts.countP isFunction
    classes := stmts.countP isClass
    comments := tokens.countP (·.kind = .comment)
    complexity := stmts.foldl (fun n s => n + weight s) 1 }

/-- One measure a line. -/
def render (s : Statistics) : String :=
  String.join ([("lines", s.lines), ("tokens", s.tokens), ("functions", s.functions),
    ("classes", s.classes), ("comments", s.comments), ("complexity", s.complexity)].map
      fun (name, n) => name ++ ": " ++ toString n ++ "\n")

end Statistics

/-- The result of all analyses of the core. -/
structure Report where
  tokens : List Token
  output : ParseOutput
  diagnostics : List Diagnostic
  statistics : Statistics

def Report.hasErrors (r : Report) : Bool := r.diagnostics.any Diagnostic.isError

/-- Analyses a script; an unterminated string is the only error. None where the linter stops. -/
def analyze (settings : LintSettings) (source : String) : Option (Except LexError Report) :=
  match tokenize source with
  | .error e => some (.error e)
  | .ok tokens => (lint settings source).map fun found =>
    let output := parseTokens source tokens
    .ok ⟨tokens, output, found, .collect source tokens output.program⟩

end ScriptLens
