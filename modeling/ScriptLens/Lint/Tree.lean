import ScriptLens.Diagnostic
import ScriptLens.Lint.Names
import ScriptLens.Syntax.Walk
import ScriptLens.Token.Basic

/-!
Findings that need the syntax tree: calls of unknown functions, statements behind a return,
functions declared twice, and assignments to variables of the engine.
-/

namespace ScriptLens.Lint

/-- The names declared at the top level. -/
def declaredNames (body : List Stmt) : List String :=
  body.filterMap fun
    | .function name .. => some name
    | .classDecl name .. => some name
    | _ => none

/-- The call that a statement makes at its root or assigns. -/
def rootCall? : Stmt → Option (String × Span)
  | .expression (.assignment _ value _) _ => value.calledName?
  | .expression e _ => e.calledName?
  | _ => none

/-- Calls at the top level of functions that are neither declared there nor known to the engine. -/
def undefinedCalls (program : Program) : List Diagnostic :=
  let declared := declaredNames program.body
  program.body.filterMap fun stmt => do
    let (name, span) ← rootCall? stmt
    if Text.listed declared name || Names.isBuiltin name then none
    else some (.lint .warning .undefinedFunction ("Undefined function '" ++ name ++ "'") span)

def isReturn : Stmt → Bool
  | .returns .. => true
  | _ => false

/-- Statements that directly follow a return in their list. -/
def unreachable : List Stmt → List Diagnostic
  | first :: second :: rest =>
    (if isReturn first then
      [.lint .warning .unreachableCode "Unreachable code after return" second.span]
    else []) ++ unreachable (second :: rest)
  | _ => []

/-- Functions whose name occurs earlier in their list; `seen` holds the names before it. -/
def duplicates (seen : List String) : List Stmt → List Diagnostic
  | [] => []
  | .function name nameSpan _ _ _ _ :: rest =>
    (if Text.listed seen name then
      [.lint .error .duplicateFunction ("Duplicate function declaration '" ++ name ++ "'") nameSpan]
    else []) ++ duplicates (name :: seen) rest
  | _ :: rest => duplicates seen rest

/-- The findings about one statement list. -/
def listFindings (body : List Stmt) : List Diagnostic := unreachable body ++ duplicates [] body

/-- Assignments to read-only variables of the engine. -/
def readOnlyAssignments : List Token → List Diagnostic
  | [] => []
  | t :: rest =>
    (if t.kind = .builtinVar && Names.isReadOnly t.text &&
        (rest.find? (·.kind != .newline)).any (·.kind = .assign) then
      [.lint .error .readOnlyAssignment
        ("Cannot assign to read-only variable '" ++ t.text ++ "'") t.span]
    else []) ++ readOnlyAssignments rest

/-- All findings that need the tree, in the order of the script. -/
def tree (tokens : List Token) (program : Program) : List Diagnostic :=
  Diagnostic.inOrder
    (undefinedCalls program ++ (Stmt.lists program.body).flatMap listFindings ++
      readOnlyAssignments tokens)

end ScriptLens.Lint
