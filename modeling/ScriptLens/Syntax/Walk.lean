import ScriptLens.Syntax.Basic

/-!
All statement lists of a tree, each exactly once: a list comes before the lists inside its
statements.
-/

namespace ScriptLens.Stmt

mutual

/-- The statement lists inside the statements of a list, at every depth. -/
def listsInside : List Stmt → List (List Stmt)
  | [] => []
  | s :: rest => listsOf s ++ listsInside rest

/-- The statement lists inside one statement. -/
def listsOf : Stmt → List (List Stmt)
  | ifs chain => listsOfChain chain
  | whileLoop _ body _ => body :: listsInside body
  | forLoop _ _ body _ => body :: listsInside body
  | loop _ body _ => body :: listsInside body
  | classDecl _ _ _ body _ => body :: listsInside body
  | function _ _ _ body _ _ => body :: listsInside body
  | hotkey _ body _ => body :: listsInside body
  | returns .. | breaks _ | continues _ | directive .. | expression .. => []

def listsOfChain : IfChain → List (List Stmt)
  | .mk _ consequent alternate _ =>
      consequent :: listsInside consequent ++ listsOfAlternate alternate

def listsOfAlternate : Alternate → List (List Stmt)
  | .absent => []
  | .elseIf next => listsOfChain next
  | .otherwise body => body :: listsInside body

end

/-- A statement list and all lists inside it. -/
def lists (body : List Stmt) : List (List Stmt) := body :: listsInside body

end ScriptLens.Stmt
