import ScriptLens.Lint.Brackets
import ScriptLens.Lint.Sequences
import ScriptLens.Lint.Style
import ScriptLens.Lint.Tree
import ScriptLens.Parser.Stmt

/-!
The linter: four passes over the tokens and the tree of a script.
-/

namespace ScriptLens

/-- The finding about a script that does not scan to its end. -/
def LexError.diagnostic (e : LexError) : Diagnostic :=
  .lint .error .parseError e.message (.point e.position)

/-- All findings of the linter, pass by pass, where those about indentation are known. A script that
does not scan to its end has no tree; that fault comes last. -/
def Lint.findings (settings : LintSettings) (source : String) (result : Scan)
    (indents : List Diagnostic) : List Diagnostic :=
  let inTree := match result.fault with
    | none => tree result.tokens (parseTokens source result.tokens).program
    | some _ => []
  brackets result.tokens ++ sequences result.tokens ++ inTree ++
    style settings source.toList result.tokens indents ++
    (result.fault.map LexError.diagnostic).toList

/-- What the linter finds; none where a width of indentation leaves its word and the run stops. -/
def lint (settings : LintSettings) (source : String) : Option (List Diagnostic) := do
  let result := scan source
  let indents ← Lint.indentation settings.indentWidth source.toList result.tokens
  return Lint.findings settings source result indents

/-- Whether a script scans and the linter finds no error in it. -/
def isValid (source : String) : Option Bool :=
  (lint {} source).map fun found => !found.any Diagnostic.isError

end ScriptLens
