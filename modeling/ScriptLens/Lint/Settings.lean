/-!
What the style checks of the linter can be told.
-/

namespace ScriptLens

structure LintSettings where
  /-- Loops nested deeper than this are reported. -/
  maxLoopDepth : UInt64 := 3
  /-- Spaces for each brace level; a tab counts as many. -/
  indentWidth : UInt64 := 4
  /-- Single letters that are never reported. -/
  allowedShortNames : List String := ["i", "j", "k", "x", "y", "z"]
  requireVersionDirective : Bool := true
deriving DecidableEq, Repr

end ScriptLens
