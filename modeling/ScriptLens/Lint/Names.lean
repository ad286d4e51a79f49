import ScriptLens.Text.Basic

/-!
Names that the engine knows. Look-ups ignore the case of ASCII letters, as the language does.
-/

namespace ScriptLens.Names

/-- Calls that touch processes or files. -/
def dangerous : List String := ["Run", "RunWait", "FileAppend", "FileDelete"]

/-- Functions that may be called without a declaration, those in `dangerous` apart. -/
def harmless : List String :=
  ["MsgBox", "Send", "Click", "Sleep", "WinActivate", "WinExist", "FileRead", "FileWrite",
   "StrSplit", "StrReplace", "SubStr", "Array", "Map", "Object", "Gui", "ToolTip", "SetTimer"]

/-- Engine variables that a script may read but not assign. -/
def readOnly : List String :=
  ["A_ScriptName", "A_ScriptDir", "A_WorkingDir", "A_ComputerName", "A_UserName", "A_Now",
   "A_TickCount", "A_ScreenWidth", "A_ScreenHeight"]

def isDangerous (name : String) : Bool := Text.listed dangerous name

def isBuiltin (name : String) : Bool := Text.listed harmless name || isDangerous name

def isReadOnly (name : String) : Bool := Text.listed readOnly name

end ScriptLens.Names
