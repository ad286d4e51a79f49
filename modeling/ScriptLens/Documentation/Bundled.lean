import ScriptLens.Documentation.Basic

/-!
The documentation that comes with the library: common functions, classes, variables and directives.
-/

namespace ScriptLens.DocIndex

/-- Common functions. -/
def bundledFunctions : List FunctionDoc :=
  [⟨"MsgBox", "", "GUI",
     "Displays a message box with optional buttons and an icon.",
     [⟨"Text", "Text to display", none, true⟩,
      ⟨"Title", "Window title", none, true⟩,
      ⟨"Options", "Buttons, icon and default button", none, true⟩],
     some "String", [⟨"Simple message", "MsgBox(\"Hello\")"⟩]⟩,
   ⟨"InputBox", "", "GUI",
     "Displays an input box asking the user for a string.",
     [⟨"Prompt", "Text shown above the edit field", none, true⟩,
      ⟨"Title", "Window title", none, true⟩,
      ⟨"Options", "Size, position and timeout", none, true⟩],
     some "Object", []⟩,
   ⟨"ToolTip", "", "GUI",
     "Shows an always-on-top window anywhere on the screen.",
     [⟨"Text", "Text to show", none, true⟩,
      ⟨"X", "Horizontal position", none, true⟩,
      ⟨"Y", "Vertical position", none, true⟩],
     none, []⟩,
   ⟨"Send", "", "Keyboard",
     "Sends simulated keystrokes and mouse clicks to the active window.",
     [⟨"Keys", "Sequence of keys to send", none, false⟩],
     none, []⟩,
   ⟨"SendText", "", "Keyboard",
     "Sends text literally, without translating key names.",
     [⟨"Text", "Text to send", none, false⟩],
     none, []⟩,
   ⟨"Click", "", "Mouse",
     "Clicks a mouse button at the specified coordinates.",
     [⟨"Options", "Coordinates, button and count", none, true⟩],
     none, []⟩,
   ⟨"MouseMove", "", "Mouse",
     "Moves the mouse cursor.",
     [⟨"X", "Target x", none, false⟩,
      ⟨"Y", "Target y", none, false⟩,
      ⟨"Speed", "0 to 100", none, true⟩],
     none, []⟩,
   ⟨"Sleep", "", "Control Flow",
     "Waits the specified number of milliseconds before continuing.",
     [⟨"Delay", "Milliseconds to pause", none, false⟩],
     none, []⟩,
   ⟨"SetTimer", "", "Control Flow",
     "Causes a function to be called automatically and repeatedly at a specified time interval.",
     [⟨"Function", "Callback to run", none, true⟩,
      ⟨"Period", "Interval in milliseconds", none, true⟩,
      ⟨"Priority", "Thread priority", none, true⟩],
     none, []⟩,
   ⟨"WinActivate", "", "Window",
     "Activates the specified window.",
     [⟨"WinTitle", "Window to activate", none, true⟩],
     none, []⟩,
   ⟨"WinExist", "", "Window",
     "Checks if the specified window exists and returns its unique ID.",
     [⟨"WinTitle", "Window to look for", none, true⟩],
     some "Integer", []⟩,
   ⟨"WinClose", "", "Window",
     "Closes the specified window.",
     [⟨"WinTitle", "Window to close", none, true⟩],
     none, []⟩,
   ⟨"WinWait", "", "Window",
     "Waits until the specified window exists.",
     [⟨"WinTitle", "Window to wait for", none, true⟩,
      ⟨"Timeout", "Seconds to wait", none, true⟩],
     none, []⟩,
   ⟨"FileRead", "", "File",
     "Retrieves the contents of a file.",
     [⟨"Filename", "File to read", none, false⟩,
      ⟨"Options", "Encoding and line-ending options", none, true⟩],
     some "String", []⟩,
   ⟨"FileAppend", "", "File",
     "Writes text or binary data to the end of a file, creating it if needed.",
     [⟨"Text", "Data to write", none, false⟩,
      ⟨"Filename", "Target file", none, true⟩,
      ⟨"Options", "Encoding options", none, true⟩],
     none, []⟩,
   ⟨"FileDelete", "", "File",
     "Deletes one or more files.",
     [⟨"FilePattern", "File name or wildcard pattern", none, false⟩],
     none, []⟩,
   ⟨"FileExist", "", "File",
     "Checks for the existence of a file or folder and returns its attributes.",
     [⟨"FilePattern", "Path or wildcard pattern", none, false⟩],
     some "String", []⟩,
   ⟨"Run", "", "Process",
     "Runs an external program.",
     [⟨"Target", "Program, document or URL", none, false⟩,
      ⟨"WorkingDir", "Initial directory", none, true⟩,
      ⟨"Options", "Max, Min or Hide", none, true⟩],
     none, []⟩,
   ⟨"RunWait", "", "Process",
     "Runs an external program and waits until it finishes.",
     [⟨"Target", "Program, document or URL", none, false⟩,
      ⟨"WorkingDir", "Initial directory", none, true⟩],
     some "Integer", []⟩,
   ⟨"StrSplit", "", "String",
     "Separates a string into an array of substrings using the specified delimiters.",
     [⟨"String", "String to split", none, false⟩,
      ⟨"Delimiters", "Separator characters", none, true⟩],
     some "Array", []⟩,
   ⟨"StrReplace", "", "String",
     "Replaces the specified substring with a new string.",
     [⟨"Haystack", "Source string", none, false⟩,
      ⟨"Needle", "Text to search for", none, false⟩,
      ⟨"ReplaceText", "Replacement", none, true⟩],
     some "String", []⟩,
   ⟨"SubStr", "", "String",
     "Retrieves one or more characters from the specified position in a string.",
     [⟨"String", "Source string", none, false⟩,
      ⟨"StartingPos", "1-based start", none, false⟩,
      ⟨"Length", "Number of characters", none, true⟩],
     some "String", []⟩,
   ⟨"StrLen", "", "String",
     "Retrieves the count of how many characters are in a string.",
     [⟨"String", "String to measure", none, false⟩],
     some "Integer", []⟩,
   ⟨"Format", "", "String",
     "Formats a variable number of input values according to a format string.",
     [⟨"FormatStr", "Format string with \x7b\x7d placeholders", none, false⟩,
      ⟨"Values", "Values to format", none, true⟩],
     some "String", []⟩,
   ⟨"RegExMatch", "", "String",
     "Determines whether a string contains a pattern (regular expression).",
     [⟨"Haystack", "String to search", none, false⟩,
      ⟨"NeedleRegEx", "Pattern", none, false⟩,
      ⟨"OutputVar", "Match object", none, true⟩],
     some "Integer", []⟩,
   ⟨"ExitApp", "", "Process",
     "Terminates the script.",
     [⟨"ExitCode", "Exit status", none, true⟩],
     none, []⟩]

/-- Common classes. -/
def bundledClasses : List ClassDoc :=
  [⟨"Array", "Object Types",
    "An ordered list of values.",
    [⟨"Push", "Array", "Method",
       "Appends values to the end of the array.",
       [⟨"Values", "Values to append", none, false⟩],
       none, []⟩,
     ⟨"Pop", "Array", "Method",
       "Removes and returns the last element.",
       [],
       none, []⟩,
     ⟨"InsertAt", "Array", "Method",
       "Inserts values at a given position.",
       [⟨"Index", "Position", none, false⟩,
        ⟨"Values", "Values to insert", none, false⟩],
       none, []⟩,
     ⟨"RemoveAt", "Array", "Method",
       "Removes items at a given position.",
       [⟨"Index", "Position", none, false⟩,
        ⟨"Length", "Count", none, true⟩],
       none, []⟩,
     ⟨"Has", "Array", "Method",
       "Returns true if the index is valid and has a value.",
       [⟨"Index", "Position", none, false⟩],
       none, []⟩],
    [⟨"Length", "Number of elements", some "Integer"⟩,
     ⟨"Capacity", "Allocated slots", some "Integer"⟩]⟩,
   ⟨"Map", "Object Types",
    "Associates a set of keys with values.",
    [⟨"Set", "Map", "Method",
       "Sets zero or more items.",
       [⟨"Key", "Key", none, false⟩,
        ⟨"Value", "Value", none, false⟩],
       none, []⟩,
     ⟨"Get", "Map", "Method",
       "Returns the value associated with a key, or a default value.",
       [⟨"Key", "Key", none, false⟩,
        ⟨"Default", "Fallback", none, true⟩],
       none, []⟩,
     ⟨"Has", "Map", "Method",
       "Returns true if the key has an associated value.",
       [⟨"Key", "Key", none, false⟩],
       none, []⟩,
     ⟨"Delete", "Map", "Method",
       "Removes a key-value pair.",
       [⟨"Key", "Key", none, false⟩],
       none, []⟩,
     ⟨"Clear", "Map", "Method",
       "Removes all key-value pairs.",
       [],
       none, []⟩],
    [⟨"Count", "Number of key-value pairs", some "Integer"⟩,
     ⟨"CaseSense", "Key comparison mode", some "String"⟩]⟩,
   ⟨"Gui", "GUI",
    "Creates and manages a window and its controls.",
    [⟨"Add", "Gui", "Method",
       "Adds a control to the window.",
       [⟨"ControlType", "Control type", none, false⟩,
        ⟨"Options", "Control options", none, true⟩,
        ⟨"Text", "Initial text", none, true⟩],
       none, []⟩,
     ⟨"Show", "Gui", "Method",
       "Displays the window.",
       [⟨"Options", "Size and position", none, true⟩],
       none, []⟩,
     ⟨"Destroy", "Gui", "Method",
       "Deletes the window.",
       [],
       none, []⟩,
     ⟨"OnEvent", "Gui", "Method",
       "Registers a function to be called when an event is raised.",
       [⟨"EventName", "Event", none, false⟩,
        ⟨"Callback", "Function to call", none, false⟩],
       none, []⟩],
    [⟨"Title", "Window title", some "String"⟩,
     ⟨"Hwnd", "Window handle", some "Integer"⟩]⟩,
   ⟨"Object", "Object Types",
    "Base class of all objects.",
    [⟨"HasOwnProp", "Object", "Method",
       "Returns true if the object owns a property by this name.",
       [⟨"Name", "Property name", none, false⟩],
       none, []⟩,
     ⟨"Clone", "Object", "Method",
       "Returns a shallow copy of the object.",
       [],
       none, []⟩],
    []⟩,
   ⟨"Error", "Object Types",
    "Error object thrown by the engine or a script.",
    [],
    [⟨"Message", "Error message", some "String"⟩,
     ⟨"What", "What threw the error", some "String"⟩,
     ⟨"Line", "Line number", some "Integer"⟩]⟩]

/-- Common variables. -/
def bundledVariables : List VariableDoc :=
  [⟨"A_ScriptDir", "Script",
    "Full path of the directory where the current script is located.", "String"⟩,
   ⟨"A_ScriptName", "Script",
    "File name of the current script, without its path.", "String"⟩,
   ⟨"A_ScriptFullPath", "Script",
    "Full path of the current script.", "String"⟩,
   ⟨"A_WorkingDir", "Script",
    "The script's current working directory.", "String"⟩,
   ⟨"A_Index", "Loop",
    "Number of the current loop iteration.", "Integer"⟩,
   ⟨"A_LoopField", "Loop",
    "Contents of the current substring in a parsing loop.", "String"⟩,
   ⟨"A_Now", "Date and Time",
    "Current local time in YYYYMMDDHH24MISS format.", "String"⟩,
   ⟨"A_TickCount", "Date and Time",
    "Milliseconds since the computer was rebooted.", "Integer"⟩,
   ⟨"A_ComputerName", "OS",
    "Network name of the computer.", "String"⟩,
   ⟨"A_UserName", "OS",
    "Logon name of the user who launched the script.", "String"⟩,
   ⟨"A_ScreenWidth", "Screen",
    "Width of the primary monitor in pixels.", "Integer"⟩,
   ⟨"A_ScreenHeight", "Screen",
    "Height of the primary monitor in pixels.", "Integer"⟩,
   ⟨"A_Clipboard", "Clipboard",
    "Contents of the OS clipboard.", "String"⟩,
   ⟨"A_ThisHotkey", "Hotkeys",
    "Most recently executed hotkey or hotstring.", "String"⟩]

/-- Common directives. -/
def bundledDirectives : List DirectiveDoc :=
  [⟨"#Requires", "Directive", "Displays an error and quits if a version requirement is not met."⟩,
   ⟨"#SingleInstance", "Directive",
    "Determines whether a script is allowed to run again when it is already running."⟩,
   ⟨"#Include", "Directive",
    "Causes the script to behave as though the specified file's contents are present at this position."⟩,
   ⟨"#HotIf", "Directive", "Creates context-sensitive hotkeys and hotstrings."⟩,
   ⟨"#Warn", "Directive", "Enables or disables warnings for specific conditions."⟩,
   ⟨"#NoTrayIcon", "Directive", "Disables the showing of a tray icon."⟩,
   ⟨"#Hotstring", "Directive", "Changes hotstring options or ending characters."⟩,
   ⟨"#MaxThreads", "Directive", "Sets the maximum number of simultaneous threads."⟩]

/-- The index of all of them. -/
def bundled : DocIndex := ⟨bundledFunctions, bundledClasses, bundledVariables, bundledDirectives⟩

end ScriptLens.DocIndex
