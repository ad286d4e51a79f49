import ScriptLens.Documentation.Basic
import ScriptLens.Sorting
import ScriptLens.Text.Pattern

/-!
Completion at a cursor: what the line so far asks for, and the candidates for it in order.
-/

namespace ScriptLens

/-- What the text before the cursor asks for. -/
inductive CompletionContext where
  | directive
  | hotkey
  /-- A member of what stands before the dot. -/
  | member (receiver : String)
  | functionCall
  /-- A word outside parentheses. -/
  | bareWord
  | anything
deriving DecidableEq, Repr

/-- The kinds of candidates that editors tell apart. -/
inductive CompletionKind where
  | method | function | var | classType | property | keyword
deriving DecidableEq, Repr

/-- The number of a kind in the editor protocol. -/
def CompletionKind.number : CompletionKind → Nat
  | method => 2
  | function => 3
  | var => 6
  | classType => 7
  | property => 10
  | keyword => 14

/-- A candidate. -/
structure CompletionItem where
  label : String
  kind : CompletionKind
  detail : String
  /-- Empty where there is nothing to say. -/
  documentation : String
  sortText : String
  insertText : String
  /-- Whether the text to insert has places to fill in. -/
  isSnippet : Bool
deriving DecidableEq, Repr

namespace Completion

open Text (Pattern)

/-- Words of the language that are offered. -/
def keywords : List String :=
  ["if", "else", "while", "for", "loop", "break", "continue", "return", "try", "catch", "throw",
   "class", "extends", "static", "global", "local"]

/-- Keys that are offered on a line with a hotkey. -/
def hotkeyKeys : List (String × String) :=
  [("F1", "Function key F1"), ("F2", "Function key F2"), ("F3", "Function key F3"),
   ("F4", "Function key F4"), ("F5", "Function key F5"), ("F6", "Function key F6"),
   ("F7", "Function key F7"), ("F8", "Function key F8"), ("F9", "Function key F9"),
   ("F10", "Function key F10"), ("F11", "Function key F11"), ("F12", "Function key F12"),
   ("Ctrl", "Control modifier (^)"), ("Alt", "Alt modifier (!)"), ("Shift", "Shift modifier (+)"),
   ("Win", "Windows modifier (#)")]

/-- A word, a dot and a started word at the end. -/
def memberAccess : Pattern :=
  [.some Text.isWord, .one (· = '.'), .many Text.isWord, .finish]

/-- A word, a parenthesis and a started word at the end. -/
def callArgument : Pattern :=
  [.some Text.isWord, .many Text.isSpace, .one (· = '('), .many Text.isSpace,
    .many Text.isWord, .finish]

/-- A word at the end. -/
def bareWord : Pattern := [.boundary, .some Text.isWord, .finish]

/-- The word before the dot that the text ends with a member of. -/
def receiver? (before : List Char) : Option String := do
  let (_, m) ← memberAccess.search? before
  return String.ofList (← m.pieces.head?)

/-- What the cursor asks for, by the whole line and the part before the cursor. -/
def context (line before : List Char) : CompletionContext :=
  if (Text.trimStart before).head? = some '#' then .directive
  else if Text.occursIn "::" line && (Text.trimStart line).head? != some ';' then .hotkey
  else match receiver? before with
    | some receiver => .member receiver
    | none =>
      if callArgument.occurs before then .functionCall
      else if bareWord.occurs before && !before.contains '(' then .bareWord
      else .anything

/-- Characters that end a line in the text the cursor is counted in. -/
def isLineEnd (c : Char) : Bool :=
  ('\n' ≤ c && c ≤ '\r') || c.toNat = 0x85 || c.toNat = 0x2028 || c.toNat = 0x2029

/-- The lines of a text with their ends; a carriage return and a line feed make one end. -/
def cursorLines : List Char → List (List Char)
  | [] => [[]]
  | '\r' :: '\n' :: text => ['\r', '\n'] :: cursorLines text
  | c :: text =>
    if isLineEnd c then [c] :: cursorLines text
    else match cursorLines text with
      | [] => [[c]]
      | line :: rest => (c :: line) :: rest

/-- The line of a number counted from zero, without carriage returns and line feeds; empty past the
end. -/
def lineAt (source : List Char) (number : Nat) : List Char :=
  ((cursorLines source).getD number []).filter fun c => c != '\n' && c != '\r'

/-- The word characters that a text ends with. -/
def trailingWord (text : List Char) : List Char := (text.reverse.takeWhile Text.isWord).reverse

/-- A candidate that is inserted as it is shown, in a group that sorts by its mark. -/
def item (label : String) (kind : CompletionKind) (detail documentation mark : String) :
    CompletionItem :=
  ⟨label, kind, detail, documentation, mark ++ "_" ++ label, label, false⟩

def functionItem (f : FunctionDoc) : CompletionItem :=
  { item f.name .function f.category f.description "0" with
    insertText := f.snippet, isSnippet := true }

def variableItem (v : VariableDoc) : CompletionItem :=
  item v.name .var (v.type ++ " - " ++ v.category) v.description "1"

def classItem (c : ClassDoc) : CompletionItem :=
  { item c.name .classType c.category c.description "2" with insertText := c.name ++ "()" }

def keywordItem (word : String) : CompletionItem :=
  item word .keyword "Keyword" ("AutoHotkey v2 keyword: " ++ word) "3"

def directiveItem (d : DirectiveDoc) : CompletionItem :=
  item d.name .keyword d.category d.description "0"

def hotkeyItem (key : String × String) : CompletionItem := item key.1 .keyword "Hotkey" key.2 "0"

/-- The description of a method with its parameters and what it returns. -/
def methodDocumentation (m : FunctionDoc) : String :=
  let parameters :=
    if m.parameters.isEmpty then ""
    else "\n\nParameters:\n" ++ String.join (m.parameters.map fun p =>
      "- " ++ p.name ++ ": " ++
        (if p.description.isEmpty then "No description" else p.description) ++ "\n")
  let returns := match m.returnType with
    | some type => "\nReturns: " ++ type
    | none => ""
  m.description ++ parameters ++ returns

def methodItem (m : FunctionDoc) : CompletionItem :=
  { item m.name .method ("Method - " ++ m.description) (methodDocumentation m) "0" with
    insertText := m.snippet, isSnippet := true }

def propertyItem (p : PropertyDoc) : CompletionItem :=
  item p.name .property ("Property - " ++ p.type.getD "Unknown") p.description "1"

/-- The members of a class, methods first. -/
def memberItems (c : ClassDoc) : List CompletionItem :=
  c.methods.map methodItem ++ c.properties.map propertyItem

/-- The candidates for what the cursor asks for, searched by the started word. -/
def candidates (docs : DocIndex) (word : String) : CompletionContext → List CompletionItem
  | .directive => (docs.searchDirectives word).map directiveItem
  | .hotkey => hotkeyKeys.map hotkeyItem
  | .member receiver => ((docs.findClass? receiver).map memberItems).getD []
  | .functionCall => (docs.searchFunctions word).map functionItem
  | .bareWord => (docs.searchVariables word).map variableItem
  | .anything =>
    (docs.searchFunctions word).map functionItem ++ (docs.searchVariables word).map variableItem ++
      (docs.searchClasses word).map classItem ++ keywords.map keywordItem

/-- Whether a candidate starts with a word, whatever the case and without the marks of a
directive. -/
def startsWith (word : List Char) (i : CompletionItem) : Bool :=
  (Text.lower word).isPrefixOf (Text.lower (i.label.toList.dropWhile (· = '#')))

/-- The order of candidates: by sort text, then by label. -/
def precedes (a b : CompletionItem) : Bool :=
  decide (a.sortText < b.sortText) || (a.sortText == b.sortText && decide (a.label ≤ b.label))

/-- The candidates that start with a word, in order. -/
def rank (word : List Char) (items : List CompletionItem) : List CompletionItem :=
  Sorting.sort precedes (items.filter (startsWith word))

end Completion

/-- The candidates at a cursor, whose line and character are counted from zero. -/
def complete (docs : DocIndex) (source : String) (line character : Nat) : List CompletionItem :=
  let text := Completion.lineAt source.toList line
  let before := text.take character
  let word := Completion.trailingWord before
  Completion.rank word
    (Completion.candidates docs (String.ofList word) (Completion.context text before))

end ScriptLens
