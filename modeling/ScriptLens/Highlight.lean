import ScriptLens.Token.Declaration
import ScriptLens.Token.Scan

/-!
Highlighting: what each token of a script is to a reader, and the relative encoding that editors
take.
-/

namespace ScriptLens

/-- What a token is to a reader. -/
inductive HighlightType where
  | keyword | number | string | comment | operator | delimiter | directive | label | var
  | function | method | property | parameter | classType
deriving DecidableEq, Repr, Inhabited

namespace HighlightType

/-- All types in the order of the legend. -/
def all : List HighlightType :=
  [keyword, number, string, comment, operator, delimiter, directive, label, var, function, method,
   property, parameter, classType]

def name : HighlightType → String
  | keyword => "keyword"
  | number => "number"
  | string => "string"
  | comment => "comment"
  | operator => "operator"
  | delimiter => "delimiter"
  | directive => "macro"
  | label => "label"
  | var => "variable"
  | function => "function"
  | method => "method"
  | property => "property"
  | parameter => "parameter"
  | classType => "class"

/-- The place of a type in the legend. -/
def index (t : HighlightType) : Nat := all.idxOf t

end HighlightType

/-- What else there is to say about a token. -/
inductive HighlightModifier where
  | declaration | readonly | defaultLibrary | documentation
deriving DecidableEq, Repr, Inhabited

namespace HighlightModifier

/-- All modifiers in the order of the legend. -/
def all : List HighlightModifier := [declaration, readonly, defaultLibrary, documentation]

def name : HighlightModifier → String
  | declaration => "declaration"
  | readonly => "readonly"
  | defaultLibrary => "defaultLibrary"
  | documentation => "documentation"

/-- The bit of a modifier, by its place in the legend. -/
def bit (m : HighlightModifier) : Nat := Nat.pow 2 (all.idxOf m)

end HighlightModifier

/-- A stretch of one line to show in one way. Line and character are counted from zero. -/
structure Highlight where
  line : Nat
  character : Nat
  length : Nat
  type : HighlightType
  modifiers : List HighlightModifier
deriving DecidableEq, Repr

namespace Highlight

def modifierBits (h : Highlight) : Nat := h.modifiers.foldl (fun bits m => bits ||| m.bit) 0

/-- Functions that come with the engine. -/
def libraryFunctions : List String :=
  ["MsgBox", "InputBox", "ToolTip", "TrayTip", "Send", "SendInput", "SendText", "Sleep", "Run",
   "RunWait", "WinActivate", "WinExist", "WinWait", "WinClose", "WinGetTitle", "FileRead",
   "FileAppend", "FileDelete", "FileExist", "DirCreate", "StrLen", "SubStr", "InStr", "StrReplace",
   "StrSplit", "StrUpper", "StrLower", "Trim", "RegExMatch", "RegExReplace", "Format", "Round",
   "Abs", "Max", "Min", "SetTimer", "Hotkey", "IsSet", "IsObject", "Type", "Gui", "Map", "Array",
   "Object", "Error", "ExitApp", "Reload"]

/-- Whether a comment documents code. -/
def isDocComment (text : List Char) : Bool :=
  ";/**".toList.isPrefixOf text || ";///".toList.isPrefixOf text ||
    ["@param", "@return", "@description"].any fun tag => Text.occursIn tag text

/-- Whether a declaration starts at the head of the tokens. Behind a dot there is none. -/
def isDeclarationName (previous : Option Token) (tokens : List Token) : Bool :=
  !previous.any (·.kind = .dot) &&
    Token.headsDeclaration (fun k => k = .newline || k = .comment) tokens

/-- Whether the innermost parenthesis still open belongs to a declaration. `before` stands latest
first, and `depth` counts the closed ones passed over. -/
def inParameters (depth : Nat) : List Token → List Token → Bool
  | [], _ => false
  | t :: before, after =>
    match t.kind with
    | .rParen => inParameters (depth + 1) before (t :: after)
    | .lParen =>
      if depth > 0 then inParameters (depth - 1) before (t :: after)
      else match before with
        | name :: outer =>
            name.kind = .identifier && isDeclarationName outer.head? (name :: t :: after)
        | [] => false
    | .lBrace | .rBrace | .newline => false
    | _ => inParameters depth before (t :: after)

/-- What an identifier is, by the tokens before it, latest first, and after it. -/
def classifyIdentifier (before : List Token) (t : Token) (after : List Token) :
    HighlightType × List HighlightModifier :=
  let previous := before.head?
  let called := after.head?.any (·.kind = .lParen)
  if previous.any (·.kind = .dot) then (if called then .method else .property, [])
  else if called then
    (.function,
      (if isDeclarationName previous (t :: after) then [.declaration] else []) ++
      (if Text.listed libraryFunctions t.text then [.defaultLibrary] else []))
  else if previous.any (·.kind = .kwClass) then (.classType, [.declaration])
  else if previous.any fun p => p.kind = .identifier && Text.sameName p.text "extends" then
    (.classType, [])
  else if inParameters 0 before (t :: after) then (.parameter, [])
  else (.var, [])

/-- What a token is; line breaks and the end are not shown. -/
def classify? (before : List Token) (t : Token) (after : List Token) :
    Option (HighlightType × List HighlightModifier) :=
  match t.kind with
  | .newline | .eof => none
  | .kwTrue | .kwFalse | .kwNull => some (.keyword, [.readonly])
  | .number => some (.number, [])
  | .string => some (.string, [])
  | .comment => some (.comment, if isDocComment t.text.toList then [.documentation] else [])
  | .directive => some (.directive, [])
  | .hotkey => some (.label, [])
  | .builtinVar => some (.var, [.readonly, .defaultLibrary])
  | .identifier => some (classifyIdentifier before t after)
  | .dot => some (.operator, [])
  | kind =>
    if kind.isKeyword then some (.keyword, [])
    else if kind.isOperator then some (.operator, [])
    else some (.delimiter, [])

/-- The pieces of a token, line by line; empty ones are left out. -/
def pieces (source : List Char) (t : Token) (type : HighlightType)
    (modifiers : List HighlightModifier) : List Highlight :=
  let text := (Text.slice? source t.start.offset t.stop.offset).getD t.text.toList
  (Text.lines text).zipIdx.filterMap fun (piece, i) =>
    if piece.isEmpty then none
    else some ⟨t.start.line - 1 + i, if i = 0 then t.start.column - 1 else 0, piece.length, type,
      modifiers⟩

/-- What to show of a token: one stretch, or one for each line it covers. -/
def ofToken (source : List Char) (before : List Token) (t : Token) (after : List Token) :
    List Highlight :=
  match classify? before t after with
  | none => []
  | some (type, modifiers) =>
    if t.start.line < t.stop.line then pieces source t type modifiers
    else [⟨t.start.line - 1, t.start.column - 1, t.charLength source, type, modifiers⟩]

/-- What to show of all tokens behind `before`, which stands latest first. -/
def ofTokens (source : List Char) (before : List Token) : List Token → List Highlight
  | [] => []
  | t :: after => ofToken source before t after ++ ofTokens source (t :: before) after

/-- What to show of a script, up to a string that never closes. -/
def ofSource (source : String) : List Highlight :=
  ofTokens source.toList [] (scan source).tokens

/-- A stretch relative to the one before it. -/
structure Delta where
  line : Nat
  /-- From the start of the one before on the same line, else from the start of the line. -/
  start : Nat
  length : Nat
  type : Nat
  bits : Nat
deriving DecidableEq, Repr

/-- Encodes stretches behind one at a line and a character. -/
def encodeFrom (line character : Nat) : List Highlight → List Delta
  | [] => []
  | h :: rest =>
    ⟨h.line - line, if h.line = line then h.character - character else h.character, h.length,
      h.type.index, h.modifierBits⟩ :: encodeFrom h.line h.character rest

/-- The relative encoding of a list of stretches. -/
def encode (highlights : List Highlight) : List Delta := encodeFrom 0 0 highlights

def Delta.toList (d : Delta) : List Nat := [d.line, d.start, d.length, d.type, d.bits]

end Highlight

end ScriptLens
