/-!
Plain text operations on characters and byte offsets: cutting by bytes, splitting into lines,
finding a part, and the ASCII case fold.
-/

namespace ScriptLens.Text

/-- Number of UTF-8 bytes of a text. -/
def byteLength : List Char → Nat
  | [] => 0
  | c :: text => c.utf8Size + byteLength text

@[simp] theorem byteLength_append (a b : List Char) :
    byteLength (a ++ b) = byteLength a + byteLength b := by
  induction a with
  | nil => simp [byteLength]
  | cons c a ih => simp [byteLength, ih, Nat.add_assoc]

/-- The first `n` bytes, unless that cuts a character or there are fewer. -/
def takeBytes? (n : Nat) : List Char → Option (List Char)
  | [] => if n = 0 then some [] else none
  | c :: text =>
    if n = 0 then some []
    else if c.utf8Size ≤ n then (takeBytes? (n - c.utf8Size) text).map (c :: ·)
    else none

/-- What follows the first `n` bytes, unless that cuts a character or there are fewer. -/
def dropBytes? (n : Nat) : List Char → Option (List Char)
  | [] => if n = 0 then some [] else none
  | c :: text =>
    if n = 0 then some (c :: text)
    else if c.utf8Size ≤ n then dropBytes? (n - c.utf8Size) text
    else none

/-- The text between two byte offsets, if both are character boundaries in order. -/
def slice? (text : List Char) (first last : Nat) : Option (List Char) :=
  if first ≤ last then (dropBytes? first text).bind (takeBytes? (last - first)) else none

/-- The pieces of a text between line feeds; there is always one more piece than line feeds. -/
def splitLines : List Char → List (List Char)
  | [] => [[]]
  | c :: text =>
    if c = '\n' then [] :: splitLines text
    else match splitLines text with
      | [] => [[c]]
      | line :: rest => (c :: line) :: rest

/-- A line without the one carriage return that may end it. -/
def stripReturn (line : List Char) : List Char :=
  if line.getLast? = some '\r' then line.dropLast else line

/-- The lines of a script, each without its terminator. -/
def lines (text : List Char) : List (List Char) := (splitLines text).map stripReturn

/-- The characters of `text` before the first occurrence of `part`. -/
def before? (part : List Char) : List Char → Option (List Char)
  | [] => if part = [] then some [] else none
  | c :: text =>
    if part.isPrefixOf (c :: text) then some [] else (before? part text).map (c :: ·)

/-- Whether `part` occurs in `text`. -/
def contains (part text : List Char) : Bool := (before? part text).isSome

/-- The text before a given ending. -/
def stripEnding? (ending text : List Char) : Option (List Char) :=
  if ending.isSuffixOf text then some (text.take (text.length - ending.length)) else none

/-- ASCII letters in lower case, all else kept. -/
def foldAscii (text : String) : String := String.ofList (text.toList.map Char.toLower)

/-- Equality up to the case of ASCII letters. -/
def sameName (a b : String) : Bool := foldAscii a == foldAscii b

/-- Membership in a name table, up to the case of ASCII letters. -/
def listed (table : List String) (name : String) : Bool := table.any (sameName name)

/-- A text given as a string. -/
def occursIn (part : String) (text : List Char) : Bool := contains part.toList text

end ScriptLens.Text
