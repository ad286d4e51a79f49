import ScriptLens.Position
import ScriptLens.Text.Basic

/-!
Line starts of one text, for repeated look-ups of places by offset or by line and column.
-/

namespace ScriptLens

/-- A text with the byte offsets at which its lines start. -/
structure LineIndex where
  text : List Char
  starts : List Nat

namespace LineIndex

/-- The byte offsets just after each line feed, for a text that begins at `offset`. -/
def startsAfter (offset : Nat) : List Char → List Nat
  | [] => []
  | c :: text =>
    let next := offset + c.utf8Size
    if c = '\n' then next :: startsAfter next text else startsAfter next text

def ofText (text : List Char) : LineIndex := ⟨text, 0 :: startsAfter 0 text⟩

def ofSource (source : String) : LineIndex := ofText source.toList

def size (index : LineIndex) : Nat := Text.byteLength index.text

def lineCount (index : LineIndex) : Nat := index.starts.length

/-- Where a line starts; a line past the last one starts at the end of the text. -/
def lineStart (index : LineIndex) (line : Nat) : Nat :=
  index.starts.getD (max line 1 - 1) index.size

/-- The text from a byte offset on. -/
def tail (index : LineIndex) (offset : Nat) : List Char :=
  (Text.dropBytes? offset index.text).getD []

/-- The place of a byte offset, cut to the end of the text. -/
def position (index : LineIndex) (offset : Nat) : Position :=
  let offset := min offset index.size
  let line := (index.starts.takeWhile (· ≤ offset)).length
  let start := index.starts.getD (line - 1) 0
  let column := ((Text.slice? index.text start offset).getD []).length + 1
  ⟨line, column, offset⟩

/-- The place of a column on a line; a column past the end of the line stands at its end. -/
def positionAt (index : LineIndex) (line column : Nat) : Position :=
  let start := index.lineStart line
  let text := (index.tail start).takeWhile (· != '\n')
  ⟨max line 1, max column 1, start + Text.byteLength (text.take (max column 1 - 1))⟩

end LineIndex

end ScriptLens
