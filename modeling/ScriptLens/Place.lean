import ScriptLens.LineIndex
import ScriptLens.Word

/-!
Places with lines and columns in words of 32 bits, as the program holds them, and the ways to find
them. A count that does not fit its word stops the program. Everywhere else places have numbers of
any size, which are the same for texts short of 2^32 - 1 bytes.
-/

namespace ScriptLens

/-- A place with its line and its column in words of 32 bits. -/
structure Place where
  line : UInt32
  column : UInt32
  offset : Nat
deriving DecidableEq, Repr

namespace Place

/-- A count of lines or columns raised by one. -/
def count? (n : UInt32) : Option UInt32 := (word? UInt32.size (n.toNat + 1)).map Nat.toUInt32

/-- The place before the first character. -/
def start : Place := ⟨1, 1, 0⟩

/-- The place after reading `c`: a line feed opens the next line. -/
def next? (p : Place) (c : Char) : Option Place :=
  if c = '\n' then (count? p.line).map fun line => ⟨line, 1, p.offset + c.utf8Size⟩
  else (count? p.column).map fun column => ⟨p.line, column, p.offset + c.utf8Size⟩

/-- Reads characters from a place while their offset lies below `offset`. -/
def walk? (offset : Nat) (p : Place) : List Char → Option Place
  | [] => some p
  | c :: text => if p.offset < offset then do walk? offset (← next? p c) text else some p

/-- The place of a byte offset, by reading the script from its start. An offset past the end is cut
to the end. -/
def ofOffset? (source : String) (offset : Nat) : Option Place :=
  (walk? offset start source.toList).map fun p => ⟨p.line, p.column, min offset source.utf8ByteSize⟩

end Place

namespace LineIndex

/-- The place of a byte offset, cut to the end of the text; none inside a character, and where a
count leaves its word. Lengths are cut to their words before they are raised. -/
def place? (index : LineIndex) (offset : Nat) : Option Place := do
  let offset := min offset index.size
  let above := (index.starts.takeWhile (· ≤ offset)).length - 1
  let before ← Text.slice? index.text (index.starts.getD above 0) offset
  let column ← Place.count? before.length.toUInt32
  let line ← Place.count? above.toUInt32
  return ⟨line, column, offset⟩

/-- The place of a column on a line; a column past the end of the line stands at its end. -/
def placeAt (index : LineIndex) (line column : UInt32) : Place :=
  ⟨max line 1, max column 1, (index.positionAt line.toNat column.toNat).offset⟩

end LineIndex

end ScriptLens
