/-!
Places in a script. A position counts lines and columns from one, columns in characters, and carries
the byte offset in the UTF-8 text; a span is a pair of positions.
-/

namespace ScriptLens

/-- A place in a script: line and column from one, offset in bytes from zero. -/
structure Position where
  line : Nat
  column : Nat
  offset : Nat
deriving DecidableEq, Repr, Inhabited

namespace Position

/-- The place before the first character. -/
def start : Position := ⟨1, 1, 0⟩

/-- The place after reading `c`: a line feed opens the next line. -/
def next (p : Position) (c : Char) : Position :=
  if c = '\n' then ⟨p.line + 1, 1, p.offset + c.utf8Size⟩
  else ⟨p.line, p.column + 1, p.offset + c.utf8Size⟩

/-- The place after reading `text`. -/
def after (p : Position) (text : List Char) : Position := text.foldl next p

@[simp] theorem after_nil (p : Position) : p.after [] = p := rfl

@[simp] theorem after_cons (p : Position) (c : Char) (text : List Char) :
    p.after (c :: text) = (p.next c).after text := rfl

theorem after_append (p : Position) (text more : List Char) :
    p.after (text ++ more) = (p.after text).after more := List.foldl_append

/-- Reads characters of `text` from `p` while their offset lies below `offset`. -/
def walk (offset : Nat) (p : Position) : List Char → Position
  | [] => p
  | c :: text => if p.offset < offset then walk offset (p.next c) text else p

/-- The place of a byte offset, by reading the script from its start. An offset past the end is cut
to the end. -/
def ofOffset (source : String) (offset : Nat) : Position :=
  let p := walk offset start source.toList
  ⟨p.line, p.column, min offset source.utf8ByteSize⟩

/-- The form `line:column`. -/
def render (p : Position) : String := toString p.line ++ ":" ++ toString p.column

end Position

/-- A stretch of a script between two places. -/
structure Span where
  start : Position
  stop : Position
deriving DecidableEq, Repr, Inhabited

namespace Span

/-- The empty span at a place. -/
def point (p : Position) : Span := ⟨p, p⟩

/-- The smallest span over both; on equal offsets the first span's place is kept. -/
def cover (a b : Span) : Span :=
  ⟨if b.start.offset < a.start.offset then b.start else a.start,
   if b.stop.offset > a.stop.offset then b.stop else a.stop⟩

/-- The form `line:column-column` on one line, `line:column-line:column` otherwise. -/
def render (s : Span) : String :=
  if s.start.line = s.stop.line then s.start.render ++ "-" ++ toString s.stop.column
  else s.start.render ++ "-" ++ s.stop.render

/-- A message with the span it concerns, if there is one. -/
def annotate (message : String) : Option Span → String
  | none => message
  | some s => message ++ " at " ++ s.render

end Span

end ScriptLens
