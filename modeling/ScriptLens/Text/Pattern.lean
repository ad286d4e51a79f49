import ScriptLens.Text.Space
import ScriptLens.Text.Word

/-!
Small text patterns: classes of characters in a row, each taken once, at most once, or as often as
possible, with word boundaries and the end of the text. Matching takes as much as it can and gives
back when the rest does not fit.
-/

namespace ScriptLens.Text

/-- One element of a pattern. -/
inductive Item where
  /-- Exactly one character of a class. -/
  | one (cls : Char → Bool)
  /-- At most one. -/
  | maybe (cls : Char → Bool)
  /-- Any number. -/
  | many (cls : Char → Bool)
  /-- At least one. -/
  | some (cls : Char → Bool)
  /-- Between a word character and another or none. -/
  | boundary
  /-- At the end of the text. -/
  | finish

abbrev Pattern := List Item

namespace Pattern

/-- What a match took for each item of the pattern, and the text after it. -/
structure Match where
  pieces : List (List Char)
  rest : List Char
deriving DecidableEq, Repr

/-- A match goes on from the character before and the text ahead. -/
abbrev Matcher := Option Char → List Char → Option Match

/-- Puts one more character before the first piece. -/
def Match.push (c : Char) (m : Match) : Match :=
  match m.pieces with
  | [] => ⟨[[c]], m.rest⟩
  | piece :: pieces => ⟨(c :: piece) :: pieces, m.rest⟩

/-- Puts an empty piece first. -/
def Match.skip (m : Match) : Match := ⟨[] :: m.pieces, m.rest⟩

/-- Puts a piece of one character first. -/
def Match.lead (c : Char) (m : Match) : Match := ⟨[c] :: m.pieces, m.rest⟩

/-- As many characters of a class as let the rest fit. -/
def greedy (cls : Char → Bool) (rest : Matcher) (before : Option Char) : List Char → Option Match
  | [] => (rest before []).map Match.skip
  | c :: text =>
    if cls c then
      match greedy cls rest (.some c) text with
      | .some m => .some (m.push c)
      | none => (rest before (c :: text)).map Match.skip
    else (rest before (c :: text)).map Match.skip

def isWordAt (c : Option Char) : Bool := c.any isWord

/-- One item followed by the rest of a pattern. -/
def matchItem (rest : Matcher) (before : Option Char) (text : List Char) : Item → Option Match
  | .one cls =>
    match text with
    | c :: text => if cls c then (rest (.some c) text).map (Match.lead c) else none
    | [] => none
  | .maybe cls =>
    let without := (rest before text).map Match.skip
    match text with
    | c :: text =>
      if cls c then ((rest (.some c) text).map (Match.lead c)).or without else without
    | [] => without
  | .many cls => greedy cls rest before text
  | .some cls =>
    match text with
    | c :: text => if cls c then (greedy cls rest (.some c) text).map (Match.push c) else none
    | [] => none
  | .boundary =>
    if isWordAt before != isWordAt text.head? then (rest before text).map Match.skip else none
  | .finish => if text.isEmpty then (rest before text).map Match.skip else none

/-- Matches a pattern at the head of a text. -/
def matchHere : Pattern → Matcher
  | [] => fun _ text => .some ⟨[], text⟩
  | item :: items => fun before text => matchItem (matchHere items) before text item

/-- The leftmost match: the text before it, and the match. -/
def searchFrom (p : Pattern) (before : Option Char) : List Char → Option (List Char × Match)
  | [] => (matchHere p before []).map fun m => ([], m)
  | c :: text =>
    match matchHere p before (c :: text) with
    | .some m => .some ([], m)
    | none => (searchFrom p (.some c) text).map fun (skipped, m) => (c :: skipped, m)

/-- The leftmost match in a text. -/
def search? (p : Pattern) (text : List Char) : Option (List Char × Match) := searchFrom p none text

/-- Whether a pattern matches somewhere. -/
def occurs (p : Pattern) (text : List Char) : Bool := (p.search? text).isSome

/-- The match at the start of a text. -/
def match? (p : Pattern) (text : List Char) : Option Match := matchHere p none text

/-- The characters of a string one by one. -/
def exactly (text : String) : Pattern := text.toList.map fun c => .one (· = c)

/-- Whether two characters agree up to case, for an ASCII letter `a`. The long s and the Kelvin sign
are forms of their letters. -/
def sameLetter (a c : Char) : Bool :=
  a.toLower = c.toLower || (a.toLower = 's' && c.toNat = 0x17F) ||
    (a.toLower = 'k' && c.toNat = 0x212A)

/-- The characters of an ASCII string in any case. -/
def anyCase (text : String) : Pattern := text.toList.map fun c => .one (sameLetter c)

end Pattern

end ScriptLens.Text
