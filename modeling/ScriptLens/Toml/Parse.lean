import ScriptLens.Json.Parse
import ScriptLens.Toml.Basic
import ScriptLens.Toml.DateTime

/-!
Reading TOML text: tables, lists of tables, keys with and without dots, strings of all four kinds,
numbers, truth values, dates and times, lists and inline tables.
-/

namespace ScriptLens.Toml

def isBlank (c : Char) : Bool := c = ' ' || c = '\t'

def isControl (c : Char) : Bool := (c.toNat < 32 && c != '\t') || c.toNat = 127

def skipBlanks (text : List Char) : List Char := text.dropWhile isBlank

/-- What follows a line break. -/
def newline? : List Char → Option (List Char)
  | '\n' :: rest => some rest
  | '\r' :: '\n' :: rest => some rest
  | _ => none

/-- What follows a comment, up to its line break. -/
def skipComment? : List Char → Option (List Char)
  | '#' :: rest =>
    let line := rest.takeWhile (· != '\n')
    let words := if line.getLast? = some '\r' then line.dropLast else line
    if words.any isControl then none else some (rest.drop words.length)
  | text => some text

/-- What follows the end of a line: blanks, a comment, and a line break or the end of the text. -/
def endLine? (text : List Char) : Option (List Char) := do
  match ← skipComment? (skipBlanks text) with
  | [] => some []
  | rest => newline? rest

/-- What follows blanks, comments and line breaks; at most `fuel` lines. -/
def skipLines? : Nat → List Char → Option (List Char)
  | 0, text => some text
  | fuel + 1, text => do
    let rest ← skipComment? (skipBlanks text)
    match newline? rest with
    | some rest => skipLines? fuel rest
    | none => some rest

/-- The number that hexadecimal digits spell. -/
def hexNumber? (digits : List Char) : Option Nat :=
  digits.foldlM (fun n c => (Json.hexValue? c).map (16 * n + ·)) 0

/-- The character with a number, if there is one. -/
def character? (n : Nat) : Option Char := if n.isValidChar then some (Char.ofNat n) else none

/-- The character behind a backslash and a letter. -/
def escaped? : Char → Option Char
  | 'b' => some '\x08' | 't' => some '\t' | 'n' => some '\n' | 'f' => some '\x0c' | 'r' => some '\r'
  | 'e' => some '\x1b' | '"' => some '"' | '\\' => some '\\'
  | _ => none

/-- Whether only blanks stand before the next line break. -/
def breaksLine (text : List Char) : Bool := (newline? (skipBlanks text)).isSome

/-- A string in double quotes behind its opening, collected in reverse. Over several lines it ends
with three quotes, and a backslash at the end of a line joins it to the next text, which `joining`
passes on to. -/
def readBasic? (several joining : Bool) (text : List Char) :
    List Char → Option (List Char × List Char)
  | [] => none
  | '"' :: rest =>
    if several then
      match rest with
      | '"' :: '"' :: '"' :: '"' :: rest => some (('"' :: '"' :: text).reverse, rest)
      | '"' :: '"' :: '"' :: rest => some (('"' :: text).reverse, rest)
      | '"' :: '"' :: rest => some (text.reverse, rest)
      | rest => readBasic? several false ('"' :: text) rest
    else some (text.reverse, rest)
  | '\\' :: 'x' :: a :: b :: rest =>
    match (hexNumber? [a, b]).bind character? with
    | some e => readBasic? several false (e :: text) rest
    | none => none
  | '\\' :: 'u' :: a :: b :: c :: d :: rest =>
    match (hexNumber? [a, b, c, d]).bind character? with
    | some e => readBasic? several false (e :: text) rest
    | none => none
  | '\\' :: 'U' :: a :: b :: c :: d :: e :: f :: g :: h :: rest =>
    match (hexNumber? [a, b, c, d, e, f, g, h]).bind character? with
    | some e => readBasic? several false (e :: text) rest
    | none => none
  | '\\' :: c :: rest =>
    match escaped? c with
    | some e => readBasic? several false (e :: text) rest
    | none =>
        if several && breaksLine (c :: rest) then readBasic? several true text (c :: rest) else none
  | '\r' :: '\n' :: rest =>
    if !several then none
    else readBasic? several joining (if joining then text else '\n' :: '\r' :: text) rest
  | c :: rest =>
    if joining && (isBlank c || c = '\n') then readBasic? several true text rest
    else if several && c = '\n' then readBasic? several false (c :: text) rest
    else if c = '\\' || isControl c then none
    else readBasic? several false (c :: text) rest

/-- A string in single quotes behind its opening, collected in reverse; nothing in it is escaped. -/
def readPlain? (several : Bool) (text : List Char) : List Char → Option (List Char × List Char)
  | [] => none
  | '\x27' :: rest =>
    if several then
      match rest with
      | '\x27' :: '\x27' :: '\x27' :: '\x27' :: rest =>
          some (('\x27' :: '\x27' :: text).reverse, rest)
      | '\x27' :: '\x27' :: '\x27' :: rest => some (('\x27' :: text).reverse, rest)
      | '\x27' :: '\x27' :: rest => some (text.reverse, rest)
      | rest => readPlain? several ('\x27' :: text) rest
    else some (text.reverse, rest)
  | '\r' :: '\n' :: rest => if several then readPlain? several ('\n' :: '\r' :: text) rest else none
  | c :: rest =>
    if isControl c && !(several && c = '\n') then none else readPlain? several (c :: text) rest

/-- The text without the line break that may start it. -/
def dropNewline (text : List Char) : List Char := (newline? text).getD text

/-- A string of any kind. -/
def readString? : List Char → Option (List Char × List Char)
  | '"' :: '"' :: '"' :: rest => readBasic? true false [] (dropNewline rest)
  | '\x27' :: '\x27' :: '\x27' :: rest => readPlain? true [] (dropNewline rest)
  | '"' :: rest => readBasic? false false [] rest
  | '\x27' :: rest => readPlain? false [] rest
  | _ => none

def isBareKey (c : Char) : Bool := c.isAlphanum || c = '_' || c = '-'

/-- One part of a key. -/
def readKeyPart? (text : List Char) : Option (String × List Char) :=
  match text with
  | '"' :: rest => (readBasic? false false [] rest).map fun (key, rest) => (String.ofList key, rest)
  | '\x27' :: rest => (readPlain? false [] rest).map fun (key, rest) => (String.ofList key, rest)
  | _ =>
    let key := text.takeWhile isBareKey
    if key.isEmpty then none else some (String.ofList key, text.dropWhile isBareKey)

/-- The parts that a key may have. -/
def keyParts : Nat := 81

/-- The parts of a key between dots, at most `fuel` of them, and the text behind it and its
blanks. -/
def readKey? : Nat → List Char → Option (List String × List Char)
  | 0, _ => none
  | fuel + 1, text => do
    let (part, rest) ← readKeyPart? (skipBlanks text)
    match skipBlanks rest with
    | '.' :: rest => do
      let (parts, rest) ← readKey? fuel rest
      return (part :: parts, rest)
    | rest => return ([part], rest)

/-- Digits with single underscores between them. -/
def digits? (isDigit : Char → Bool) (text : List Char) : Option (List Char) :=
  go true text
where
  /-- Reads on; `gap` tells that a digit must come next. -/
  go (gap : Bool) : List Char → Option (List Char)
    | [] => if gap then none else some []
    | '_' :: rest => if gap then none else go true rest
    | c :: rest => if isDigit c then (go false rest).map (c :: ·) else none

def inBase (base : Nat) (c : Char) : Bool := (Json.hexValue? c).any (· < base)

/-- A decimal number without superfluous zeros. -/
def decimal? (text : List Char) : Option (List Char) := do
  let digits ← digits? Char.isDigit text
  match digits with
  | '0' :: _ :: _ => none
  | digits => some digits

/-- Sign and rest of a number. -/
def splitSign : List Char → Bool × List Char
  | '-' :: rest => (true, rest)
  | '+' :: rest => (false, rest)
  | text => (false, text)

/-- An integer that fits into 128 bits, with or without a sign. -/
def integer? (text : List Char) : Option Int := do
  let n ← match text with
    | '0' :: 'x' :: rest => (digits? (inBase 16) rest).map fun ds =>
        (Double.digitsValue 16 ds : Int)
    | '0' :: 'o' :: rest => (digits? (inBase 8) rest).map fun ds => (Double.digitsValue 8 ds : Int)
    | '0' :: 'b' :: rest => (digits? (inBase 2) rest).map fun ds => (Double.digitsValue 2 ds : Int)
    | text =>
      let (negative, rest) := splitSign text
      (decimal? rest).map fun ds =>
        let n : Int := Double.digitsValue 10 ds
        if negative then -n else n
  if -Int.ofNat (Nat.pow 2 127) ≤ n ∧ n < Int.ofNat (Nat.pow 2 128) then some n else none

/-- Whether a text without a sign spells a number with a fraction or an exponent. -/
def isFraction (text : List Char) : Bool :=
  let whole := text.takeWhile fun c => c != '.' && c != 'e' && c != 'E'
  let isExponent (t : List Char) : Bool := (digits? Char.isDigit (splitSign t).2).isSome
  (decimal? whole).isSome &&
    match text.drop whole.length with
    | '.' :: more =>
      let fraction := more.takeWhile fun c => c != 'e' && c != 'E'
      (digits? Char.isDigit fraction).isSome &&
        match more.drop fraction.length with
        | [] => true
        | _ :: exponent => isExponent exponent
    | _ :: exponent => isExponent exponent
    | [] => false

/-- Whether a text spells a number with a fraction or an exponent that is a finite double, or one
that is not finite by name. -/
def isFloat (text : List Char) : Bool :=
  let rest := (splitSign text).2
  rest = "inf".toList || rest = "nan".toList ||
    (isFraction rest && Double.ofDecimal (rest.filter (· != '_')) != .infinite)

def isScalarPart (c : Char) : Bool :=
  c.isAlphanum || c = '_' || c = '+' || c = '-' || c = '.' || c = ':'

/-- The text of a truth value, a number, a date or a time at the head of a text; between a date and
its time may stand a blank. -/
def scalarText (text : List Char) : List Char :=
  let word := text.takeWhile isScalarPart
  match text.drop word.length with
  | ' ' :: c :: rest =>
    if date? word = some [] && c.isDigit then word ++ ' ' ::
      (c :: rest).takeWhile isScalarPart else word
  | _ => word

/-- A truth value, a number, a date or a time. The latter two are records with one field. -/
def scalar? (text : List Char) : Option Json :=
  if text = "true".toList then some (.bool true)
  else if text = "false".toList then some (.bool false)
  else if isDateTime text then some (.object [("date-time", .string (String.ofList text))])
  else match integer? text with
    | some n => some (.number (toString n))
    | none => if isFloat text then some (.number (String.ofList text)) else none

/-- Lists and inline tables that may stand in one another. -/
def deepest : Nat := 80

mutual

/-- A value in which lists and inline tables stand at most `levels` deep; at most `fuel` parts
long. -/
def readValue? : Nat → Nat → List Char → Option (Json × List Char)
  | 0, _, _ => none
  | fuel + 1, levels, text =>
    match text with
    | '[' :: rest =>
      if levels = 0 then none
      else (readItems? fuel (levels - 1) rest).map fun (items, rest) => (.array items, rest)
    | '{' :: rest =>
      if levels = 0 then none
      else (readMembers? fuel (levels - 1) [] rest).map fun (fields, rest) =>
        (.object (fieldsToJson fields), rest)
    | c :: rest =>
      if c = '"' || c = '\x27' then
        (readString? (c :: rest)).map fun (s, rest) => (.string (String.ofList s), rest)
      else
        let word := scalarText (c :: rest)
        (scalar? word).map fun j => (j, (c :: rest).drop word.length)
    | [] => none

/-- The items of a list behind its bracket or a comma, up to and including its closing bracket. -/
def readItems? : Nat → Nat → List Char → Option (List Json × List Char)
  | 0, _, _ => none
  | fuel + 1, levels, text => do
    match ← skipLines? text.length text with
    | ']' :: rest => some ([], rest)
    | rest => do
      let (item, rest) ← readValue? fuel levels rest
      match ← skipLines? rest.length rest with
      | ',' :: rest => do
        let (items, rest) ← readItems? fuel levels rest
        return (item :: items, rest)
      | ']' :: rest => return ([item], rest)
      | _ => none

/-- The members of an inline table behind its brace or a comma, up to and including its closing
brace. -/
def readMembers? : Nat → Nat → Fields → List Char → Option (Fields × List Char)
  | 0, _, _, _ => none
  | fuel + 1, levels, fields, text => do
    match ← skipLines? text.length text with
    | '}' :: rest => some (fields, rest)
    | rest => do
      let (key, rest) ← readKey? keyParts rest
      match ← skipLines? rest.length rest with
      | '=' :: rest => do
        let (value, rest) ← readValue? fuel levels (← skipLines? rest.length rest)
        let fields ← fields.assign value key
        match ← skipLines? rest.length rest with
        | ',' :: rest => readMembers? fuel levels fields rest
        | '}' :: rest => return (fields, rest)
        | _ => none
      | _ => none

end

/-- A document so far: its tables and the header path that keys belong to. -/
structure Document where
  fields : Fields
  path : List String

namespace Document

/-- Takes a header with its path, of a table or of one more table of a list. -/
def enter? (d : Document) (item : Bool) (path : List String) : Option Document := do
  let last ← path.getLast?
  let change := if item then Fields.openItem last else Fields.openTable last
  return ⟨← d.fields.descend change path.dropLast, path⟩

/-- Takes one line that is neither empty nor a comment, and gives the text behind it. -/
def takeLine? (d : Document) (text : List Char) : Option (Document × List Char) := do
  match text with
  | '[' :: '[' :: rest =>
    match ← readKey? keyParts rest with
    | (path, ']' :: ']' :: rest) => return (← d.enter? true path, ← endLine? rest)
    | _ => none
  | '[' :: rest =>
    match ← readKey? keyParts rest with
    | (path, ']' :: rest) => return (← d.enter? false path, ← endLine? rest)
    | _ => none
  | text =>
    match ← readKey? keyParts text with
    | (key, '=' :: rest) =>
      let rest := skipBlanks rest
      let (value, rest) ← readValue? (rest.length + 1) deepest rest
      return (⟨← d.fields.descend (·.assign value key) d.path, d.path⟩, ← endLine? rest)
    | _ => none

/-- Takes all lines, at most `fuel` of them. -/
def takeLines? : Nat → Document → List Char → Option Document
  | 0, _, _ => none
  | fuel + 1, d, text => do
    match ← skipLines? text.length text with
    | [] => some d
    | rest => do
      let (d, rest) ← d.takeLine? rest
      takeLines? fuel d rest

end Document

/-- The content of a TOML text as a JSON object. -/
def parse? (text : String) : Option Json := do
  let text := text.toList
  let text := if text.head? = some '\ufeff' then text.drop 1 else text
  let d ← Document.takeLines? (text.length + 1) ⟨[], []⟩ text
  return .object (fieldsToJson d.fields)

end ScriptLens.Toml
