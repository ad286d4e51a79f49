import ScriptLens.Json.Basic
import ScriptLens.Number.Double

/-!
Reading JSON text. The text is cut into lexemes, and a machine with a stack of open containers takes
them one by one, so reading ends with the text. Scanning accepts whatever can be passed over, and
parsing only what can be read.
-/

namespace ScriptLens.Json

/-- A lexeme of JSON text. -/
inductive Lexeme where
  | opening (brace : Bool)
  | closing (brace : Bool)
  | comma
  | colon
  /-- A string, without its text where that holds half of a surrogate pair. -/
  | text (text : Option String)
  | scalar (value : Json)

def isSpace (c : Char) : Bool := c = ' ' || c = '\t' || c = '\n' || c = '\r'

def hexValue? (c : Char) : Option Nat :=
  if c.isDigit then some (c.toNat - 48)
  else if 'a' ≤ c ∧ c ≤ 'f' then some (c.toNat - 87)
  else if 'A' ≤ c ∧ c ≤ 'F' then some (c.toNat - 55)
  else none

/-- Four hexadecimal digits. -/
def unit? (a b c d : Char) : Option Nat := do
  return (((← hexValue? a) * 16 + (← hexValue? b)) * 16 + (← hexValue? c)) * 16 + (← hexValue? d)

/-- The character that a backslash and `c` stand for. -/
def escaped? : Char → Option Char
  | '"' => some '"' | '\\' => some '\\' | '/' => some '/' | 'b' => some '\x08' | 'f' => some '\x0c'
  | 'n' => some '\n' | 'r' => some '\r' | 't' => some '\t'
  | _ => none

/-- The text of a string after its opening quote, collected in reverse, and what follows its closing
quote. Control characters are refused, and half of a surrogate pair takes the text away. -/
def readString? (text : Option (List Char)) : List Char → Option (Option (List Char) × List Char)
  | [] => none
  | '"' :: rest => some (text.map List.reverse, rest)
  | '\\' :: 'u' :: a :: b :: c :: d :: rest =>
    match unit? a b c d with
    | none => none
    | some high =>
      if high < 0xD800 ∨ 0xE000 ≤ high then readString? (text.map (Char.ofNat high :: ·)) rest
      else match rest with
        | '\\' :: 'u' :: a :: b :: c :: d :: rest =>
          match unit? a b c d with
          | none => none
          | some low =>
            if high < 0xDC00 ∧ 0xDC00 ≤ low ∧ low < 0xE000 then
              let paired := Char.ofNat (0x10000 + (high - 0xD800) * 1024 + (low - 0xDC00))
              readString? (text.map (paired :: ·)) rest
            else readString? none rest
        | rest => readString? none rest
  | '\\' :: c :: rest =>
    match escaped? c with
    | none => none
    | some e => readString? (text.map (e :: ·)) rest
  | c :: rest => if c = '\\' ∨ c.toNat < 32 then none else readString? (text.map (c :: ·)) rest

/-- At least one digit. -/
def readDigits? (text : List Char) : Option (List Char × List Char) :=
  let digits := text.takeWhile Char.isDigit
  if digits.isEmpty then none else some (digits, text.dropWhile Char.isDigit)

/-- The integer part of a number: no zero stands before another digit. -/
def readInteger? : List Char → Option (List Char × List Char)
  | '0' :: rest => some (['0'], rest)
  | text => readDigits? text

def readFraction? : List Char → Option (List Char × List Char)
  | '.' :: rest => (readDigits? rest).map fun (digits, rest) => ('.' :: digits, rest)
  | text => some ([], text)

def readExponent? : List Char → Option (List Char × List Char)
  | e :: rest =>
    if e = 'e' ∨ e = 'E' then
      match rest with
      | '+' :: rest => (readDigits? rest).map fun (digits, rest) => (e :: '+' :: digits, rest)
      | '-' :: rest => (readDigits? rest).map fun (digits, rest) => (e :: '-' :: digits, rest)
      | rest => (readDigits? rest).map fun (digits, rest) => (e :: digits, rest)
    else some ([], e :: rest)
  | [] => some ([], [])

/-- The spelling of a number and what follows it. -/
def readNumber? (text : List Char) : Option (List Char × List Char) := do
  let (sign, text) := match text with
    | '-' :: rest => (['-'], rest)
    | rest => ([], rest)
  let (whole, text) ← readInteger? text
  let (fraction, text) ← readFraction? text
  let (exponent, text) ← readExponent? text
  return (sign ++ whole ++ fraction ++ exponent, text)

/-- The lexeme at the head of `c :: rest`, where `c` is no space. -/
def readLexeme? (c : Char) (rest : List Char) : Option (Lexeme × List Char) :=
  match c with
  | '{' => some (.opening true, rest)
  | '}' => some (.closing true, rest)
  | '[' => some (.opening false, rest)
  | ']' => some (.closing false, rest)
  | ',' => some (.comma, rest)
  | ':' => some (.colon, rest)
  | '"' => (readString? (some []) rest).map fun (text, rest) =>
      (.text (text.map String.ofList), rest)
  | c =>
    match c, rest with
    | 'n', 'u' :: 'l' :: 'l' :: rest => some (.scalar .null, rest)
    | 't', 'r' :: 'u' :: 'e' :: rest => some (.scalar (.bool true), rest)
    | 'f', 'a' :: 'l' :: 's' :: 'e' :: rest => some (.scalar (.bool false), rest)
    | c, rest =>
      (readNumber? (c :: rest)).map fun (text, rest) =>
        (.scalar (.number (String.ofList text)), rest)

/-- The lexemes of a text. A lexeme that left no less text than it found would end the reading. -/
def lexemes? : List Char → Option (List Lexeme)
  | [] => some []
  | c :: rest =>
    if isSpace c then lexemes? rest
    else match readLexeme? c rest with
      | none => none
      | some (lexeme, after) =>
        if after.length < (c :: rest).length then (lexemes? after).map (lexeme :: ·) else none
termination_by text => text.length
decreasing_by
  · exact Nat.lt_succ_self rest.length
  · assumption

/-- A container that is still open, its members latest first. The fields of an object are lost with
the first name that cannot be read. -/
inductive Frame where
  | items (done : List Json)
  | fields (done : Option (List (String × Json)))
  | member (done : Option (List (String × Json))) (name : Option String)

/-- The fields with one more, latest first. -/
def addField (done : Option (List (String × Json))) (name : Option String) (value : Json) :
    Option (List (String × Json)) := do
  return (← name, value) :: (← done)

/-- What the machine waits for. -/
inductive Await where
  | value
  | valueOrClose
  | key
  | keyOrClose
  | colon (name : Option String)
  | after (value : Json)

structure Machine where
  stack : List Frame
  await : Await

namespace Machine

/-- Takes a lexeme where a value may stand. -/
def start (stack : List Frame) : Lexeme → Option Machine
  | .opening true => some ⟨.fields (some []) :: stack, .keyOrClose⟩
  | .opening false => some ⟨.items [] :: stack, .valueOrClose⟩
  | .text text => some ⟨stack, .after (.ofText text)⟩
  | .scalar value => some ⟨stack, .after value⟩
  | _ => none

/-- Takes one lexeme, or refuses it. -/
def step (m : Machine) (lexeme : Lexeme) : Option Machine :=
  match m.await, lexeme, m.stack with
  | .value, lexeme, stack => start stack lexeme
  | .valueOrClose, .closing false, .items done :: stack =>
      some ⟨stack, .after (.array done.reverse)⟩
  | .valueOrClose, lexeme, stack => start stack lexeme
  | .key, .text name, stack => some ⟨stack, .colon name⟩
  | .keyOrClose, .text name, stack => some ⟨stack, .colon name⟩
  | .keyOrClose, .closing true, .fields done :: stack =>
    some ⟨stack, .after (.ofFields (done.map List.reverse))⟩
  | .colon name, .colon, .fields done :: stack => some ⟨.member done name :: stack, .value⟩
  | .after value, .comma, .items done :: stack => some ⟨.items (value :: done) :: stack, .value⟩
  | .after value, .comma, .member done name :: stack =>
    some ⟨.fields (addField done name value) :: stack, .key⟩
  | .after value, .closing false, .items done :: stack =>
    some ⟨stack, .after (.array (value :: done).reverse)⟩
  | .after value, .closing true, .member done name :: stack =>
    some ⟨stack, .after (.ofFields ((addField done name value).map List.reverse))⟩
  | _, _, _ => none

end Machine

/-- The value that a text spells, with nothing after it. Parts of it may be unreadable. -/
def scan? (text : String) : Option Json := do
  let lexemes ← lexemes? text.toList
  match ← lexemes.foldlM Machine.step ⟨[], .value⟩ with
  | ⟨[], .after value⟩ => some value
  | _ => none

/-- Whether a number stands for a finite double. -/
def isFinite (literal : String) : Bool :=
  Double.ofDecimal (literal.toList.dropWhile (· = '-')) != .infinite

mutual

/-- Whether all of a value can be read, with its containers in at most `levels` levels. -/
def isReadable (levels : Nat) : Json → Bool
  | .unreadable => false
  | .number literal => isFinite literal
  | .array items => 0 < levels && areReadable (levels - 1) items
  | .object fields => 0 < levels && fieldsReadable (levels - 1) fields
  | _ => true

def areReadable (levels : Nat) : List Json → Bool
  | [] => true
  | j :: rest => isReadable levels j && areReadable levels rest

def fieldsReadable (levels : Nat) : List (String × Json) → Bool
  | [] => true
  | (_, j) :: rest => isReadable levels j && fieldsReadable levels rest

end

/-- Levels of containers that are read in one another. -/
def deepest : Nat := 127

/-- The value that a text spells, with nothing after it, if all of it can be read. -/
def parse? (text : String) : Option Json := do
  let value ← scan? text
  if isReadable deepest value then some value else none

end ScriptLens.Json
