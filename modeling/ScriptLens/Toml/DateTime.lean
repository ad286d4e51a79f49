/-!
Dates and times of day in TOML: a date, a time, or both with or without the distance from universal
time.
-/

namespace ScriptLens.Toml

/-- The number that a text starts with in exactly `width` digits, and what follows them. -/
def fixedNumber? (width : Nat) (text : List Char) : Option (Nat × List Char) :=
  let digits := text.take width
  if digits.length = width && digits.all Char.isDigit then
    some (digits.foldl (fun n c => 10 * n + (c.toNat - 48)) 0, text.drop width)
  else none

/-- What follows a number of two digits between two bounds. -/
def twoDigits? (least greatest : Nat) (text : List Char) : Option (List Char) := do
  let (n, rest) ← fixedNumber? 2 text
  if least ≤ n ∧ n ≤ greatest then some rest else none

/-- What follows a character. -/
def after? (c : Char) : List Char → Option (List Char)
  | d :: rest => if c = d then some rest else none
  | [] => none

def isLeapYear (year : Nat) : Bool := (year % 4 = 0 && year % 100 != 0) || year % 400 = 0

def daysInMonth (year month : Nat) : Nat :=
  if month = 2 then (if isLeapYear year then 29 else 28)
  else if month = 4 || month = 6 || month = 9 || month = 11 then 30
  else 31

/-- What follows a date of the calendar, as in `1979-05-27`. -/
def date? (text : List Char) : Option (List Char) := do
  let (year, rest) ← fixedNumber? 4 text
  let (month, rest) ← fixedNumber? 2 (← after? '-' rest)
  if 1 ≤ month ∧ month ≤ 12 then twoDigits? 1 (daysInMonth year month) (← after? '-' rest) else none

/-- What follows the seconds with or without a fraction, which may be missing. -/
def seconds? : List Char → Option (List Char)
  | ':' :: rest => do
    match ← twoDigits? 0 60 rest with
    | '.' :: fraction =>
      if fraction.head?.any Char.isDigit then some (fraction.dropWhile Char.isDigit) else none
    | rest => some rest
  | rest => some rest

/-- What follows a time of day, as in `07:32` or `07:32:00.5`. -/
def time? (text : List Char) : Option (List Char) := do
  let rest ← twoDigits? 0 23 text
  seconds? (← twoDigits? 0 59 (← after? ':' rest))

/-- Whether a text tells the distance from universal time, or nothing. -/
def isOffset : List Char → Bool
  | [] => true
  | [c] => c = 'Z' || c = 'z'
  | c :: rest =>
    (c = '+' || c = '-') &&
      (do twoDigits? 0 59 (← after? ':' (← twoDigits? 0 23 rest))) = some []

/-- Whether a text is a date, a time, or both with a `T` or a blank between them. -/
def isDateTime (text : List Char) : Bool :=
  match date? text with
  | none => time? text = some []
  | some [] => true
  | some (c :: rest) => (c = 'T' || c = 't' || c = ' ') && (time? rest).any isOffset

end ScriptLens.Toml
