/-!
Non-negative double-precision numbers, kept exactly as a whole number times a power of two, and the
rounding of a quotient to the nearest of them.
-/

namespace ScriptLens

/-- A non-negative double: `mantissa * 2 ^ exponent`, or beyond all finite ones. A mantissa below
`2 ^ 52` goes with the least exponent. -/
inductive Double where
  | finite (mantissa : Nat) (exponent : Int)
  | infinite
deriving DecidableEq, Repr, Inhabited

namespace Double

/-- Bits of a full mantissa. -/
def precision : Nat := 53

def leastExponent : Int := -1074

def greatestExponent : Int := 971

def zero : Double := .finite 0 leastExponent

/-- Rounds `num / den` to the nearest whole number, a half to the even neighbour. -/
def roundHalfEven (num den : Nat) : Nat :=
  let q := num / den
  let twice := 2 * (num % den)
  if twice < den then q
  else if den < twice then q + 1
  else if q % 2 = 0 then q else q + 1

/-- The quotient of `num` by `den * 2 ^ exponent` as a fraction of whole numbers. -/
def scaled (num den : Nat) (exponent : Int) : Nat × Nat :=
  (num * Nat.pow 2 (-exponent).toNat, den * Nat.pow 2 exponent.toNat)

/-- The exponent at which `num / den` has a full mantissa, unless it is too small for one. -/
def exponentFor (num den : Nat) : Int :=
  let guess : Int := (Nat.log2 num : Int) - (Nat.log2 den : Int) - 52
  let (n, d) := scaled num den guess
  max (if n / d < Nat.pow 2 52 then guess - 1 else guess) leastExponent

/-- The double nearest to `num / den`; of two equally near ones, that with the even mantissa. -/
def ofRatio (num den : Nat) : Double :=
  if num = 0 then zero
  else
    let exponent := exponentFor num den
    let (n, d) := scaled num den exponent
    let mantissa := roundHalfEven n d
    let (mantissa, exponent) :=
      if mantissa = Nat.pow 2 precision then (Nat.pow 2 52, exponent + 1) else (mantissa, exponent)
    if greatestExponent < exponent then .infinite else .finite mantissa exponent

/-- The whole number that digits spell in a base. -/
def digitsValue (base : Nat) (digits : List Char) : Nat :=
  digits.foldl (fun n c =>
    base * n + (if c.isDigit then c.toNat - 48 else (c.toLower).toNat - 87)) 0

/-- The double of a number literal: the one nearest to a decimal, and for `0x` with digits that fit
into 63 bits the one nearest to their value; other hexadecimal literals count as zero. -/
def ofLiteral (text : List Char) : Double :=
  match text with
  | '0' :: 'x' :: digits =>
    let n := digitsValue 16 digits
    if digits.isEmpty || n ≥ Nat.pow 2 63 then zero else ofRatio n 1
  | _ =>
    let whole := text.takeWhile (· != '.')
    let fraction := (text.dropWhile (· != '.')).drop 1
    ofRatio (digitsValue 10 (whole ++ fraction)) (Nat.pow 10 fraction.length)

/-- A whole number with or without a sign. -/
def signedValue : List Char → Int
  | '-' :: digits => -(digitsValue 10 digits : Int)
  | '+' :: digits => digitsValue 10 digits
  | digits => digitsValue 10 digits

/-- The double nearest to a decimal with or without a fraction and an exponent. Where its first
digit stands tells the magnitude, so that no power of ten is formed for numbers far out of range. -/
def ofDecimal (text : List Char) : Double :=
  let isMantissa (c : Char) : Bool := c != 'e' && c != 'E'
  let mantissa := text.takeWhile isMantissa
  let exponent := signedValue ((text.dropWhile isMantissa).drop 1)
  let whole := mantissa.takeWhile (· != '.')
  let fraction := (mantissa.dropWhile (· != '.')).drop 1
  let digits := (whole ++ fraction).dropWhile (· = '0')
  let shift := exponent - fraction.length
  let magnitude := digits.length + shift
  if digits.isEmpty || magnitude < -400 then zero
  else if 400 < magnitude then .infinite
  else ofRatio (digitsValue 10 digits * Nat.pow 10 shift.toNat) (Nat.pow 10 (-shift).toNat)

end Double

end ScriptLens
