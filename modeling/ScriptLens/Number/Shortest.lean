import ScriptLens.Number.Double

/-!
Decimal spellings of doubles with the fewest digits that read back to the same double.
-/

namespace ScriptLens

/-- How a spelling is laid out. -/
structure DecimalLayout where
  /-- The least power of ten of a first digit that is still written without an exponent. -/
  leastPower : Int
  /-- The greatest such power. -/
  greatestPower : Int
  /-- Whether a positive exponent carries a sign. -/
  plus : Bool
  /-- Whether of two equally near spellings the greater one is taken, not the even one. -/
  tieUp : Bool

/-- A decimal `digits * 10 ^ power`. -/
structure Decimal where
  digits : Nat
  power : Int
deriving DecidableEq, Repr

namespace Decimal

def digitCount (n : Nat) : Nat := (Nat.toDigits 10 n).length

/-- The greatest power of ten that is no greater than `num / den`, for quotients above `10 ^
-400`. -/
def leadingPower (num den : Nat) : Int :=
  (digitCount (num * Nat.pow 10 400 / den) : Int) - 401

/-- Drops the zeros that end a number, at most `fuel` of them. -/
def dropZeros : Nat → Decimal → Decimal
  | 0, d => d
  | fuel + 1, d =>
    if d.digits ≠ 0 ∧ d.digits % 10 = 0 then dropZeros fuel ⟨d.digits / 10, d.power + 1⟩ else d

/-- The reals that read back to a double: `value`, `low` and `high` are counted in parts of
`den`. -/
structure Interval where
  value : Nat
  low : Nat
  high : Nat
  den : Nat
  /-- Whether the ends belong to it. -/
  closed : Bool

/-- The interval of a finite double above zero. Below a full power of two doubles lie half as far
apart. -/
def interval (mantissa : Nat) (exponent : Int) : Interval :=
  let below := if mantissa = Nat.pow 2 52 ∧ Double.leastExponent < exponent then 1 else 2
  let up := Nat.pow 2 (exponent - 2).toNat
  ⟨4 * mantissa * up, (4 * mantissa - below) * up, (4 * mantissa + 2) * up,
    Nat.pow 2 (2 - exponent).toNat, mantissa % 2 = 0⟩

/-- The nearer of the two neighbours of the value on the grid of a power of ten that lies in the
interval, if one does. -/
def onGrid? (tieUp : Bool) (i : Interval) (power : Int) : Option Decimal :=
  let up := Nat.pow 10 (-power).toNat
  let den := i.den * Nat.pow 10 power.toNat
  let inside := fun d : Nat =>
    if i.closed then i.low * up ≤ d * den ∧ d * den ≤ i.high * up
    else i.low * up < d * den ∧ d * den < i.high * up
  let lower := i.value * up / den
  let twice := 2 * (i.value * up % den)
  if inside lower then
    if inside (lower + 1) ∧ (den < twice ∨ twice = den ∧ (tieUp ∨ lower % 2 = 1)) then
      some ⟨lower + 1, power⟩
    else some ⟨lower, power⟩
  else if inside (lower + 1) then some ⟨lower + 1, power⟩
  else none

/-- The decimal with the fewest digits in the interval of a finite double. -/
def shortest (tieUp : Bool) (mantissa : Nat) (exponent : Int) : Decimal :=
  if mantissa = 0 then ⟨0, 0⟩
  else
    let i := interval mantissa exponent
    let top := leadingPower i.value i.den
    match (List.range 17).findSome? fun (n : Nat) => onGrid? tieUp i (top - n) with
    | some d => dropZeros 20 d
    | none => ⟨0, 0⟩

/-- The spelling in a layout: a point with a digit on either side, or an exponent. -/
def render (layout : DecimalLayout) (d : Decimal) : String :=
  let digits := Nat.toDigits 10 d.digits
  let top := d.power + digits.length - 1
  if d.digits = 0 then "0.0"
  else if layout.leastPower ≤ top ∧ top ≤ layout.greatestPower then
    if 0 ≤ d.power then String.ofList (digits ++ List.replicate d.power.toNat '0') ++ ".0"
    else if 0 ≤ top then
      let whole := (top + 1).toNat
      String.ofList (digits.take whole) ++ "." ++ String.ofList (digits.drop whole)
    else "0." ++ String.ofList (List.replicate (-top - 1).toNat '0' ++ digits)
  else
    let mantissa := match digits with
      | [digit] => String.ofList [digit]
      | first :: rest => String.ofList (first :: '.' :: rest)
      | [] => ""
    let sign := if top < 0 then "-" else if layout.plus then "+" else ""
    mantissa ++ "e" ++ sign ++ toString top.natAbs

end Decimal

namespace Double

/-- The shortest spelling, or none beyond all finite doubles. -/
def render? (layout : DecimalLayout) : Double → Option String
  | .finite mantissa exponent =>
    some ((Decimal.shortest layout.tieUp mantissa exponent).render layout)
  | .infinite => none

end Double

end ScriptLens
