import ScriptLens.Json.Basic

/-!
Reading records out of JSON values. A record is an object, whose unknown fields are passed over and
whose known ones occur at most once, or a list of its fields in order.
-/

namespace ScriptLens.Json

def text? : Json → Option String
  | .string text => some text
  | _ => none

def bool? : Json → Option Bool
  | .bool b => some b
  | _ => none

/-- A number that is spelled by digits alone. -/
def nat? : Json → Option Nat
  | .number literal => if literal.toList.all Char.isDigit then literal.toNat? else none
  | _ => none

/-- A number that fits into 64 bits. -/
def word? (j : Json) : Option UInt64 := do
  let n ← j.nat?
  if n < Nat.pow 2 64 then some n.toUInt64 else none

/-- All items of a list, each decoded. -/
def list? (decode : Json → Option α) : Json → Option (List α)
  | .array items => items.mapM decode
  | _ => none

/-- A value, or nothing for `null`. -/
def nullable? (decode : Json → Option α) : Json → Option (Option α)
  | .null => some none
  | j => (decode j).map some

/-- The only value of a field, if there is one; a repeated field is refused. -/
def only? (fields : List (String × Json)) (name : String) : Option (Option Json) :=
  match fields.filter (·.1 == name) with
  | [] => some none
  | [(_, j)] => some (some j)
  | _ => none

/-- The values of a record's fields, in the order of their names. -/
def record? (names : List String) : Json → Option (List (Option Json))
  | .object fields => names.mapM (only? fields)
  | .array items =>
    if items.length ≤ names.length then
      some (items.map some ++ List.replicate (names.length - items.length) none)
    else none
  | _ => none

/-- The value without the items of a list beyond the first `n`. -/
def firstItems (n : Nat) : Json → Json
  | .array items => .array (items.take n)
  | j => j

/-- Changes what a field holds. -/
def mapField (name : String) (change : Json → Json) : Json → Json
  | .object fields => .object (fields.map fun (n, j) => (n, if n == name then change j else j))
  | j => j

/-- A field that may be missing. -/
def orElse? (default : α) (decode : Json → Option α) : Option Json → Option α
  | none => some default
  | some j => decode j

/-- A field that must be there. -/
def required? (decode : Json → Option α) (field : Option Json) : Option α := field.bind decode

end ScriptLens.Json
