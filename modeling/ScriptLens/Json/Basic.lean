import ScriptLens.Sorting

/-!
JSON values. A number keeps its spelling, and an object keeps its fields in order, repeated ones
included. A value that is spelled with half of a surrogate pair can be passed over, but not read.
-/

namespace ScriptLens

inductive Json where
  | null
  | bool (value : Bool)
  | number (literal : String)
  | string (text : String)
  | array (items : List Json)
  | object (fields : List (String × Json))
  /-- A string that holds half of a surrogate pair, or an object with such a name. -/
  | unreadable
deriving Inhabited

namespace Json

def ofNat (n : Nat) : Json := .number (toString n)

/-- A value or `null`. -/
def ofOption (encode : α → Json) : Option α → Json
  | none => .null
  | some a => encode a

def ofList (encode : α → Json) (items : List α) : Json := .array (items.map encode)

/-- A string, if its text could be read. -/
def ofText : Option String → Json
  | some text => .string text
  | none => .unreadable

/-- An object, if its names could be read. -/
def ofFields : Option (List (String × Json)) → Json
  | some fields => .object fields
  | none => .unreadable

/-- The last value given to a field of an object. -/
def field? (name : String) : Json → Option Json
  | .object fields => (fields.reverse.find? (·.1 == name)).map (·.2)
  | _ => none

mutual

/-- The same value with the fields of every object in the order of their names. -/
def sortFields : Json → Json
  | .array items => .array (sortItems items)
  | .object fields => .object (Sorting.sort (fun a b => decide (a.1 ≤ b.1)) (sortMembers fields))
  | other => other

def sortItems : List Json → List Json
  | [] => []
  | j :: rest => sortFields j :: sortItems rest

def sortMembers : List (String × Json) → List (String × Json)
  | [] => []
  | (name, j) :: rest => (name, sortFields j) :: sortMembers rest

end

end Json

end ScriptLens
