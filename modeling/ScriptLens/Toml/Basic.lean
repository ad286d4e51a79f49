import ScriptLens.Json.Basic

/-!
TOML documents as trees of tables, and how headers and keys grow them. A place that was given once
is not given again.
-/

namespace ScriptLens.Toml

/-- How a table came to be. -/
inductive Origin where
  /-- On the way to a table with a longer header. -/
  | implied
  /-- By a header of its own. -/
  | header
  /-- By a key with dots. -/
  | dotted
deriving DecidableEq, Repr

/-- Whether a key with dots may go on through a table: never through one with a header of its own,
and through one that is implied only on the way to a table that the key itself gives. -/
def Origin.admits (path : List String) : Origin → Bool
  | .implied => 1 < path.length
  | .header => false
  | .dotted => true

inductive Node where
  | value (value : Json)
  | table (origin : Origin) (fields : List (String × Node))
  /-- A list of tables, latest first. -/
  | tables (items : List (List (String × Node)))

abbrev Fields := List (String × Node)

namespace Fields

def get? (fields : Fields) (name : String) : Option Node := (fields.find? (·.1 == name)).map (·.2)

/-- Gives a name a node, in its old place or last. -/
def set (fields : Fields) (name : String) (node : Node) : Fields :=
  if fields.any (·.1 == name) then fields.map fun f => if f.1 == name then (name, node) else f
  else fields ++ [(name, node)]

/-- Changes the table that a header path leads to. Tables on the way are made as needed, and of a
list of tables the latest is meant. -/
def descend (change : Fields → Option Fields) : List String → Fields → Option Fields
  | [], fields => change fields
  | name :: path, fields =>
    match fields.get? name with
    | none => do return fields.set name (.table .implied (← descend change path []))
    | some (.table origin
        inner) => do return fields.set name (.table origin (← descend change path inner))
    | some (.tables (latest :: older)) =>
      do return fields.set name (.tables ((← descend change path latest) :: older))
    | some _ => none

/-- Opens a table by a header. -/
def openTable (name : String) (fields : Fields) : Option Fields :=
  match fields.get? name with
  | none => some (fields.set name (.table .header []))
  | some (.table .implied inner) => some (fields.set name (.table .header inner))
  | some _ => none

/-- Opens one more table of a list. -/
def openItem (name : String) (fields : Fields) : Option Fields :=
  match fields.get? name with
  | none => some (fields.set name (.tables [[]]))
  | some (.tables items) => some (fields.set name (.tables ([] :: items)))
  | some _ => none

/-- Gives a key with or without dots a value. -/
def assign (value : Json) : List String → Fields → Option Fields
  | [], _ => none
  | [name], fields =>
    match fields.get? name with
    | none => some (fields.set name (.value value))
    | some _ => none
  | name :: path, fields =>
    match fields.get? name with
    | none => do return fields.set name (.table .dotted (← assign value path []))
    | some (.table origin inner) =>
      if origin.admits
        path then do return fields.set name (.table origin (← assign value path inner))
      else none
    | some _ => none

end Fields

mutual

/-- The same content as a JSON value. -/
def Node.toJson : Node → Json
  | .value j => j
  | .table _ fields => .object (fieldsToJson fields)
  | .tables items => .array (itemsToJson items).reverse

def fieldsToJson : List (String × Node) → List (String × Json)
  | [] => []
  | (name, node) :: rest => (name, node.toJson) :: fieldsToJson rest

def itemsToJson : List (List (String × Node)) → List Json
  | [] => []
  | fields :: rest => .object (fieldsToJson fields) :: itemsToJson rest

end

end ScriptLens.Toml
