import ScriptLens.Text.Basic
import ScriptLens.Text.Lower

/-!
Documentation of what the engine offers, and searches in it.
-/

namespace ScriptLens

structure ParameterDoc where
  name : String
  description : String := ""
  type : Option String := none
  optional : Bool := false
deriving DecidableEq, Repr

structure ExampleDoc where
  description : String := ""
  code : String
deriving DecidableEq, Repr

/-- A function, or a method if `path` names its class. -/
structure FunctionDoc where
  name : String := ""
  path : String := ""
  category : String := ""
  description : String := ""
  parameters : List ParameterDoc := []
  returnType : Option String := none
  examples : List ExampleDoc := []
deriving DecidableEq, Repr

structure PropertyDoc where
  name : String := ""
  description : String := ""
  type : Option String := none
deriving DecidableEq, Repr

structure ClassDoc where
  name : String := ""
  category : String := ""
  description : String := ""
  methods : List FunctionDoc := []
  properties : List PropertyDoc := []
deriving DecidableEq, Repr

structure VariableDoc where
  name : String := ""
  category : String := ""
  description : String := ""
  type : String := ""
deriving DecidableEq, Repr

structure DirectiveDoc where
  name : String := ""
  category : String := ""
  description : String := ""
deriving DecidableEq, Repr

/-- All documentation, in the order in which it was written. -/
structure DocIndex where
  functions : List FunctionDoc := []
  classes : List ClassDoc := []
  vars : List VariableDoc := []
  directives : List DirectiveDoc := []
deriving DecidableEq, Repr

namespace FunctionDoc

/-- The form `Name(A, B)`. -/
def signature (f : FunctionDoc) : String :=
  f.name ++ "(" ++ ", ".intercalate (f.parameters.map (·.name)) ++ ")"

/-- One place to fill in for each parameter. -/
def snippet (f : FunctionDoc) : String :=
  f.name ++ "(" ++ ", ".intercalate (f.parameters.zipIdx.map fun (p, i) =>
    "$\x7b" ++ toString (i + 1) ++ ":" ++ p.name ++ "\x7d") ++ ")"

end FunctionDoc

namespace DocIndex

/-- Whether a query occurs in a name or a description, whatever the case. An empty query occurs
everywhere. -/
def isHit (query name description : String) : Bool :=
  let wanted := Text.lower query.toList
  wanted.isEmpty || Text.contains wanted (Text.lower name.toList) ||
    Text.contains wanted (Text.lower description.toList)

def searchFunctions (index : DocIndex) (query : String) : List FunctionDoc :=
  index.functions.filter fun f => isHit query f.name f.description

def searchClasses (index : DocIndex) (query : String) : List ClassDoc :=
  index.classes.filter fun c => isHit query c.name c.description

def searchVariables (index : DocIndex) (query : String) : List VariableDoc :=
  index.vars.filter fun v => isHit query v.name v.description

def searchDirectives (index : DocIndex) (query : String) : List DirectiveDoc :=
  index.directives.filter fun d => isHit query d.name d.description

/-- The first class of a name, up to the case of ASCII letters. -/
def findClass? (index : DocIndex) (name : String) : Option ClassDoc :=
  index.classes.find? fun c => Text.sameName c.name name

end DocIndex

end ScriptLens
