import ScriptLens.Documentation.Basic
import ScriptLens.Json.Decode
import ScriptLens.Json.Parse

/-!
The JSON form of documentation: written with all fields, read with defaults for missing ones.
-/

namespace ScriptLens

namespace ParameterDoc

/-- The type is left out where there is none. -/
def toJson (p : ParameterDoc) : Json :=
  .object ([("Name", .string p.name), ("Description", .string p.description)] ++
    (p.type.map fun t => ("Type", Json.string t)).toList ++ [("Optional", .bool p.optional)])

def ofJson? (j : Json) : Option ParameterDoc := do
  match ← j.record? ["Name", "Description", "Type", "Optional"] with
  | [name, description, type, optional] =>
    return ⟨← Json.required? Json.text? name, ← Json.orElse? "" Json.text? description,
      ← Json.orElse? none (Json.nullable? Json.text?) type,
      ← Json.orElse? false Json.bool? optional⟩
  | _ => none

end ParameterDoc

namespace ExampleDoc

def toJson (e : ExampleDoc) : Json :=
  .object [("Description", .string e.description), ("Code", .string e.code)]

def ofJson? (j : Json) : Option ExampleDoc := do
  match ← j.record? ["Description", "Code"] with
  | [description, code] =>
    return ⟨← Json.orElse? "" Json.text? description, ← Json.required? Json.text? code⟩
  | _ => none

end ExampleDoc

namespace FunctionDoc

def toJson (f : FunctionDoc) : Json :=
  .object [("Name", .string f.name), ("Path", .string f.path), ("Category", .string f.category),
    ("Description", .string f.description), ("Parameters",
    .ofList ParameterDoc.toJson f.parameters), ("ReturnType", .ofOption .string f.returnType),
    ("Examples", .ofList ExampleDoc.toJson f.examples)]

def ofJson? (j : Json) : Option FunctionDoc := do
  match ← j.record?
    ["Name", "Path", "Category", "Description", "Parameters", "ReturnType", "Examples"] with
  | [name, path, category, description, parameters, returnType, examples] =>
    return ⟨← Json.orElse? "" Json.text? name, ← Json.orElse? "" Json.text? path,
      ← Json.orElse? "" Json.text? category, ← Json.orElse? "" Json.text? description,
      ← Json.orElse? [] (Json.list? ParameterDoc.ofJson?) parameters,
      ← Json.orElse? none (Json.nullable? Json.text?) returnType,
      ← Json.orElse? [] (Json.list? ExampleDoc.ofJson?) examples⟩
  | _ => none

end FunctionDoc

namespace PropertyDoc

def toJson (p : PropertyDoc) : Json :=
  .object [("Name", .string p.name), ("Description", .string p.description),
    ("Type", .ofOption .string p.type)]

def ofJson? (j : Json) : Option PropertyDoc := do
  match ← j.record? ["Name", "Description", "Type"] with
  | [name, description, type] =>
    return ⟨← Json.orElse? "" Json.text? name, ← Json.orElse? "" Json.text? description,
      ← Json.orElse? none (Json.nullable? Json.text?) type⟩
  | _ => none

end PropertyDoc

namespace ClassDoc

def toJson (c : ClassDoc) : Json :=
  .object [("Name", .string c.name), ("Category", .string c.category),
    ("Description", .string c.description), ("Methods", .ofList FunctionDoc.toJson c.methods),
    ("Properties", .ofList PropertyDoc.toJson c.properties)]

def ofJson? (j : Json) : Option ClassDoc := do
  match ← j.record? ["Name", "Category", "Description", "Methods", "Properties"] with
  | [name, category, description, methods, properties] =>
    return ⟨← Json.orElse? "" Json.text? name, ← Json.orElse? "" Json.text? category,
      ← Json.orElse? "" Json.text? description,
      ← Json.orElse? [] (Json.list? FunctionDoc.ofJson?) methods,
      ← Json.orElse? [] (Json.list? PropertyDoc.ofJson?) properties⟩
  | _ => none

end ClassDoc

namespace VariableDoc

def toJson (v : VariableDoc) : Json :=
  .object [("Name", .string v.name), ("Category", .string v.category),
    ("Description", .string v.description), ("Type", .string v.type)]

def ofJson? (j : Json) : Option VariableDoc := do
  match ← j.record? ["Name", "Category", "Description", "Type"] with
  | [name, category, description, type] =>
    return ⟨← Json.orElse? "" Json.text? name, ← Json.orElse? "" Json.text? category,
      ← Json.orElse? "" Json.text? description, ← Json.orElse? "" Json.text? type⟩
  | _ => none

end VariableDoc

namespace DirectiveDoc

def toJson (d : DirectiveDoc) : Json :=
  .object [("Name", .string d.name), ("Category", .string d.category),
    ("Description", .string d.description)]

def ofJson? (j : Json) : Option DirectiveDoc := do
  match ← j.record? ["Name", "Category", "Description"] with
  | [name, category, description] =>
    return ⟨← Json.orElse? "" Json.text? name, ← Json.orElse? "" Json.text? category,
      ← Json.orElse? "" Json.text? description⟩
  | _ => none

end DirectiveDoc

namespace DocIndex

def toJson (i : DocIndex) : Json :=
  .object [("functions", .ofList FunctionDoc.toJson i.functions),
    ("classes", .ofList ClassDoc.toJson i.classes),
    ("variables", .ofList VariableDoc.toJson i.vars),
    ("directives", .ofList DirectiveDoc.toJson i.directives)]

def ofJson? (j : Json) : Option DocIndex := do
  match ← j.record? ["functions", "classes", "variables", "directives"] with
  | [functions, classes, vars, directives] =>
    return ⟨← Json.orElse? [] (Json.list? FunctionDoc.ofJson?) functions,
      ← Json.orElse? [] (Json.list? ClassDoc.ofJson?) classes,
      ← Json.orElse? [] (Json.list? VariableDoc.ofJson?) vars,
      ← Json.orElse? [] (Json.list? DirectiveDoc.ofJson?) directives⟩
  | _ => none

/-- Documentation given as JSON text. Fields without a meaning are passed over unread. -/
def parse? (text : String) : Option DocIndex := (Json.scan? text).bind ofJson?

end DocIndex

end ScriptLens
