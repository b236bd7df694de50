/-
AgentLoop.Tool.Spec — what a tool is called and what it takes.

* `ParamType`, `ParameterSchema`, `ToolSpec` — the description of a tool
* `ToolSpec.check` — descriptions that can be registered
* `ToolSpec.validateArguments` — arguments checked against a description,
  defaults filled in, every offending field reported
* `ToolSpec.jsonSchema` — the description as services want it
-/
import AgentLoop.Failure
import AgentLoop.Text.Blank

namespace AgentLoop

open Json (Reader)

/-- The kind of value a parameter takes. -/
inductive ParamType where
  | string
  | number
  | integer
  | boolean
  | object
  | array
deriving DecidableEq, Repr

namespace ParamType

/-- The name of a kind. -/
def name : ParamType → String
  | .string => "string"
  | .number => "number"
  | .integer => "integer"
  | .boolean => "boolean"
  | .object => "object"
  | .array => "array"

/-- The kinds by their names. -/
def names : List (String × ParamType) :=
  [("string", .string), ("number", .number), ("integer", .integer),
   ("boolean", .boolean), ("object", .object), ("array", .array)]

theorem lookup_name (t : ParamType) : names.lookup t.name = some t := by
  cases t <;> rfl

/-- Whether a value is of a kind. A whole number is a number, too. -/
def accepts : ParamType → Json → Bool
  | .string, .string _ => true
  | .number, .int _ => true
  | .number, .float _ => true
  | .integer, .int _ => true
  | .boolean, .bool _ => true
  | .object, .object _ => true
  | .array, .array _ => true
  | _, _ => false

end ParamType

/-- A parameter of a tool. A default that is null is still a default. -/
structure ParameterSchema where
  name : String
  type : ParamType
  description : String
  required : Bool
  default : Option Json
deriving Repr

namespace ParameterSchema

/-- A parameter that must be given. -/
def mandatory (name : String) (type : ParamType) (description : String) :
    ParameterSchema :=
  ⟨name, type, description, true, none⟩

/-- A parameter that may be left out. -/
def optional (name : String) (type : ParamType) (description : String) :
    ParameterSchema :=
  ⟨name, type, description, false, none⟩

/-- The same parameter with a default. -/
def withDefault (p : ParameterSchema) (value : Json) : ParameterSchema :=
  { p with default := some value }

/-- The field of a default, left out if there is none. -/
def defaultField : Option Json → Fields
  | none => []
  | some v => [("default", v)]

/-- The record of a parameter. -/
def toJson (p : ParameterSchema) : Json :=
  .object ([("name", .string p.name), ("type", .string p.type.name),
      ("description", .string p.description), ("required", .bool p.required)]
    ++ defaultField p.default)

/-- Reads a parameter; a default of null is none. -/
def reader : Reader ParameterSchema := fun n => do
  let type := Reader.oneOf ParamType.names false
  let default := Reader.value.nullable
  let g ← Json.record [.of "name" Reader.text, .of "type" type,
    .of "description" Reader.text, .of "required" Reader.flag,
    .of "default" default] n
  return ⟨← g.required "name" Reader.text, ← g.required "type" type,
    ← g.withDefault "description" Reader.text "",
    ← g.withDefault "required" Reader.flag false,
    ← g.withDefault "default" default none⟩

/-- A parameter as a property of a schema. -/
def property (p : ParameterSchema) : Json :=
  .object (Fields.ofList ([("type", .string p.type.name),
    ("description", .string p.description)] ++ defaultField p.default))

end ParameterSchema

/-- The description of a tool. -/
structure ToolSpec where
  name : String
  description : String
  parameters : List ParameterSchema
deriving Repr

/-- Why a description cannot be registered. -/
inductive SpecError where
  | blankName
  | parameterTwice (tool parameter : String)
deriving DecidableEq, Repr

/-- The reason in words. -/
def SpecError.reason : SpecError → String
  | .blankName => "tool name must not be empty"
  | .parameterTwice tool parameter =>
    "tool '" ++ tool ++ "' declares parameter '" ++ parameter ++ "' twice"

/-- What is wrong with an argument. -/
structure FieldViolation where
  field : String
  reason : String
deriving DecidableEq, Repr

namespace FieldViolation

/-- A parameter that must be given is not there. -/
def missing (name : String) : FieldViolation :=
  ⟨name, "missing required field"⟩

/-- An argument is of another kind than its parameter. -/
def wrongKind (name : String) (expected : ParamType) (value : Json) :
    FieldViolation :=
  ⟨name, "expected " ++ expected.name ++ ", got " ++ value.kindName⟩

/-- The arguments are no object. -/
def notAnObject (value : Json) : FieldViolation :=
  ⟨"$", "expected an object of arguments, got " ++ value.kindName⟩

/-- A violation in words. -/
def display (v : FieldViolation) : String :=
  "'" ++ v.field ++ "': " ++ v.reason

/-- The record of a violation. -/
def toJson (v : FieldViolation) : Json :=
  .object [("field", .string v.field), ("reason", .string v.reason)]

/-- Reads a violation. -/
def reader : Reader FieldViolation := fun n => do
  let g ← Json.record [.of "field" Reader.text, .of "reason" Reader.text] n
  return ⟨← g.required "field" Reader.text, ← g.required "reason" Reader.text⟩

end FieldViolation

namespace ToolSpec

/-- The record of a description. -/
def toJson (s : ToolSpec) : Json :=
  .object [("name", .string s.name), ("description", .string s.description),
    ("parameters", .array (s.parameters.map ParameterSchema.toJson))]

/-- Reads a description. -/
def reader : Reader ToolSpec := fun n => do
  let parameters := ParameterSchema.reader.list
  let g ← Json.record [.of "name" Reader.text, .of "description" Reader.text,
    .of "parameters" parameters] n
  return ⟨← g.required "name" Reader.text,
    ← g.required "description" Reader.text,
    ← g.withDefault "parameters" parameters []⟩

/-- The first name of a list that stands in it a second time. -/
def firstRepeated (seen : List String) : List String → Option String
  | [] => none
  | n :: rest =>
    if seen.contains n then some n else firstRepeated (n :: seen) rest

/-- Descriptions that can be registered: the name is not blank, and no
parameter is declared twice. -/
def check (s : ToolSpec) : Except SpecError Unit :=
  if Text.isBlank s.name then .error .blankName
  else match firstRepeated [] (s.parameters.map (·.name)) with
    | some p => .error (.parameterTwice s.name p)
    | none => .ok ()

/-- The description as services want it: the properties by name, and the
names that must be given. -/
def jsonSchema (s : ToolSpec) : Json :=
  let properties := s.parameters.map fun p => (p.name, p.property)
  let required := (s.parameters.filter (·.required)).map (·.name)
  .object [("properties", .object (Fields.ofList properties)),
    ("required", .ofStrings required), ("type", .string "object")]

/-- Checks an argument against its parameter: the arguments with a
default filled in, or what is wrong. Null counts as left out. -/
def checkParameter (p : ParameterSchema) (arguments : Fields) :
    Except FieldViolation Fields :=
  match (arguments.find? p.name).getD .null with
  | .null =>
    if p.required then .error (.missing p.name)
    else match p.default with
      | some v => .ok (arguments.insert p.name v)
      | none => .ok arguments
  | v => if p.type.accepts v then .ok arguments else .error (.wrongKind p.name p.type v)

/-- Checks the arguments against the parameters, one after the other. -/
def checkParameters : List ParameterSchema → Fields →
    Fields × List FieldViolation
  | [], arguments => (arguments, [])
  | p :: rest, arguments =>
    match checkParameter p arguments with
    | .ok arguments => checkParameters rest arguments
    | .error v =>
      let (arguments, vs) := checkParameters rest arguments
      (arguments, v :: vs)

/-- Arguments that a tool can be run with, or all that is wrong with them.
Null stands for no arguments; fields that no parameter declares are
kept. -/
def validateArguments (s : ToolSpec) (arguments : Json) :
    Except (List FieldViolation) Fields :=
  let given := match arguments with
    | .null => some []
    | .object fields => some fields
    | _ => none
  match given with
  | none => .error [.notAnObject arguments]
  | some fields =>
    match checkParameters s.parameters fields with
    | (filled, []) => .ok filled
    | (_, vs) => .error vs

end ToolSpec

end AgentLoop
