import LinkedCalls.Registry.Basic

/-!
What the registry tells about its operations: the schema of each parameter, the input schema of an
operation, and one schema for all calls.
-/
namespace LinkedCalls

def ParamSpec.schema (spec : ParamSpec) : Value :=
  .record <| [("type", .text spec.type), ("description", .text spec.description)] ++
    if spec.default.isNull then [] else [("default", spec.default)]

namespace Definition

def inputSchema (d : Definition) : Value :=
  .record [("type", .text "object"),
    ("properties", .record (d.params.map fun spec => (spec.name, spec.schema))),
    ("required", .texts d.requiredNames)]

def docs (d : Definition) : Value :=
  .record [("id", .text d.id), ("description", .text d.description),
    ("input_schema", d.inputSchema), ("tags", .texts d.tags)]

def callSchema (d : Definition) : Value :=
  .record [("type", .text "object"),
    ("properties", .record [("op_def_id", .record [("const", .text d.id)]),
      ("params", d.inputSchema)]),
    ("required", .texts ["op_def_id"])]

end Definition

namespace Registry

def docs (r : Registry) (id : String) : Except Failure Value :=
  match r.get? id with
  | some d => .ok d.docs
  | none => .error (.unknownOperation id)

def schema (r : Registry) : Value :=
  .record [("type", .text "object"), ("oneOf", .list (r.map Definition.callSchema)),
    ("description", .text "Registered operations")]

end Registry

end LinkedCalls
