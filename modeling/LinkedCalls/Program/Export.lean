import LinkedCalls.Program.Reading

/-!
Programs as mappings, with the fields in a fixed order. Absent parts are left out or written as
null.
-/
namespace LinkedCalls

inductive Absent where
  | omitted
  | asNull
deriving DecidableEq

def optionalField (absent : Absent) (name : String) (value : Value) : List (String × Value) :=
  if value.isNull && absent == .omitted then [] else [(name, value)]

def Link.toValue (param : String) : Link → Value
  | .contextKey key =>
    .record [("type", .text Reading.contextKeyTag), ("param_name", .text param),
      ("context_key", .text key)]
  | .operation target =>
    .record [("type", .text Reading.operationTag), ("param_name", .text param),
      ("target_call_id", .text target)]

def linkValue (param : String) : Option Link → Value
  | some l => l.toValue param
  | none => .null

def paramValue (absent : Absent) (name : String) (value : Value) (link : Option Link) : Value :=
  .record <| ("name", .text name) :: optionalField absent "value" value ++
    optionalField absent "link" (linkValue name link)

def Param.toValue (absent : Absent) (p : Param) : Value :=
  paramValue absent p.name (.scalar p.value) p.link

def Call.toValue (absent : Absent) (c : Call) : Value :=
  .record [("call_id", .text c.id), ("op_def_id", .text c.operation),
    ("description", .text c.description), ("params", .list (c.params.map (Param.toValue absent)))]

def Program.toValue (absent : Absent) (p : Program) : Value :=
  let description : Value := match p.description with
    | some s => .text s
    | none => .null
  .record <| ("name", .text p.name) :: optionalField absent "description" description ++
    [("calls", .list (p.calls.map (Call.toValue absent)))]

end LinkedCalls
