import LinkedCalls.Failure

/-!
Arguments of tools: what may be passed under which name, as a schema and as a check. An absent
argument is complained about before one of a wrong kind.
-/
namespace LinkedCalls

abbrev Arguments := Table Value

def Arguments.find? (args : Arguments) (name : String) : Option Value :=
  Table.find? args (.text name)

/-- whether an argument is there and amounts to something -/
def Arguments.gives (args : Arguments) (name : String) : Bool :=
  ((args.find? name).map Value.truthy).getD false

inductive ArgumentType where
  | text
  | number
  | truth
  | mapping
deriving DecidableEq

namespace ArgumentType

def name : ArgumentType → String
  | .text => "string"
  | .number => "number"
  | .truth => "boolean"
  | .mapping => "object"

/-- a truth value is no number -/
def admits : ArgumentType → Value → Bool
  | .text, .scalar (.text _) => true
  | .number, .scalar (.int _) => true
  | .number, .scalar (.float _) => true
  | .truth, .scalar (.bool _) => true
  | .mapping, .map _ => true
  | _, _ => false

end ArgumentType

structure Argument where
  name : String
  types : List ArgumentType
  description : String
  choices : List String := []
  default : Value := .null
  required : Bool := false

inductive Complaint where
  | absent (name : String)
  | wrongType (value : Value) (types : List ArgumentType)
  | noChoice (value : Value) (choices : List String)

def Complaint.message : Complaint → String
  | .absent name => s!"{quoted name} is a required property"
  | .wrongType value types =>
    s!"{value.display} is not of type " ++ ", ".intercalate (types.map fun t => quoted t.name)
  | .noChoice value choices => s!"{value.display} is not one of {(Value.texts choices).display}"

def Complaint.value : Complaint → Value
  | .absent _ => .null
  | .wrongType value _ | .noChoice value _ => value

def Complaint.written (c : Complaint) : Except Failure String :=
  if c.value.isLong then .error .longNumber else .ok c.message

namespace Argument

def typesValue (a : Argument) : Value :=
  match a.types with
  | [t] => .text t.name
  | ts => .texts (ts.map ArgumentType.name)

def schema (a : Argument) : Value :=
  .record <| ("type", a.typesValue) ::
    (if a.choices.isEmpty then [] else [("enum", .texts a.choices)]) ++
    [("description", .text a.description)] ++
    (if a.default.isNull then [] else [("default", a.default)])

def isChoice (a : Argument) (v : Value) : Bool :=
  match v with
  | .text s => a.choices.contains s
  | _ => false

def complaint? (a : Argument) (v : Value) : Option Complaint :=
  if !a.types.any (·.admits v) then some (.wrongType v a.types)
  else if !a.choices.isEmpty && !a.isChoice v then some (.noChoice v a.choices)
  else none

def schemaOf (arguments : List Argument) : Value :=
  let required := (arguments.filter (·.required)).map Argument.name
  .record <| [("type", .text "object"),
    ("properties", .record (arguments.map fun a => (a.name, a.schema)))] ++
    if required.isEmpty then [] else [("required", .texts required)]

def absent? (arguments : List Argument) (args : Arguments) : Option Complaint :=
  (arguments.find? fun a => a.required && (args.find? a.name).isNone).map fun a => .absent a.name

/-- the complaint about the argument whose name comes last in the order of characters -/
def wrong? (args : Arguments) : List Argument → Option (String × Complaint)
  | [] => none
  | a :: as =>
    match (args.find? a.name).bind a.complaint?, wrong? args as with
    | none, later => later
    | some c, none => some (a.name, c)
    | some c, some later => if a.name < later.1 then some later else some (a.name, c)

def complaintAbout? (arguments : List Argument) (args : Arguments) : Option Complaint :=
  (absent? arguments args).or ((wrong? args arguments).map Prod.snd)

end Argument

end LinkedCalls
