import LinkedCalls.Routine

/-!
The registry: definitions of operations in order of registration. A definition is taken only if
its id is fresh and its schema well formed; once taken it stays.
-/
namespace LinkedCalls

structure ParamSpec where
  name : String
  type : String
  description : String := ""
  required : Bool := false
  default : Value := .null

/-- what an operation's own check of the parameters says, with the events it leaves -/
structure Inspection where
  events : List Event := []
  verdict : Except Failure (Option String)

structure Definition where
  id : String
  description : String := ""
  params : List ParamSpec := []
  implementation : Option (Call → Params → Routine) := none
  inspect : Option (List Param → Inspection) := none
  tags : List String := []

abbrev Registry := List Definition

/-- a truth value is no number -/
def matchesType (v : Value) (type : String) : Bool :=
  match v with
  | .scalar (.text _) => type == "string"
  | .scalar (.bool _) => type == "boolean"
  | .scalar (.int _) | .scalar (.float _) => type == "number"
  | _ => false

def matchesNamed (v name : Value) : Except Failure Bool :=
  name.key.map fun k =>
    match k with
    | .text type => matchesType v type
    | _ => false

namespace Definition

def spec? (d : Definition) (name : String) : Option ParamSpec := d.params.find? (·.name == name)

def requiredNames (d : Definition) : List String :=
  (d.params.filter (·.required)).map ParamSpec.name

/-- the first fault of the specs, where `seen` are the names before them -/
def specFault (operation : String) (seen : List String) : List ParamSpec → Option SchemaFault
  | [] => none
  | spec :: specs =>
    if spec.name = "" ∨ spec.type = "" then some (.incompleteParameter operation)
    else if !parameterTypes.contains spec.type then
      some (.unknownType spec.type spec.name operation)
    else if spec.name ∈ seen then some (.duplicateParameter spec.name operation)
    else if !spec.default.isNull && !matchesType spec.default spec.type then
      some (.defaultMismatch spec.name operation spec.type)
    else specFault operation (spec.name :: seen) specs

def fault (d : Definition) : Option SchemaFault :=
  if d.id = "" then some .noId
  else if d.implementation.isNone then some (.noImplementation d.id)
  else specFault d.id [] d.params

end Definition

namespace Registry

def get? (r : Registry) (id : String) : Option Definition := r.find? (·.id == id)

def has (r : Registry) (id : String) : Bool := (r.get? id).isSome

def ids (r : Registry) : List String := r.map Definition.id

/-- those that carry a tag; the empty tag asks for all -/
def list (r : Registry) (tag : Option String) : List Definition :=
  match tag with
  | some t => if t = "" then r else r.filter (·.tags.contains t)
  | none => r

/-- those that a tag of any kind asks for; only text is carried -/
def tagged (r : Registry) (tag : Value) : List Definition :=
  match tag with
  | .text t => r.list (some t)
  | v => if v.truthy then [] else r

/-- a taken id is refused before the definition is looked at -/
def register (r : Registry) (d : Definition) : Except Failure Registry :=
  if r.has d.id then .error (.duplicateDefinition d.id)
  else
    match d.fault with
    | some fault => .error (.malformedSchema fault)
    | none => .ok (r ++ [d])

def registered (d : Definition) : Event :=
  .log .info s!"Registered operation: {d.id} ({d.params.length} parameters)"

/-- stops at the first definition that is refused and keeps those before it -/
def registerAll (r : Registry) : List Definition → Option Failure × Registry × List Event
  | [] => (none, r, [])
  | d :: ds =>
    match r.register d with
    | .error failure => (some failure, r, [])
    | .ok r' =>
      let (failure, r'', events) := registerAll r' ds
      (failure, r'', registered d :: events)

end Registry

def Inspection.objection (i : Inspection) : Except Failure (Option Objection) :=
  i.verdict.map (Option.map Objection.custom)

namespace Definition

/-- the first required parameter that is neither supplied nor has a default -/
def missing? (d : Definition) (call : Call) : Option String :=
  (d.params.find? fun spec =>
    spec.required && spec.default.isNull && (call.param? spec.name).isNone).map ParamSpec.name

def unknown? (d : Definition) (call : Call) : Option String :=
  (call.params.find? fun p => (d.spec? p.name).isNone).map Param.name

def validate (d : Definition) (flags : Flags) (call : Call) :
    List Event × Except Failure (Option Objection) :=
  match d.missing? call with
  | some name => ([], .ok (some (.missingParameter name)))
  | none =>
    match if flags.strictParameters then d.unknown? call else none with
    | some name => ([], .ok (some (.unknownParameter name d.id)))
    | none =>
      match d.inspect with
      | some inspect =>
        let inspection := inspect call.params
        (inspection.events, inspection.objection)
      | none => ([], .ok none)

end Definition

/-- problems of a call are answered as objections, not as failures -/
def Registry.validate (r : Registry) (flags : Flags) (call : Call) :
    List Event × Except Failure (Option Objection) :=
  match r.get? call.operation with
  | none => ([], .ok (some (.unknownOperation call.operation)))
  | some d => d.validate flags call

end LinkedCalls
