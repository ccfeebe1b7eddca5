import LinkedCalls.Registry.Basic

/-!
From the parameters of a call to the values its implementation gets. Resolution replaces the value
of each linked parameter by what stands in the store or in the results now; decoding checks the
values against the schema and fills in defaults.
-/
namespace LinkedCalls

structure Resolved where
  source : Param
  value : Value

/-- what a link to a result stands for; `results` is `none` where no results are kept -/
def resolveResult (flags : Flags) (results : Option (Table Value)) (call : Call) (param : Param)
    (target : String) : Except Failure Value :=
  if flags.operationLinks then
    match results.bind fun t => Table.find? t (.text target) with
    | some v => .ok v
    | none => .error (.unresolvedLink (.noResult param.name target))
  else .error (.unresolvedLink (.disabled param.name call.id))

def resolveParam (flags : Flags) (store : Store) (results : Option (Table Value)) (call : Call)
    (param : Param) : Except Failure Resolved :=
  match param.link with
  | none => .ok ⟨param, .scalar param.value⟩
  | some (.contextKey key) => .ok ⟨param, store.get (.text key)⟩
  | some (.operation target) =>
    (resolveResult flags results call param target).map fun v => ⟨param, v⟩

def resolveAll (f : Param → Except Failure Resolved) :
    List Param → Except Failure (List Resolved)
  | [] => .ok []
  | p :: ps =>
    match f p with
    | .error failure => .error failure
    | .ok r => (resolveAll f ps).map (r :: ·)

def Call.resolve (flags : Flags) (store : Store) (results : Option (Table Value)) (call : Call) :
    Except Failure (List Resolved) :=
  resolveAll (resolveParam flags store results call) call.params

/-- the last supplied value of that name, null if there is none -/
def suppliedValue (supplied : List Resolved) (name : String) : Value :=
  ((supplied.reverse.find? (·.source.name == name)).map Resolved.value).getD .null

namespace ParamSpec

def effective (spec : ParamSpec) (supplied : List Resolved) : Value :=
  let v := suppliedValue supplied spec.name
  if v.isNull then spec.default else v

end ParamSpec

namespace Definition

/-- the entry of one spec: none for an optional parameter without a value -/
def decodeSpec (d : Definition) (supplied : List Resolved) (spec : ParamSpec) :
    Except Failure (Option (String × Value)) :=
  let v := spec.effective supplied
  if v.isNull then
    if spec.required then .error (.invalidCall (.missingParameter spec.name)) else .ok none
  else if matchesType v spec.type then .ok (some (spec.name, v))
  else .error (.invalidCall (.wrongType spec.name d.id spec.type v.kind))

def decodeSpecs (d : Definition) (supplied : List Resolved) :
    List ParamSpec → Except Failure Params
  | [] => .ok []
  | spec :: specs =>
    match d.decodeSpec supplied spec with
    | .error failure => .error failure
    | .ok entry => (decodeSpecs d supplied specs).map (entry.toList ++ ·)

def decode (d : Definition) (supplied : List Resolved) : Except Failure Params :=
  d.decodeSpecs supplied d.params

end Definition

end LinkedCalls
