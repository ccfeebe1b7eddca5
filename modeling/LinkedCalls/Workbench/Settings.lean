import LinkedCalls.Failure
import LinkedCalls.Flags

/-!
The flags, set and asked step by step under a given environment.
-/
namespace LinkedCalls

def Value.flag (v : Value) : Except Failure Flag := do
  let key ← v.key
  match key with
  | .text name =>
    match Flag.ofName? name with
    | some flag => .ok flag
    | none => .error (.unknownFlag name)
  | key => do .error (.unknownFlag (← key.written))

def Flags.pairs (flags : Flags) : Value :=
  .list (Flag.all.map fun flag => .list [.text flag.name, .bool (flags.get flag)])

def Flags.assign (flags : Flags) : List (String × Bool) → Except Failure Flags
  | [] => .ok flags
  | (name, on) :: rest =>
    match (Value.text name).flag with
    | .ok flag => Flags.assign (flags.set on flag) rest
    | .error failure => .error failure

def Table.ofValues : List (Value × Value) → Except Failure (Table Value)
  | [] => .ok []
  | (k, v) :: rest => do
    let key ← k.key
    return (key, v) :: (← Table.ofValues rest)

namespace Workbench

abbrev Environment := List (String × String)

namespace Environment

def find? (env : Environment) (name : String) : Option String :=
  (List.find? (·.1 == name) env).map Prod.snd

def entry (name : String) (value : Value) : Except Failure (String × String) :=
  match value with
  | .text text =>
    if name.toList.contains '\x00' || text.toList.contains '\x00' then
      .error (.path .embeddedNull name)
    else if name.toList.contains '=' then .error .variableName
    else if name = "" then .error .noVariableName
    else .ok (name, text)
  | v => .error (.notText v.kind)

def ofPairs (pairs : List (String × Value)) : Except Failure Environment :=
  pairs.mapM fun e => entry e.1 e.2

end Environment

inductive SettingStep where
  | isEnabled (flag : Value)
  | setFlag (flag : Value) (on : Bool)
  | flags
  | variableOn (name default : Value)
  | changeCopy (flag : Value)

def readVariable (env : Environment) (name default : Value) : Except Failure Value :=
  match name with
  | .text name =>
    match env.find? name, default with
    | some text, _ => .ok (.bool (Flags.isOn text))
    | none, .text text => .ok (.bool (Flags.isOn text))
    | none, v => .error (.noMember v.kind "lower")
  | v => .error (.notText v.kind)

/-- a copy of the flags takes any key, and the flags do not change with it -/
def SettingStep.play (env : Environment) (flags : Flags) :
    SettingStep → Except Failure Value × Flags
  | .isEnabled flag => (flag.flag.map fun f => .bool (flags.get f), flags)
  | .setFlag flag on =>
    match flag.flag with
    | .ok f => (.ok .null, flags.set on f)
    | .error failure => (.error failure, flags)
  | .flags => (.ok flags.pairs, flags)
  | .variableOn name default => (readVariable env name default, flags)
  | .changeCopy flag => (flag.key.map fun _ => .null, flags)

def playSettings (env : Environment) : List SettingStep → Flags → List (Except Failure Value)
  | [], _ => []
  | step :: steps, flags =>
    (step.play env flags).1 :: playSettings env steps (step.play env flags).2

end Workbench

end LinkedCalls
