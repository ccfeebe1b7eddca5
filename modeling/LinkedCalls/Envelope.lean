import LinkedCalls.Failure

/-!
Envelopes: the answers of tools. A good answer carries data, a refusal says why; parts that amount
to nothing are left out.
-/
namespace LinkedCalls

def Place.toValue : Place → Value
  | .field name => .text name
  | .item index => .int index

def Issue.toValue (i : Issue) : Value :=
  .record [("type", .text i.cause.label), ("loc", .list (i.place.map Place.toValue)),
    ("msg", .text i.cause.message)]

def Report.toValue (r : Report) : Value :=
  .record [("error", .text (Failure.invalid r).kind), ("model", .text r.model),
    ("errors", .list (r.issues.map Issue.toValue))]

inductive Code where
  | unknownTool
  | toolError
  | unknownOperation
  | keyNotFound
  | invalidKey
  | invalidArguments
  | programNotFound
  | invalidProgram
  | unknownProgram
  | duplicateCall
  | programFailed
  | unknownCall
  | invalidCall
  | unresolvedLink
  | capabilityUnavailable
  | executionError
deriving DecidableEq

def Code.name : Code → String
  | .unknownTool => "UNKNOWN_TOOL"
  | .toolError => "TOOL_ERROR"
  | .unknownOperation => "UNKNOWN_OPERATION"
  | .keyNotFound => "KEY_NOT_FOUND"
  | .invalidKey => "INVALID_KEY"
  | .invalidArguments => "INVALID_ARGUMENTS"
  | .programNotFound => "PROGRAM_NOT_FOUND"
  | .invalidProgram => "INVALID_PROGRAM"
  | .unknownProgram => "UNKNOWN_PROGRAM"
  | .duplicateCall => "DUPLICATE_CALL"
  | .programFailed => "PROGRAM_FAILED"
  | .unknownCall => "UNKNOWN_CALL"
  | .invalidCall => "INVALID_CALL"
  | .unresolvedLink => "UNRESOLVED_LINK"
  | .capabilityUnavailable => "CAPABILITY_UNAVAILABLE"
  | .executionError => "EXECUTION_ERROR"

structure Refusal where
  message : Value
  code : Value := .null
  details : Value := .null
  cause : Option Failure := none

inductive Envelope where
  | success (data : Value) (warnings : Value := .null)
  | refused (refusal : Refusal) (tool : Option String := none)

def fieldIfAny (name : String) (v : Value) : List (String × Value) :=
  if v.truthy then [(name, v)] else []

def Refusal.validation (r : Refusal) : List (String × Value) :=
  match r.cause with
  | some (.invalid report) => [("validation", report.toValue)]
  | _ => []

def Refusal.toValue (r : Refusal) : Value :=
  .record <| ("message", r.message) :: fieldIfAny "code" r.code ++ fieldIfAny "details" r.details ++
    r.validation

/-- a refusal over issues or a malformed document has no wording of its own -/
def Refusal.hasWording (r : Refusal) : Bool :=
  match r.cause with
  | some (.invalid _) | some (.document .malformed) => false
  | _ => true

namespace Envelope

def refusal (code : Code) (message : String) (details : Value := .null)
    (cause : Option Failure := none) : Envelope :=
  .refused ⟨.text message, .text code.name, details, cause⟩

def broken (failure : Failure) : Envelope :=
  refusal .toolError failure.message .null (some failure)

def naming (tool : String) : Envelope → Envelope
  | .refused refusal _ => .refused refusal (some tool)
  | e => e

def hasWording : Envelope → Bool
  | .success .. => true
  | .refused refusal _ => refusal.hasWording

def toValue : Envelope → Value
  | .success data warnings =>
    .record <| [("ok", .bool true), ("data", data)] ++ fieldIfAny "warnings" warnings
  | .refused refusal tool =>
    .record <| [("ok", .bool false), ("error", refusal.toValue)] ++
      (tool.map fun t => ("tool", .text t)).toList

def keys (e : Envelope) : List Scalar :=
  match e.toValue with
  | .map entries => Table.keys entries
  | _ => []

/-- an answer of any origin is good if its field `ok` is truthy -/
def isSuccess (answer : Value) : Bool := ((answer.field? "ok").getD .null).truthy

end Envelope

end LinkedCalls
