import LinkedCalls.Builtin
import LinkedCalls.Engine
import LinkedCalls.Registry.Catalog
import LinkedCalls.Tool.Loading

/-!
What the tools do to the world of a host. A host notes the messages it shows, chats through the
demonstration agent, and nothing listens to its store.
-/
namespace LinkedCalls

structure Host where
  registry : Registry := Registry.builtin
  files : Files := []
  /-- how deep runs may be nested; the built-in operations make none -/
  room : Nat := 0

namespace Host

def services : Services where
  display := fun _ _ => .ok ()
  displayEvents := messageLog
  chat := some ChatAgent.demo.respond

def setting (host : Host) : Setting where
  registry := host.registry
  services := services
  behaviour := .none
  room := host.room

end Host

def World.start (flags : Flags) (ticks : List Binary64) : World where
  flags := flags
  runner := { stopOnError := flags.stopOnError }
  clock := { ticks := ticks }

/-- an answer, or what the tool failed with, and the world after it -/
abbrev Deed := Except Failure Envelope × World

namespace Tool

/-- the docs of an operation by any key; only text names one -/
def docsOf (r : Registry) (id : Scalar) : Except Failure Envelope :=
  match id with
  | .text s =>
    match r.docs s with
    | .ok docs => .ok (.success docs)
    | .error failure => .ok (.refusal .unknownOperation failure.message)
  | id => id.written.map fun name =>
      .refusal .unknownOperation (Failure.unknownOperation name).message

def keyAndValue (key : Scalar) (value : Value) : Envelope :=
  .success (.record [("key", .scalar key), ("value", value)])

def written (args : Arguments) (key : Value) : Except Failure (Scalar × Value) := do
  let value ← args.demand "value"
  return (← key.key, value)

def messagesSince (before after : World) : Value :=
  .list ((after.messages.drop before.messages.length).map Message.toValue)

def codeOf (type : String) : Code :=
  if type = "UnknownOperationError" then .unknownOperation
  else if type = "InvalidCallError" then .invalidCall
  else if type = "UnresolvedLinkError" then .unresolvedLink
  else if type = "CapabilityUnavailableError" then .capabilityUnavailable
  else .executionError

def outcomeEnvelope (outcome : Outcome) (messages : Value) : Envelope :=
  let data := Value.record (outcome.fields ++ [("messages", messages)])
  match outcome.errorType with
  | none => .success data
  | some type => .refusal (codeOf type) outcome.message data

end Tool

namespace World

open Tool

def reply (w : World) (r : Except Failure Envelope) : Deed := (r, w)

def operationList (w : World) (r : Registry) (args : Arguments) : Deed :=
  let listed := r.tagged ((args.find? "tag").getD .null)
  w.reply <| .ok <| .success <| .record [("count", .int listed.length),
    ("operations", .list (listed.map Definition.docs))]

def operationDescribe (w : World) (r : Registry) (args : Arguments) : Deed :=
  w.reply do
    let id ← args.demand "op_id"
    docsOf r (← id.key)

def contextGet (w : World) (args : Arguments) : Deed :=
  w.reply do
    let key ← args.demand "key"
    let key ← key.key
    if w.store.has key then return keyAndValue key (w.store.get key)
    else return .refusal .keyNotFound s!"Context key not found: {← key.written}"

def contextSet (w : World) (setting : Setting) (args : Arguments) : Deed :=
  match args.demand "key" with
  | .error failure => w.reply (.error failure)
  | .ok key =>
    if !key.truthy then w.reply (.ok (.refusal .invalidKey "Context key must not be empty"))
    else
      match written args key with
      | .error failure => w.reply (.error failure)
      | .ok (key, value) =>
        let (answer, after) := w.edit setting.behaviour (.set key value)
        after.reply (answer.map fun _ => keyAndValue key value)

def contextList (w : World) : Deed :=
  w.reply <| .ok <| .success <| .record [("count", .int w.store.size),
    ("values", .map w.store.snapshot)]

def cleared (w : World) (replace : Bool) : World :=
  if replace then { w with runner := w.runner.reset } else w

def loadProgram (w : World) (program : Program) : Deed :=
  match w.runner.load program with
  | .error failure => w.reply (.ok (.refusal .duplicateCall failure.message))
  | .ok runner =>
    ({ w with runner := runner }.note [Runner.loaded program]).reply <| .ok <| .success <|
      .record [("program", .text program.name),
        ("loaded_calls", .texts (program.calls.map Call.id)),
        ("total_calls", .int runner.calls.length)]

def programLoad (files : Files) (w : World) (args : Arguments) : Deed :=
  match chosen files args with
  | .error failure => w.reply (.error failure)
  | .ok (.error refused) => w.reply (.ok refused)
  | .ok (.ok (program, events)) =>
    ((w.note events).cleared (args.gives "replace")).loadProgram program

def callEntry (w : World) (call : Call) : Value :=
  .record [("call_id", .text call.id), ("op_def_id", .text call.operation),
    ("description", .text call.description), ("has_result", .bool (w.runner.hasResult call.id))]

def programCalls (w : World) : Deed :=
  let calls := w.runner.calls
  w.reply <| .ok <| .success <| .record [("count", .int calls.length),
    ("calls", .list (calls.map w.callEntry))]

def programRun (w : World) (setting : Setting) : Deed :=
  let (report, after) := w.runAll setting
  let data := Value.record (report.fields ++ [("messages", messagesSince w after)])
  after.reply <| .ok <|
    if report.succeeded then .success data else .refusal .programFailed "Program run failed" data

def programRunCall (w : World) (setting : Setting) (args : Arguments) : Deed :=
  match (args.demand "call_id").bind Value.key with
  | .error failure => w.reply (.error failure)
  | .ok id =>
    match w.runCall setting id with
    | (.ok outcome, after) => after.reply (.ok (outcomeEnvelope outcome (messagesSince w after)))
    | (.error (.unknownCall call), after) =>
      after.reply (.ok (.refusal .unknownCall (Failure.unknownCall call).message))
    | (.error failure, after) => after.reply (.error failure)

end World

def Tool.work (host : Host) (tool : Tool) (args : Arguments) (w : World) : Deed :=
  match tool with
  | .operationList => w.operationList host.registry args
  | .operationDescribe => w.operationDescribe host.registry args
  | .contextGet => w.contextGet args
  | .contextSet => w.contextSet host.setting args
  | .contextList => w.contextList
  | .programLoad => w.programLoad host.files args
  | .programCalls => w.programCalls
  | .programRun => w.programRun host.setting
  | .programRunCall => w.programRunCall host.setting args

end LinkedCalls
