import LinkedCalls.Program.HelloWorld
import LinkedCalls.Registry.Basic

/-!
The operations every registry of a host starts with: writing the context, showing a dialog and
asking the chat partner.
-/
namespace LinkedCalls

/-- the decoded value of that name goes on; without one the routine fails -/
def Params.require (params : Params) (name : String) (next : Value → Routine) : Routine :=
  match params.find? (·.1 == name) with
  | some e => next e.2
  | none => .fail (.noKey (.text name))

def Params.getD (params : Params) (name : String) (default : Value) : Value :=
  ((params.find? (·.1 == name)).map Prod.snd).getD default

namespace Builtin

def setContextRoutine (_ : Call) (params : Params) : Routine :=
  params.require "key" fun key => params.require "value" fun value =>
    .orFail (fun k => .edit (.set k value) (.orFail fun _ => .done value)) key.key

def setContext : Definition where
  id := setContextId
  description := "Sets a context key value"
  params := [
    { name := "key", type := "string", description := "Context key name", required := true },
    { name := "value", type := "string", description := "Context key value", required := true }]
  implementation := some setContextRoutine
  tags := ["context"]

def levels : List String := ["Info", "Warning", "Error"]

def defaultLevel : Value := .text "Info"

def showDialogRoutine (_ : Call) (params : Params) : Routine :=
  params.require "text" fun text =>
    .tell (params.getD "level" defaultLevel) text (.orFail fun _ => .done .null)

/-- a literal that is not one of the levels -/
def wrongLevel (p : Param) : Bool :=
  p.name == "level" && !p.isLinked && !p.value.isNull &&
    !levels.any fun level => (Scalar.text level).same p.value

def inspectDialog (params : List Param) : Inspection where
  verdict :=
    match params.find? wrongLevel with
    | none => .ok none
    | some p => p.value.written.map fun value =>
        some (s!"Invalid dialog level: {value} (expected one of " ++ ", ".intercalate levels ++ ")")

def showDialog : Definition where
  id := showDialogId
  description := "Shows a dialog to the user"
  params := [
    { name := "text", type := "string", description := "Message to show", required := true },
    { name := "level", type := "string", description := "Dialog level", default := defaultLevel }]
  implementation := some showDialogRoutine
  inspect := some inspectDialog
  tags := ["ui"]

def defaultPrompt : Value := .text "write a poem"

/-- a reply that amounts to nothing is a failure, and so is one whose length is not known -/
def startChatRoutine (_ : Call) (params : Params) : Routine :=
  .ask (params.getD "prompt" defaultPrompt) <| .orFail fun reply =>
    if !reply.truthy then .fail .emptyReply
    else if reply.length?.isSome then .done reply
    else .fail (.noLength reply.kind)

def startChat : Definition where
  id := startChatId
  description := "Starts a chat session with a specific prompt"
  params := [
    { name := "prompt", type := "string", description := "Message to send to chat",
      default := defaultPrompt }]
  implementation := some startChatRoutine
  tags := ["chat"]

def groups : List (String × List Definition) :=
  [("context", [setContext]), ("dialog", [showDialog]), ("chat", [startChat])]

def definitions : List Definition := groups.flatMap Prod.snd

end Builtin

namespace Registry

def groupRegistered (group : String) (ds : List Definition) : Event :=
  .log .info s!"Registered {ds.length} {group} operations"

def registerGroups (r : Registry) :
    List (String × List Definition) → Option Failure × Registry × List Event
  | [] => (none, r, [])
  | (group, ds) :: groups =>
    match r.registerAll ds with
    | (some failure, r', events) => (some failure, r', events)
    | (none, r', events) =>
      let (failure, r'', more) := registerGroups r' groups
      (failure, r'', events ++ groupRegistered group ds :: more)

def registerBuiltins (r : Registry) : Option Failure × Registry × List Event :=
  r.registerGroups Builtin.groups

def builtin : Registry := Builtin.definitions

end Registry

end LinkedCalls
