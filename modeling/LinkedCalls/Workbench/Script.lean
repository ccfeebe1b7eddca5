import LinkedCalls.Builtin
import LinkedCalls.Program.Reading
import LinkedCalls.World

/-!
Definitions, checks and listeners from a script, to try the engine with. Each leaves an event
before it does its part.
-/
namespace LinkedCalls.Workbench

/-- an error of a class; one class cannot do without its argument -/
def raising (type : String) (message : Option String) : Failure :=
  if type = "UnknownOperationError" ∧ message = none then
    .raised "TypeError" (some
      "UnknownOperationError.__init__() missing 1 required positional argument: 'op_def_id'")
  else .raised type message

inductive Script where
  | value (v : Value)
  | params
  | param (name : Value)
  | raise (failure : Failure)
  | store (key value : Value)
  | lookup (key : Value)
  | delete (key : Value)
  | tell (level text : Value)
  | chat (prompt : Value)
  | addCall (source : Value)
  | runCall (id : Value)
  | reset
  | setFlag (flag : String) (on : Bool)
  | seq (steps : List Script)

def silently : Except Failure Unit → Routine := .orFail fun _ => .done .null

mutual

def Script.routine (params : Params) : Script → Routine
  | .value v => .done v
  | .params => .done (.record params)
  | .param name => .orFail (fun k =>
      match params.find? fun e => (Scalar.text e.1).same k with
      | some e => .done e.2
      | none => .fail (.missing k)) name.key
  | .raise failure => .fail failure
  | .store key value =>
    .orFail (fun k => .edit (.set k value) (.orFail fun _ => .done .null)) key.key
  | .lookup key => .orFail (fun k => .lookup k .done) key.key
  | .delete key => .orFail (fun k => .edit (.delete k) (.orFail fun b => .done (.bool b))) key.key
  | .tell level text => .tell level text silently
  | .chat prompt => .ask prompt (.orFail .done)
  | .addCall source =>
    match Call.read source with
    | .ok call => .addCall call silently
    | .error report => .fail (.invalid report)
  | .runCall id =>
    .orFail (fun k => .runCall k (.orFail fun outcome => .done outcome.toValue)) id.key
  | .reset => .reset (.done .null)
  | .setFlag name on =>
    match Flag.ofName? name with
    | some flag => .setFlag flag on (.done .null)
    | none => .fail (.unknownFlag name)
  | .seq steps => routineOf params .null steps

def routineOf (params : Params) (result : Value) : List Script → Routine
  | [] => .done result
  | s :: ss => (Script.routine params s).andThen fun v => routineOf params v ss

end

def Script.implementation (s : Script) (call : Call) (params : Params) : Routine :=
  .note (.invoked call.id params) (s.routine params)

inductive Check where
  | message (text : Option String)
  | raise (failure : Failure)
  | atMost (count : Int)
  | noLinks

def Check.verdict (params : List Param) : Check → Except Failure (Option String)
  | .message text => .ok text
  | .raise failure => .error failure
  | .atMost count =>
    .ok (if count < params.length then some s!"too many parameters: {params.length}" else none)
  | .noLinks => .ok (if params.any Param.isLinked then some "links are not allowed" else none)

def Check.inspection (c : Check) (params : List Param) : Inspection where
  events := [.inspected (params.map Param.name)]
  verdict := c.verdict params

inductive Habit where
  | record
  | plain
  | fail (text : String)
  | write (key value : Value)
  | delete (key : Value)
  | remove (listener : String)
  | add (listener : String)

structure Listener where
  name : String
  habit : Habit
  only : Option Value

/-- acts only through listeners that are known -/
def Habit.reaction (known : String → Bool) : Habit → Reaction
  | .record | .plain => .done
  | .fail text => .fail (.raised "RuntimeError" (some text))
  | .write key value => .orFail (fun k => .edit (.set k value) (.orFail fun _ => .done)) key.key
  | .delete key => .orFail (fun k => .edit (.delete k) (.orFail fun _ => .done)) key.key
  | .remove l => if known l then .detach l .done else .fail (.noKey (.text l))
  | .add l => if known l then .attach l .done else .fail (.noKey (.text l))

/-- failing listeners and those that only look on act on every change -/
def Habit.always : Habit → Bool
  | .record | .plain | .fail _ => true
  | _ => false

def Listener.concerns (l : Listener) (key : Scalar) : Bool :=
  l.habit.always ||
    match l.only with
    | none => true
    | some v => (v.toKey?.map key.same).getD false

abbrev Listeners := List Listener

namespace Listeners

def find? (ls : Listeners) (name : String) : Option Listener := List.find? (·.name == name) ls

def knows (ls : Listeners) (name : String) : Bool := (ls.find? name).isSome

def reaction (ls : Listeners) (name : String) (change : Change) : Reaction :=
  match ls.find? name with
  | none => .done
  | some l => if l.concerns change.key then l.habit.reaction ls.knows else .done

/-- the class of all listeners and the room for their changes are those of the workbench -/
def behaviour (ls : Listeners) : Behaviour where
  reaction := ls.reaction
  className := fun _ => "DriverListener"
  room := 299

def leavesTrace (ls : Listeners) (name : String) : Bool :=
  match (ls.find? name).map Listener.habit with
  | some .plain => false
  | _ => true

end Listeners

end LinkedCalls.Workbench
