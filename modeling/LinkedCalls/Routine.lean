import LinkedCalls.Flags
import LinkedCalls.Program.Basic
import LinkedCalls.Store

/-!
Implementations as data: what an operation does through the host, step by step, each step with
what follows its answer. An implementation that goes on after a failed step can be told from one
that does not.
-/
namespace LinkedCalls

abbrev Params := List (String × Value)

structure Outcome where
  call : String
  operation : String
  ending : Except Failure Value
  duration : Binary64

namespace Outcome

def success (o : Outcome) : Bool :=
  match o.ending with
  | .ok _ => true
  | .error _ => false

def result (o : Outcome) : Value :=
  match o.ending with
  | .ok v => v
  | .error _ => .null

def message (o : Outcome) : String :=
  match o.ending with
  | .ok _ => s!"{o.operation} completed"
  | .error failure => failure.message

def errorType (o : Outcome) : Option String :=
  match o.ending with
  | .ok _ => none
  | .error failure => some failure.kind

/-- the fields of an outcome; a null result is left out -/
def fields (o : Outcome) : List (String × Value) :=
  [("call_id", .text o.call), ("op_def_id", .text o.operation), ("success", .bool o.success),
    ("message", .text o.message), ("duration_ms", .float o.duration.toThousandths)] ++
  (if o.result.isNull then [] else [("result", o.result)]) ++
  (match o.errorType with
    | some type => if type = "" then [] else [("error_type", .text type)]
    | none => [])

def toValue (o : Outcome) : Value := .record o.fields

end Outcome

inductive Routine where
  | done (result : Value)
  | fail (failure : Failure)
  | lookup (key : Scalar) (next : Value → Routine)
  | edit (edit : Edit) (next : Except Failure Bool → Routine)
  | tell (level text : Value) (next : Except Failure Unit → Routine)
  | ask (prompt : Value) (next : Except Failure Value → Routine)
  | addCall (call : Call) (next : Except Failure Unit → Routine)
  | runCall (id : Scalar) (next : Except Failure Outcome → Routine)
  | reset (next : Routine)
  | setFlag (flag : Flag) (on : Bool) (next : Routine)
  | note (event : Event) (next : Routine)

def Routine.orFail {α : Type} (next : α → Routine) : Except Failure α → Routine
  | .ok x => next x
  | .error failure => .fail failure

/-- runs the first routine to its result, then the second -/
def Routine.andThen : Routine → (Value → Routine) → Routine
  | .done v, next => next v
  | .fail failure, _ => .fail failure
  | .lookup key k, next => .lookup key fun v => (k v).andThen next
  | .edit e k, next => .edit e fun r => (k r).andThen next
  | .tell level text k, next => .tell level text fun r => (k r).andThen next
  | .ask prompt k, next => .ask prompt fun r => (k r).andThen next
  | .addCall call k, next => .addCall call fun r => (k r).andThen next
  | .runCall id k, next => .runCall id fun r => (k r).andThen next
  | .reset k, next => .reset (k.andThen next)
  | .setFlag flag on k, next => .setFlag flag on (k.andThen next)
  | .note event k, next => .note event (k.andThen next)

end LinkedCalls
