import LinkedCalls.Resolution
import LinkedCalls.World

/-!
Running calls. One run drops the earlier result of the call, validates the call, resolves and
decodes its parameters, carries the implementation out and keeps its result. Implementations may
run loaded calls themselves; such runs are nested to a bounded depth.
-/
namespace LinkedCalls

abbrev CallRunner := Scalar → World → Except Failure Outcome × World

namespace Services

/-- every message is kept, also one that the display refuses -/
def tell (s : Services) (level text : Value) (w : World) : Except Failure Unit × World :=
  (s.display level text,
    { w.note (s.displayEvents level text) with messages := w.messages ++ [⟨level, text⟩] })

def partner (s : Services) : Except Failure (Value → Except Failure Value) :=
  match s.chat with
  | some f => .ok f
  | none => .error (.unavailable "start_chat")

def ask (s : Services) (prompt : Value) (w : World) : Except Failure Value × World :=
  match s.partner with
  | .error failure => (.error failure, w)
  | .ok f =>
    let w := w.note [.asked prompt]
    match f prompt with
    | .ok reply => (.ok reply, { w with exchanges := w.exchanges ++ [⟨prompt, reply⟩] })
    | .error failure => (.error failure, w)

end Services

namespace World

def edit (behaviour : Behaviour) (edit : Edit) (w : World) : Except Failure Bool × World :=
  let (answer, store, events) := w.store.change behaviour edit
  (answer, { w.note events with store := store })

def addCall (call : Call) (w : World) : Except Failure Unit × World :=
  match w.runner.add call with
  | .ok runner => (.ok (), { w with runner := runner })
  | .error failure => (.error failure, w)

end World

def Routine.exec (setting : Setting) (run : CallRunner) :
    Routine → World → Except Failure Value × World
  | .done v, w => (.ok v, w)
  | .fail failure, w => (.error failure, w)
  | .lookup key next, w => exec setting run (next (w.store.get key)) w
  | .edit e next, w =>
    exec setting run (next (w.edit setting.behaviour e).1) (w.edit setting.behaviour e).2
  | .tell level text next, w =>
    exec setting run (next (setting.services.tell level text w).1)
      (setting.services.tell level text w).2
  | .ask prompt next, w =>
    exec setting run (next (setting.services.ask prompt w).1) (setting.services.ask prompt w).2
  | .addCall call next, w => exec setting run (next (w.addCall call).1) (w.addCall call).2
  | .runCall id next, w => exec setting run (next (run id w).1) (run id w).2
  | .reset next, w => exec setting run next { w with runner := w.runner.reset }
  | .setFlag flag on next, w => exec setting run next { w with flags := w.flags.set on flag }
  | .note event next, w => exec setting run next (w.note [event])

/-- whether a run uses the results of the runner -/
inductive Results where
  | kept
  | none
deriving DecidableEq

namespace Results

def of (r : Results) (w : World) : Option (Table Value) :=
  match r with
  | .kept => some w.runner.results
  | .none => Option.none

def discard (r : Results) (id : String) (w : World) : World :=
  match r with
  | .kept => { w with runner := w.runner.discard id }
  | .none => w

def record (r : Results) (id : String) (result : Value) (w : World) : World :=
  match r with
  | .kept => { w with runner := w.runner.record id result }
  | .none => w

end Results

/-- everything before the implementation: the definition found and the parameters it will get -/
def Call.prepare (registry : Registry) (flags : Flags) (store : Store)
    (results : Option (Table Value)) (call : Call) :
    List Event × Except Failure (Definition × Params) :=
  match registry.get? call.operation with
  | none => ([], .error (.unknownOperation call.operation))
  | some d =>
    match d.validate flags call with
    | (events, .error failure) => (events, .error failure)
    | (events, .ok objection) =>
      match objection.filter (·.message != "") with
      | some objection => (events, .error (.invalidCall (.rejected objection)))
      | none =>
        match call.resolve flags store results with
        | .error failure => (events, .error failure)
        | .ok resolved => (events, (d.decode resolved).map fun params => (d, params))

def Definition.routine (d : Definition) (call : Call) (params : Params) : Routine :=
  match d.implementation with
  | some f => f call params
  | none => .fail (.malformedSchema (.noImplementation d.id))

/-- one run of a call, from dropping its earlier result to keeping the new one -/
def Call.run (setting : Setting) (run : CallRunner) (results : Results) (call : Call) (w : World) :
    Except Failure Value × World :=
  let w := results.discard call.id w
  match call.prepare setting.registry w.flags w.store (results.of w) with
  | (events, .error failure) => (.error failure, w.note events)
  | (events, .ok (d, params)) =>
    match (d.routine call params).exec setting run (w.note events) with
    | (.error failure, w) => (.error failure, w)
    | (.ok v, w) => (.ok v, results.record call.id v w)

def Call.failed (call : Call) (failure : Failure) : Event :=
  .log .error s!"Call {call.id} ({call.operation}) failed: {failure.message}"

/-- milliseconds between two readings -/
def elapsed (started ended : Binary64) : Binary64 := (ended.sub started).mul (.ofInt 1000)

/-- one timed run; a failure is noted and becomes the outcome -/
def Call.attempt (setting : Setting) (run : CallRunner) (call : Call) (w : World) :
    Outcome × World :=
  let (started, w) := w.readClock
  let (ending, w) := call.run setting run .kept w
  let (ended, w) := w.readClock
  let w := match ending with
    | .ok _ => w
    | .error failure => w.note [call.failed failure]
  (⟨call.id, call.operation, ending, elapsed started ended⟩, w)

/-- no call of that id is loaded; what cannot be written out fails at that -/
def unknownCall (id : Scalar) : Failure :=
  match id.written with
  | .ok name => .unknownCall name
  | .error failure => failure

namespace World

/-- runs a loaded call, nested less than `depth` deep -/
def runCallWithin (setting : Setting) : Nat → CallRunner
  | 0, _, w => (.error .nesting, w)
  | depth + 1, id, w =>
    match w.runner.call? id with
    | none => (.error (unknownCall id), w)
    | some call =>
      let (outcome, w) := call.attempt setting (runCallWithin setting depth) w
      (.ok outcome, w)

def runCall (setting : Setting) : CallRunner := runCallWithin setting (setting.room + 1)

def nestedRuns (setting : Setting) : CallRunner := runCallWithin setting setting.room

/-- one run outside the loaded calls -/
def runOperation (setting : Setting) (results : Results) (call : Call) (w : World) :
    Except Failure Value × World :=
  call.run setting (nestedRuns setting) results w

end World

/-- the outcomes of a sweep over the loaded calls, and the ids it did not get to -/
structure RunReport where
  outcomes : List Outcome
  skipped : List String

namespace RunReport

def succeeded (r : RunReport) : Bool := r.skipped.isEmpty && r.outcomes.all Outcome.success

def failures (r : RunReport) : List Outcome := r.outcomes.filter (!·.success)

def fields (r : RunReport) : List (String × Value) :=
  [("succeeded", .bool r.succeeded), ("outcomes", .list (r.outcomes.map Outcome.toValue)),
    ("skipped", .texts r.skipped)]

end RunReport

/-- the note of a sweep that stopped, unless nothing was left to skip -/
def stoppedAfter (id : String) (skipped : List String) : List Event :=
  if skipped.isEmpty then []
  else [.log .warning s!"Stopped after {id}; skipped {skipped.length} call(s)"]

def RunReport.finished (r : RunReport) : Event :=
  let failed := r.failures.length
  .log .info (s!"Program run finished: {r.outcomes.length - failed} succeeded, " ++
    s!"{failed} failed, {r.skipped.length} skipped")

namespace World

/-- runs the calls in order; after a failure the rest is skipped if the runner stops on errors -/
def sweep (setting : Setting) : List Call → World → RunReport × World
  | [], w => (⟨[], []⟩, w)
  | call :: calls, w =>
    let (outcome, w) := call.attempt setting (nestedRuns setting) w
    if !outcome.success && w.runner.stopOnError then
      let skipped := calls.map Call.id
      (⟨[outcome], skipped⟩, w.note (stoppedAfter call.id skipped))
    else
      let (report, w) := sweep setting calls w
      (⟨outcome :: report.outcomes, report.skipped⟩, w)

def runAll (setting : Setting) (w : World) : RunReport × World :=
  let (report, w) := w.sweep setting w.runner.calls
  (report, w.note [report.finished])

end World

end LinkedCalls
