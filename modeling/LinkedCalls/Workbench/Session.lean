import LinkedCalls.Engine
import LinkedCalls.Program.Export
import LinkedCalls.Registry.Catalog
import LinkedCalls.Workbench.Script
import LinkedCalls.Workbench.Settings

/-!
A session with the engine: a registry, a store with scripted listeners and a runner, changed and
asked step by step. Each step answers a value or a failure together with the events it caused.
-/
namespace LinkedCalls.Workbench

inductive Display where
  | record
  | broken
  | logOnly
deriving DecidableEq

inductive Partner where
  | reply
  | empty
  | null
  | offline
  | agent
  | absent
deriving DecidableEq

def displayUnavailable : Failure := .raised "RuntimeError" (some "display unavailable")
def chatOffline : Failure := .raised "RuntimeError" (some "chat offline")

def Partner.answer : Partner → Option (Value → Except Failure Value)
  | .reply => some fun prompt => prompt.written.map fun prompt => .text s!"reply to {prompt}"
  | .empty => some fun _ => .ok (.text "")
  | .null => some fun _ => .ok .null
  | .offline => some fun _ => .error chatOffline
  | .agent => some ChatAgent.demo.respond
  | .absent => none

def services (display : Display) (partner : Partner) : Services where
  display := fun level text =>
    match display with
    | .record => .ok ()
    | .broken => .error displayUnavailable
    | .logOnly => do
      let _ ← level.written
      text.written.map fun _ => ()
  displayEvents := fun level text =>
    if display ≠ .logOnly then [.shown level text]
    else if level.isLong || text.isLong then []
    else messageLog level text
  chat := partner.answer

structure Session where
  registry : Registry
  services : Services
  listeners : Listeners := []
  world : World

namespace Session

def setting (s : Session) : Setting where
  registry := s.registry
  services := s.services
  behaviour := s.listeners.behaviour
  room := 149

/-- a session at its start; no given stop rule means the flag's -/
def start (builtins : Bool) (context : Table Value) (flags : Flags) (stopOnError : Option Bool)
    (display : Display) (partner : Partner) (ticks : List Binary64) : Session where
  registry := if builtins then Registry.builtin else []
  services := Workbench.services display partner
  world := {
    store := { entries := context }
    flags := flags
    runner := { stopOnError := stopOnError.getD flags.stopOnError }
    clock := { ticks := ticks } }

def sees (s : Session) : Event → Bool
  | .changed listener _ => s.listeners.leavesTrace listener
  | _ => true

end Session

inductive Step where
  | register (d : Definition)
  | registerAll (ds : List Definition)
  | registerBuiltins
  | definition (id : Value)
  | exists (id : Value)
  | ids
  | list (tag : Value)
  | validate (call : Value)
  | docs (id : Value)
  | schema
  | parameter (id name : Value)
  | set (key value : Value)
  | get (key : Value)
  | delete (key : Value)
  | has (key : Value)
  | keys
  | snapshot
  | baseSnapshot
  | clear
  | addListener (listener : Listener) (attach : Bool)
  | removeListener (name : String)
  | cacheRecord (id value : Value)
  | cacheGet (id : Value)
  | cacheHas (id : Value)
  | cacheDiscard (id : Value)
  | cacheClear
  | cacheIds
  | resolve (call : Value) (results : Bool)
  | decode (call : Value) (d : Option Definition)
  | runOperation (call : Value) (results : Bool)
  | newRunner (stopOnError : Option Bool)
  | addCall (call : Value)
  | load (program : Value)
  | loadHello (owner : Value)
  | getCall (id : Value)
  | calls
  | runCall (id : Value)
  | runAll
  | reset
  | setFlag (flag : Value) (on : Bool)
  | isEnabled (flag : Value)
  | flags
  | require (name : Value)
  | capLookup (key : Value)
  | capStore (key value : Value)
  | capShow (level text : Value)
  | capChat (prompt : Value)

abbrev Answer := Except Failure Value × Session

namespace Session

def answer (s : Session) (v : Value) : Answer := (.ok v, s)

def refuse (s : Session) (failure : Failure) : Answer := (.error failure, s)

def withWorld (s : Session) (w : World) : Session := { s with world := w }

def withRunner (s : Session) (r : Runner) : Session :=
  s.withWorld { s.world with runner := r }

def note (s : Session) (events : List Event) : Session := s.withWorld (s.world.note events)

def given {α : Type} (s : Session) (r : Except Failure α) (next : α → Answer) : Answer :=
  match r with
  | .ok x => next x
  | .error failure => s.refuse failure

/-- names are text; any other key is looked up in vain -/
def name? (key : Scalar) : Option String :=
  match key with
  | .text s => some s
  | _ => none

def definition? (s : Session) (key : Scalar) : Option Definition :=
  (name? key).bind s.registry.get?

def readCall (v : Value) : Except Failure Call := (Call.read v).mapError .invalid

def readProgram (v : Value) : Except Failure Program := (Program.read v).mapError .invalid

def counted (keys : List Scalar) : Value :=
  .list [.list (keys.map .scalar), .int keys.length]

def twice (b : Bool) : Value := .list [.bool b, .bool b]

def specValue (spec : ParamSpec) : Value :=
  .record [("name", .text spec.name), ("type", .text spec.type),
    ("description", .text spec.description), ("required", .bool spec.required),
    ("default", spec.default)]

def definitionValue (d : Definition) : Value :=
  .record [("id", .text d.id), ("description", .text d.description), ("tags", .texts d.tags),
    ("required", .texts d.requiredNames), ("parameters", .list (d.params.map specValue))]

def registering (s : Session) (r : Option Failure × Registry × List Event) (v : Value) : Answer :=
  let s := { s.note r.2.2 with registry := r.2.1 }
  match r.1 with
  | some failure => s.refuse failure
  | none => s.answer v

def parameter (s : Session) (key : Scalar) (name : Value) : Value :=
  match name, s.definition? key with
  | .text n, some d => ((d.spec? n).map ParamSpec.schema).getD .null
  | _, _ => .null

def through {α : Type} (s : Session) (r : Except Failure α × World) (value : α → Value) :
    Answer :=
  (s.withWorld r.2).given r.1 fun x => (s.withWorld r.2).answer (value x)

def edit (s : Session) (e : Edit) (value : Bool → Value) : Answer :=
  s.through (s.world.edit s.listeners.behaviour e) value

def clear (s : Session) : Answer :=
  let (answer, store, events) := s.world.store.clear s.listeners.behaviour
  s.through (answer, { s.world.note events with store := store }) fun _ => .null

def results (s : Session) : Table Value := s.world.runner.results

def withResults (s : Session) (t : Table Value) : Session :=
  s.withRunner { s.world.runner with results := t }

def resolvedValue (r : Resolved) : Value :=
  paramValue .asNull r.source.name r.value r.source.link

def resolve (s : Session) (call : Call) (kept : Bool) : Except Failure (List Resolved) :=
  call.resolve s.world.flags s.world.store (if kept then some s.results else none)

def resolution (rs : List Resolved) : Value :=
  .record [("params", .list (rs.map resolvedValue)),
    ("same", .list (rs.map fun r => .bool (!r.source.isLinked))), ("unchanged", .bool true)]

/-- of two parameters with one name the later value stays -/
def paramPairs (params : Params) : Value :=
  .pairs (Table.ofPairs (params.map fun e => (.text e.1, e.2)))

def decode (s : Session) (call : Call) (given : Option Definition) : Except Failure Value := do
  let resolved ← s.resolve call true
  match given.or (s.registry.get? call.operation) with
  | some d => (d.decode resolved).map paramPairs
  | none => .error (.noMember "NoneType" "parameter_schema")

def loading (s : Session) (program : Program) : Answer :=
  s.given (s.world.runner.load program) fun r =>
    ((s.withRunner r).note [Runner.loaded program]).answer .null

def reportValue (r : RunReport) : Value :=
  .record (r.fields ++ [("failures", .texts (r.failures.map Outcome.call))])

def callable : List String :=
  ["lookup", "store", "show_message", "start_chat", "require", "from_context_store", "__class__",
    "__delattr__", "__dir__", "__eq__", "__format__", "__ge__", "__getattribute__", "__getstate__",
    "__gt__", "__init__", "__init_subclass__", "__le__", "__lt__", "__ne__", "__new__",
    "__reduce__", "__reduce_ex__", "__repr__", "__setattr__", "__sizeof__", "__str__",
    "__subclasshook__"]

def inert : List String :=
  ["__annotations__", "__dataclass_fields__", "__dataclass_params__", "__dict__", "__doc__",
    "__match_args__", "__module__"]

def offers (s : Session) (name : String) : Bool :=
  callable.contains name && (name != "start_chat" || s.services.chat.isSome)

def requires (s : Session) (name : Value) : Except Failure Bool :=
  match name with
  | .text name =>
    if s.offers name then .ok true
    else if inert.contains name then .ok false
    else .error (.unavailable name)
  | v => .error (.notName v.kind)

def addListener (s : Session) (l : Listener) (attach : Bool) : Session :=
  let s := if s.listeners.knows l.name then s else { s with listeners := s.listeners ++ [l] }
  if attach then s.withWorld { s.world with store := s.world.store.addListener l.name } else s

def removeListener (s : Session) (name : String) : Answer :=
  if s.listeners.knows name then
    (s.withWorld { s.world with store := s.world.store.removeListener name }).answer .null
  else s.refuse (.noKey (.text name))

def step (s : Session) : Step → Answer
  | .register d =>
    s.given (s.registry.register d) fun r =>
      { s.note [Registry.registered d] with registry := r }.answer .null
  | .registerAll ds => s.registering (s.registry.registerAll ds) .null
  | .registerBuiltins => s.registering s.registry.registerBuiltins (.bool true)
  | .definition id => s.given id.key fun k =>
      s.answer (((s.definition? k).map definitionValue).getD .null)
  | .exists id => s.given id.key fun k => s.answer (twice (s.definition? k).isSome)
  | .ids => s.answer (counted (s.registry.ids.map .text))
  | .list tag => s.answer (.texts ((s.registry.tagged tag).map Definition.id))
  | .validate call => s.given (readCall call) fun call =>
      let (events, verdict) := s.registry.validate s.world.flags call
      (s.note events).given verdict fun objection =>
        (s.note events).answer ((objection.map fun o => .text o.message).getD .null)
  | .docs id => s.given id.key fun k =>
      match s.definition? k with
      | some d => s.answer d.docs
      | none => s.given k.written fun name => s.refuse (.unknownOperation name)
  | .schema => s.answer s.registry.schema
  | .parameter id name => s.given id.key fun k => s.answer (s.parameter k name)
  | .set key value => s.given key.key fun k => s.edit (.set k value) fun _ => .null
  | .get key => s.given key.key fun k => s.answer (s.world.store.get k)
  | .delete key => s.given key.key fun k => s.edit (.delete k) .bool
  | .has key => s.given key.key fun k => s.answer (twice (s.world.store.has k))
  | .keys => s.answer (counted s.world.store.keys)
  | .snapshot => s.answer (.pairs s.world.store.snapshot)
  | .baseSnapshot => s.answer (.pairs s.world.store.readKeys)
  | .clear => s.clear
  | .addListener l attach => (s.addListener l attach).answer .null
  | .removeListener name => s.removeListener name
  | .cacheRecord id value => s.given id.key fun k =>
      let s := s.withResults (s.results.insert k value)
      s.given k.written fun _ => s.answer .null
  | .cacheGet id => s.given id.key fun k =>
      match Table.find? s.results k with
      | some v => s.answer v
      | none => s.refuse (.missing k)
  | .cacheHas id => s.given id.key fun k => s.answer (twice (Table.has s.results k))
  | .cacheDiscard id =>
    s.given id.key fun k => (s.withResults (Table.erase s.results k)).answer .null
  | .cacheClear => (s.withResults []).answer .null
  | .cacheIds => s.answer (counted (Table.keys s.results))
  | .resolve call kept => s.given (readCall call) fun call =>
      s.given (s.resolve call kept) fun rs => s.answer (resolution rs)
  | .decode call d => s.given (readCall call) fun call => s.given (s.decode call d) s.answer
  | .runOperation call kept => s.given (readCall call) fun call =>
      s.through (s.world.runOperation s.setting (if kept then .kept else .none) call) id
  | .newRunner stop =>
      let stop := stop.getD s.world.flags.stopOnError
      (s.withRunner { stopOnError := stop }).answer (.bool stop)
  | .addCall call => s.given (readCall call) fun call =>
      s.through (s.world.addCall call) fun _ => .null
  | .load program => s.given (readProgram program) s.loading
  | .loadHello owner =>
      s.given owner.written fun owner =>
        s.given ((HelloWorld.checked owner ".").mapError Failure.invalid) s.loading
  | .getCall id => s.given id.key fun k =>
      s.answer (((s.world.runner.call? k).map (Call.toValue .asNull)).getD .null)
  | .calls => s.answer (.texts s.world.runner.ids)
  | .runCall id =>
    s.given id.key fun k => s.through (World.runCall s.setting k s.world) Outcome.toValue
  | .runAll =>
      let (report, w) := s.world.runAll s.setting
      (s.withWorld w).answer (reportValue report)
  | .reset => (s.withRunner s.world.runner.reset).answer .null
  | .setFlag flag on => s.given flag.flag fun flag =>
      (s.withWorld { s.world with flags := s.world.flags.set on flag }).answer .null
  | .isEnabled flag => s.given flag.flag fun flag => s.answer (.bool (s.world.flags.get flag))
  | .flags => s.answer s.world.flags.pairs
  | .require name => s.given (s.requires name) fun b => s.answer (.bool b)
  | .capLookup key => s.given key.key fun k => s.answer (s.world.store.get k)
  | .capStore key value => s.given key.key fun k => s.edit (.set k value) fun _ => .null
  | .capShow level text => s.through (s.services.tell level text s.world) fun _ => .null
  | .capChat prompt => s.through (s.services.ask prompt s.world) id

/-- one step from an empty journal, with the events that can be seen -/
def play (s : Session) (step : Step) : Except Failure Value × List Event × Session :=
  let (answer, s') := { s with world := { s.world with journal := [] } }.step step
  (answer, s'.world.journal.filter s'.sees, s')

def playAll : List Step → Session → List (Except Failure Value × List Event) × Session
  | [], s => ([], s)
  | step :: steps, s =>
    let (answer, events, s') := s.play step
    let (rest, s'') := playAll steps s'
    ((answer, events) :: rest, s'')

def summary (s : Session) : Value :=
  .record [("context", .pairs s.world.store.snapshot), ("results", .pairs s.results),
    ("calls", .texts s.world.runner.ids), ("operations", .texts s.registry.ids)]

end Session

end LinkedCalls.Workbench
