import LinkedCalls.ChatAgent
import LinkedCalls.Registry.Basic

/-!
The state that calls run in, and the services of the host around it. The state holds the context
store, the flags, the loaded calls with their results, the clock, and what the user was shown.
-/
namespace LinkedCalls

/-- a clock that goes on by the next tick at each reading and stands when none is left -/
structure Clock where
  now : Binary64 := .zero
  ticks : List Binary64 := []

def Clock.read (c : Clock) : Binary64 × Clock :=
  match c.ticks with
  | [] => (c.now, c)
  | t :: ts => (c.now.add t, ⟨c.now.add t, ts⟩)

/-- the call whose id is a key, which may be no text -/
def callWithId (calls : List Call) (id : Scalar) : Option Call :=
  match id with
  | .text s => calls.find? (·.id == s)
  | _ => none

/-- the call of a program whose id is any value; only scalars can be looked up -/
def Program.find (p : Program) (id : Value) : Except Failure (Option Call) :=
  id.key.map (callWithId p.calls)

/-- the loaded calls in order, and the last result of each call that has one -/
structure Runner where
  calls : List Call := []
  results : Table Value := []
  stopOnError : Bool := true

namespace Runner

def ids (r : Runner) : List String := r.calls.map Call.id

def call? (r : Runner) (id : Scalar) : Option Call := callWithId r.calls id

def has (r : Runner) (id : String) : Bool := r.calls.any (·.id == id)

def add (r : Runner) (call : Call) : Except Failure Runner :=
  if r.has call.id then .error (.duplicateCall call.id)
  else .ok { r with calls := r.calls ++ [call] }

/-- adds all calls of a program or none -/
def load (r : Runner) (program : Program) : Except Failure Runner :=
  match program.calls.find? fun call => r.has call.id with
  | some call => .error (.duplicateCall call.id)
  | none => .ok { r with calls := r.calls ++ program.calls }

def reset (r : Runner) : Runner := { r with calls := [], results := [] }

def hasResult (r : Runner) (id : String) : Bool := Table.has r.results (.text id)

def discard (r : Runner) (id : String) : Runner :=
  { r with results := Table.erase r.results (.text id) }

def record (r : Runner) (id : String) (result : Value) : Runner :=
  { r with results := Table.insert r.results (.text id) result }

def loaded (program : Program) : Event :=
  .log .info s!"Loaded program '{program.name}' ({program.calls.length} calls)"

end Runner

structure Message where
  level : Value
  text : Value

def Message.toValue (m : Message) : Value := .record [("level", m.level), ("text", m.text)]

structure World where
  store : Store := {}
  flags : Flags := .allOn
  runner : Runner := {}
  clock : Clock := {}
  messages : List Message := []
  exchanges : List Exchange := []
  journal : List Event := []

namespace World

def note (w : World) (events : List Event) : World := { w with journal := w.journal ++ events }

def readClock (w : World) : Binary64 × World :=
  (w.clock.read.1, { w with clock := w.clock.read.2 })

end World

/-- what the host offers: a display that may refuse, and a partner to chat with, if any -/
structure Services where
  display : Value → Value → Except Failure Unit
  displayEvents : Value → Value → List Event
  chat : Option (Value → Except Failure Value)

/-- what stays the same while calls run; `room` is how deep runs may be nested -/
structure Setting where
  registry : Registry
  services : Services
  behaviour : Behaviour
  room : Nat

def messageLog (level text : Value) : List Event :=
  [.log .info s!"[{level.plain}] {text.plain}"]

end LinkedCalls
