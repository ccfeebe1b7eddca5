import LinkedCalls.Server
import LinkedCalls.Workbench.Settings

/-!
A session with the server: tools are called and its state is looked at step by step. A group of
tools can be spoiled, after which it fails at every call.
-/
namespace LinkedCalls.Workbench

structure Service where
  host : Host
  spoiled : List (ToolGroup × Failure) := []
  world : World

inductive ServiceStep where
  | call (tool : String) (args : Arguments)
  | receive (tool : String) (args : Arguments)
  | catalog
  | setFlag (flag : Value) (on : Bool)
  | spoil (group : ToolGroup) (failure : Failure)
  | state

inductive ServiceAnswer where
  | direct (r : Except Failure Value)
  | wired (reply : Server.Reply)

namespace Service

def start (files : Files) (flags : Flags) (ticks : List Binary64) : Service where
  host := { files := files }
  world := World.start flags ticks

def fault? (s : Service) (g : ToolGroup) : Option Failure :=
  (s.spoiled.find? (·.1 == g)).map Prod.snd

def handlers (s : Service) (g : ToolGroup) : Handler :=
  match s.fault? g with
  | some failure => fun _ _ w => (.error failure, w)
  | none => g.handler s.host

def withWorld (s : Service) (w : World) : Service := { s with world := w }

def state (s : Service) : Value :=
  .record [("messages", .list (s.world.messages.map Message.toValue)),
    ("history", .list (s.world.exchanges.map Exchange.toValue)),
    ("context", .pairs s.world.store.snapshot), ("calls", .texts s.world.runner.ids),
    ("results", .list ((Table.keys s.world.runner.results).map .scalar))]

def step (s : Service) : ServiceStep → ServiceAnswer × Service
  | .call tool args =>
    let (e, w) := Server.dispatch s.handlers tool args s.world
    (.direct (.ok e.toValue), s.withWorld w)
  | .receive tool args =>
    let (reply, w) := Server.receive s.handlers tool args s.world
    (.wired reply, s.withWorld w)
  | .catalog => (.direct (.ok Tool.catalog), s)
  | .setFlag flag on =>
    match flag.flag with
    | .ok f =>
      (.direct (.ok .null), s.withWorld { s.world with flags := s.world.flags.set on f })
    | .error failure => (.direct (.error failure), s)
  | .spoil group failure =>
    (.direct (.ok .null), { s with spoiled := (group, failure) :: s.spoiled })
  | .state => (.direct (.ok s.state), s)

/-- only records of the log are seen from outside -/
def sees : Event → Bool
  | .log .. => true
  | _ => false

def play (s : Service) (step : ServiceStep) : ServiceAnswer × List Event × Service :=
  let (answer, s') := (s.withWorld { s.world with journal := [] }).step step
  (answer, s'.world.journal.filter sees, s')

def playAll : List ServiceStep → Service → List (ServiceAnswer × List Event)
  | [], _ => []
  | step :: steps, s =>
    let (answer, events, s') := s.play step
    (answer, events) :: playAll steps s'

end Service

end LinkedCalls.Workbench
