import LinkedCalls.Tool.Work

/-!
The command: runs the program of a file, or the demonstration program, and reports every outcome.
-/
namespace LinkedCalls.Command

def demoOwner : String := "demo"

/-- the program of the file that the first argument names; further arguments say nothing -/
def program (read : String → Except Failure Decoded) (args : List String) :
    Except Failure Program :=
  match args with
  | [] => .ok (HelloWorld.program demoOwner ".")
  | file :: _ => (read file).bind (Program.ofYaml file)

def rule : String := String.ofList (List.replicate 50 '=')

def messageLine (m : Message) : String := s!"  [{m.level.plain}] {m.text.plain}"

def status (o : Outcome) : String := if o.success then "ok" else "FAILED"

def outcomeLine (o : Outcome) : String := s!"{o.call}: {status o} - {o.message}"

/-- the lines of a report, with the messages shown during the run -/
def lines (p : Program) (report : RunReport) (w : World) : List String :=
  [s!"Running program '{p.name}'...", rule] ++ w.messages.map messageLine ++ [rule] ++
    report.outcomes.map outcomeLine ++ report.skipped.map (fun id => s!"{id}: skipped") ++
    ["", s!"Context: {(Value.map w.store.snapshot).display}"]

structure Ending where
  text : String
  code : Nat

def world (flags : Flags) (p : Program) : World :=
  let w := World.start flags []
  { w with runner := { w.runner with calls := p.calls } }

def run (flags : Flags) (p : Program) : Ending :=
  let (report, w) := (world flags p).runAll (Host.setting {})
  ⟨String.join ((lines p report w).map (· ++ "\n")), if report.succeeded then 0 else 1⟩

end LinkedCalls.Command
