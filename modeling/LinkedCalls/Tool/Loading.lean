import LinkedCalls.Envelope
import LinkedCalls.Program.Document
import LinkedCalls.Program.HelloWorld
import LinkedCalls.Tool.Catalog

/-!
The program that the arguments of a tool name: in a file, written out, or a demonstration program.
Exactly one of the three must be given.
-/
namespace LinkedCalls

def Arguments.demand (args : Arguments) (name : String) : Except Failure Value :=
  match args.find? name with
  | some v => .ok v
  | none => .error (.noKey (.text name))

namespace Tool

def sources (args : Arguments) : List String := ["path", "program", "demo"].filter args.gives

/-- a program with the events that its reading leaves, or the answer that refuses it -/
abbrev Loading := Except Failure (Except Envelope (Program × List Event))

/-- failures that find fault with the program itself -/
def blamesProgram : Failure → Bool
  | .invalid _ | .notMapping _ | .halves _ | .path .embeddedNull _ | .longNumber => true
  | .document (.undecodable _) => true
  | .document fault => fault.kind == "ValueError"
  | _ => false

/-- a missing file and a faulty program are refused; other failures stay failures -/
def refusing (r : Except Failure (Program × List Event)) : Loading :=
  match r with
  | .ok program => .ok (.ok program)
  | .error (.path .missing file) =>
    .ok (.error (.refusal .programNotFound s!"Program file not found: {file}"))
  | .error failure =>
    if blamesProgram failure then
      .ok (.error (.refusal .invalidProgram s!"Invalid program: {failure.message}" .null failure))
    else .error failure

def loadFile (files : Files) (path : Value) : Except Failure (Program × List Event) :=
  match path with
  | .text file => (Program.load files file).map fun p => (p, [p.loadedFrom file])
  | v => .error (.notPath v.kind)

def readInline (source : Value) : Except Failure (Program × List Event) :=
  ((Program.read source).mapError Failure.invalid).map fun p => (p, [])

def readDemo (args : Arguments) : Except Failure (Program × List Event) := do
  let owner ← ((args.find? "owner_id").getD Tool.defaultOwner).written
  ((HelloWorld.checked owner ".").mapError Failure.invalid).map fun p => (p, [])

def demo (args : Arguments) (name : Value) : Loading := do
  let key ← name.key
  if Tool.demos.any fun d => (Scalar.text d).same key then refusing (readDemo args)
  else
    match key.written with
    | .ok name => return .error (.refusal .unknownProgram s!"Unknown demo program: {name}")
    | .error failure => refusing (.error failure)

def chosen (files : Files) (args : Arguments) : Loading :=
  match sources args with
  | ["path"] => refusing ((args.demand "path").bind (loadFile files))
  | ["program"] => refusing ((args.demand "program").bind readInline)
  | ["demo"] => (args.demand "demo").bind (demo args)
  | _ => .ok (.error (.refusal .invalidArguments
      "Provide exactly one of 'path', 'program' or 'demo'"))

end Tool

end LinkedCalls
