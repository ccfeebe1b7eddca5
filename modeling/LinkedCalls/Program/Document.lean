import LinkedCalls.Files
import LinkedCalls.Program.Export
import LinkedCalls.Store
import LinkedCalls.Yaml.Document
import LinkedCalls.Yaml.Layout

/-!
Programs as documents, and the loading of programs from files.
-/
namespace LinkedCalls.Program

def isWritable (p : Program) : Bool :=
  p.calls.all fun c => c.params.all fun param => !param.value.isLong

def toYaml (p : Program) : String :=
  match p.toValue .omitted with
  | .map entries => String.ofList (Yaml.document entries)
  | _ => ""

/-- the program that the document of a file describes, which must be a mapping -/
def ofYaml (file : String) (content : Decoded) : Except Failure Program := do
  let doc ← (Yaml.Document.read content).mapError .document
  if doc.isMapping then (Program.read doc.part).mapError .invalid
  else .error (.notMapping (Path.normal file))

/-- whether its mapping is read as the program itself -/
def mappingReads (p : Program) : Bool :=
  match read (p.toValue .omitted) with
  | .ok q => q == p
  | .error _ => false

def documentReads (p : Program) : Bool :=
  match ofYaml "" ⟨p.toYaml.toList, none⟩ with
  | .ok q => q.same p
  | .error _ => false

def loadedFrom (p : Program) (file : String) : Event :=
  .log .info s!"Loaded program '{p.name}' ({p.calls.length} calls) from {Path.normal file}"

def load (files : Files) (file : String) : Except Failure Program := do
  ofYaml file (← files.read file)

end LinkedCalls.Program
