import LinkedCalls.Tool.Work
import LinkedCalls.Value.Json

/-!
The server: finds the tool for a name and answers with an envelope, whatever happens. A failure of
a tool becomes a refusal; so does the failure of a whole group, which then names the tool.
-/
namespace LinkedCalls

abbrev Handler := String → Arguments → World → Deed

/-- a failure within a tool is noted and answered -/
def Tool.guarded (host : Host) (tool : Tool) (args : Arguments) (w : World) : Envelope × World :=
  match tool.work host args w with
  | (.ok e, w) => (e, w)
  | (.error failure, w) =>
    (.broken failure, w.note [.log .error s!"Error in {tool.name}: {failure.message}"])

def ToolGroup.unknown (g : ToolGroup) (name : String) : Envelope :=
  .refusal .unknownTool s!"Unknown {g.word} tool: {name}"

def ToolGroup.handler (host : Host) (g : ToolGroup) : Handler := fun name args w =>
  match g.tool? name with
  | none => (.ok (g.unknown name), w)
  | some tool => ((tool.guarded host args w).map .ok id)

namespace Server

def unknown (name : String) : Envelope :=
  (Envelope.refusal .unknownTool s!"Unknown tool: {name}").naming name

def dispatch (handlers : ToolGroup → Handler) (name : String) (args : Arguments) (w : World) :
    Envelope × World :=
  match ToolGroup.ofName? name with
  | none => (unknown name, w)
  | some g =>
    match handlers g name args w with
    | (.ok e, w) => (e, w)
    | (.error failure, w) =>
      ((Envelope.broken failure).naming name,
        w.note [.log .error s!"Error executing tool {name}: {failure.message}"])

def call (host : Host) : String → Arguments → World → Envelope × World :=
  dispatch (ToolGroup.handler host)

/-- an answer over the wire: text, or the envelope where it has no wording of its own -/
inductive Reply where
  | text (text : String) (isError : Bool)
  | envelope (e : Envelope)

/-- a number that cannot be written out is an error of the reply itself -/
def reply (e : Envelope) : Reply :=
  if e.toValue.isLong then .text Failure.longNumber.message true
  else if e.hasWording then .text (e.toValue.json 0) false
  else .envelope e

/-- the arguments of a known tool are checked before it is called -/
def receive (handlers : ToolGroup → Handler) (name : String) (args : Arguments) (w : World) :
    Reply × World :=
  match (Tool.ofName? name).bind fun tool => Argument.complaintAbout? tool.arguments args with
  | some complaint =>
    match complaint.written with
    | .ok message => (.text s!"Input validation error: {message}" true, w)
    | .error failure => (.text failure.message true, w)
  | none => ((dispatch handlers name args w).map reply id)

end Server

end LinkedCalls
