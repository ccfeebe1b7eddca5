import LinkedCalls.Tool.Argument

/-!
The tools, in three groups. The name of a tool begins with the word of its group.
-/
namespace LinkedCalls

inductive ToolGroup where
  | operation
  | context
  | program
deriving DecidableEq

namespace ToolGroup

def all : List ToolGroup := [.operation, .context, .program]

def word : ToolGroup → String
  | .operation => "operation"
  | .context => "context"
  | .program => "program"

def lead (g : ToolGroup) : List Char := (g.word ++ "_").toList

/-- the group that a name belongs to, also if it is the name of no tool -/
def ofName? (name : String) : Option ToolGroup := all.find? fun g => g.lead.isPrefixOf name.toList

end ToolGroup

inductive Tool where
  | operationList
  | operationDescribe
  | contextGet
  | contextSet
  | contextList
  | programLoad
  | programCalls
  | programRun
  | programRunCall
deriving DecidableEq

namespace Tool

def all : List Tool :=
  [.operationList, .operationDescribe, .contextGet, .contextSet, .contextList, .programLoad,
    .programCalls, .programRun, .programRunCall]

def group : Tool → ToolGroup
  | .operationList | .operationDescribe => .operation
  | .contextGet | .contextSet | .contextList => .context
  | .programLoad | .programCalls | .programRun | .programRunCall => .program

def name : Tool → String
  | .operationList => "operation_list"
  | .operationDescribe => "operation_describe"
  | .contextGet => "context_get"
  | .contextSet => "context_set"
  | .contextList => "context_list"
  | .programLoad => "program_load"
  | .programCalls => "program_calls"
  | .programRun => "program_run"
  | .programRunCall => "program_run_call"

def description : Tool → String
  | .operationList => "List registered operations with their parameter schemas"
  | .operationDescribe => "Describe one registered operation"
  | .contextGet => "Read the value stored under a context key"
  | .contextSet => "Store a value under a context key"
  | .contextList => "List all context keys and values"
  | .programLoad => "Load a program from a YAML file, an inline definition, or a bundled demo"
  | .programCalls => "List loaded calls in execution order"
  | .programRun => "Run all loaded calls in order"
  | .programRunCall => "Run one loaded call by id"

def demos : List String := ["hello_world"]

def defaultOwner : Value := .text "transformer"

def arguments : Tool → List Argument
  | .operationList =>
    [{ name := "tag", types := [.text], description := "Only list operations carrying this tag" }]
  | .operationDescribe =>
    [{ name := "op_id", types := [.text], description := "Operation id (e.g. 'setContext')",
       required := true }]
  | .contextGet =>
    [{ name := "key", types := [.text], description := "Context key", required := true }]
  | .contextSet =>
    [{ name := "key", types := [.text], description := "Context key", required := true },
      { name := "value", types := [.text, .number, .truth], description := "Value to store",
        required := true }]
  | .programLoad =>
    [{ name := "path", types := [.text], description := "Path to a YAML program file" },
      { name := "program", types := [.mapping],
        description := "Inline program definition (name, description, calls)" },
      { name := "demo", types := [.text], choices := demos,
        description := "Bundled demo program to load" },
      { name := "owner_id", types := [.text], description := "Call id prefix for demo programs",
        default := defaultOwner },
      { name := "replace", types := [.truth],
        description := "Discard previously loaded calls and results first",
        default := .bool false }]
  | .programRunCall =>
    [{ name := "call_id", types := [.text], description := "Call id", required := true }]
  | .contextList | .programCalls | .programRun => []

def inputSchema (t : Tool) : Value := Argument.schemaOf t.arguments

def entry (t : Tool) : Value :=
  .record [("name", .text t.name), ("description", .text t.description),
    ("inputSchema", t.inputSchema)]

def catalog : Value := .list (all.map entry)

def ofName? (name : String) : Option Tool := all.find? (·.name == name)

end Tool

def ToolGroup.tool? (g : ToolGroup) (name : String) : Option Tool :=
  (Tool.all.filter (·.group == g)).find? (·.name == name)

end LinkedCalls
