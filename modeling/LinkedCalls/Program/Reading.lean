import LinkedCalls.Program.Basic
import LinkedCalls.Program.Issue
import LinkedCalls.Program.Source
import LinkedCalls.Text.Utf8

/-!
Reading programs, calls, parameters and links. All fields of a record are read and all their
issues collected in field order; what ties fields together is checked only when every field is
good. Unknown fields are ignored and nothing is converted, except that bytes stand for their text
in text fields.
-/
namespace LinkedCalls

abbrev Checked (β : Type) := Except (List Issue) β

namespace Checked

variable {β γ : Type}

def refuse (cause : Cause) : Checked β := .error [⟨cause, []⟩]

def within (step : Place) : Checked β → Checked β
  | .ok x => .ok x
  | .error issues => .error (issues.map (Issue.within step))

def both : Checked β → Checked γ → Checked (β × γ)
  | .ok x, .ok y => .ok (x, y)
  | .ok _, .error js => .error js
  | .error is, .ok _ => .error is
  | .error is, .error js => .error (is ++ js)

def items (f : γ → Checked β) (n : Nat) : List γ → Checked (List β)
  | [] => .ok []
  | x :: xs => (both (within (.item n) (f x)) (items f (n + 1) xs)).map fun p => p.1 :: p.2

end Checked

namespace Reading

variable {α : Type} [Source α]

inductive Empty where
  | allowed
  | refused
deriving DecidableEq

/-- where text may not be empty its length is looked at, and halves of characters show -/
def ofText (rule : Empty) (s : String) : Checked String :=
  if rule = .refused ∧ Half.isIn s then .refuse .notUnicode
  else if rule = .refused ∧ s = "" then .refuse .tooShort
  else .ok s

def text (rule : Empty) (x : α) : Checked String :=
  match Source.shape x with
  | .text s => ofText rule s
  | .bytes bs =>
    match decodeUtf8 bs with
    | .ok cs => ofText rule (String.ofList cs)
    | .error _ => .refuse .notUnicode
  | _ => .refuse .notText

def optionalText (x : α) : Checked (Option String) :=
  match Source.shape x with
  | .null => .ok none
  | _ => (text .allowed x).map some

def list {β : Type} (f : α → Checked β) (x : α) : Checked (List β) :=
  match Source.shape x with
  | .items xs => Checked.items f 0 xs
  | _ => .refuse .notList

/-- the literal of a parameter; all four kinds are reported when none fits -/
def literal (x : α) : Checked Scalar :=
  match Source.shape x with
  | .null => .ok .null
  | .bool b => .ok (.bool b)
  | .int n => .ok (.int n)
  | .float y => .ok (.float y)
  | .text s => .ok (.text s)
  | _ => .error
    [⟨.notBool, [.field "bool"]⟩, ⟨.notInt, [.field "int"]⟩,
     ⟨.notFloat, [.field "float"]⟩, ⟨.notText, [.field "str"]⟩]

abbrev Entries (α : Type) := List (String × α)

def entry? (entries : Entries α) (name : String) : Option α :=
  (entries.find? (·.1 == name)).map Prod.snd

def required {β : Type} (entries : Entries α) (name : String) (f : α → Checked β) : Checked β :=
  .within (.field name) <|
    match entry? entries name with
    | some x => f x
    | none => .refuse .missing

def optional {β : Type} (entries : Entries α) (name : String) (default : β)
    (f : α → Checked β) : Checked β :=
  .within (.field name) <|
    match entry? entries name with
    | some x => f x
    | none => .ok default

def record {β : Type} (model : String) (f : Entries α → Checked β) (x : α) : Checked β :=
  match Source.shape x with
  | .fields entries => f entries
  | _ => .refuse (.notRecord model)

/-- a link with the name of the parameter it is for -/
structure NamedLink where
  param : String
  link : Link
deriving DecidableEq

def contextKeyTag : String := "contextKey"
def operationTag : String := "operation"

def contextKeyLink (entries : Entries α) : Checked NamedLink :=
  (Checked.both (required entries "param_name" (text .allowed))
    (required entries "context_key" (text .refused))).map fun p => ⟨p.1, .contextKey p.2⟩

def operationLink (entries : Entries α) : Checked NamedLink :=
  (Checked.both (required entries "param_name" (text .allowed))
    (required entries "target_call_id" (text .refused))).map fun p => ⟨p.1, .operation p.2⟩

def link (x : α) : Checked NamedLink :=
  match Source.shape x with
  | .fields entries =>
    match entry? entries "type" with
    | none => .refuse .tagMissing
    | some tag =>
      match Source.shape tag with
      | .text s =>
        if s = contextKeyTag then .within (.field s) (contextKeyLink entries)
        else if s = operationTag then .within (.field s) (operationLink entries)
        else .refuse (.tagUnknown (Half.replaced s))
      | _ => .refuse (.tagUnknown (Source.plain tag))
  | _ => .refuse .notMapping

def optionalLink (x : α) : Checked (Option NamedLink) :=
  match Source.shape x with
  | .null => .ok none
  | _ => (link x).map some

/-- the tag of a link that is of one kind; it may be left out -/
def tag (expected : String) (entries : Entries α) : Checked Unit :=
  optional entries "type" () fun x =>
    match Source.shape x with
    | .text s => if s = expected then .ok () else .refuse (.notLiteral expected)
    | _ => .refuse (.notLiteral expected)

def linkOf (model expected : String) (fields : Entries α → Checked NamedLink) :
    α → Checked NamedLink :=
  record model fun entries => (Checked.both (tag expected entries) (fields entries)).map Prod.snd

/-- a link must name its own parameter -/
def tieParam (name : String) (value : Scalar) : Option NamedLink → Checked Param
  | none => .ok ⟨name, value, none⟩
  | some l =>
    if l.param = name then .ok ⟨name, value, some l.link⟩
    else .refuse (.linkElsewhere name (Half.replaced l.param))

def paramModel : String := "OperationParam"
def callModel : String := "OperationCall"
def programModel : String := "Program"

def param : α → Checked Param :=
  record paramModel fun entries => do
    let (name, value, l) ← Checked.both (required entries "name" (text .refused)) <|
      Checked.both (optional entries "value" Scalar.null literal)
        (optional entries "link" none optionalLink)
    tieParam name value l

/-- the first name that was seen before -/
def firstRepeat (seen : List String) : List String → Option String
  | [] => none
  | s :: ss => if s ∈ seen then some s else firstRepeat (s :: seen) ss

/-- parameter names are distinct within a call -/
def tieCall (c : Call) : Checked Call :=
  match firstRepeat [] (c.params.map Param.name) with
  | some name => .refuse (.duplicateParam name c.id)
  | none => .ok c

def call : α → Checked Call :=
  record callModel fun entries => do
    let (id, operation, description, params) ←
      Checked.both (required entries "call_id" (text .refused)) <|
      Checked.both (required entries "op_def_id" (text .refused)) <|
      Checked.both (optional entries "description" "" (text .allowed))
        (optional entries "params" [] (list param))
    tieCall ⟨id, operation, description, params⟩

/-- call ids are distinct within a program -/
def tieProgram (p : Program) : Checked Program :=
  match firstRepeat [] (p.calls.map Call.id) with
  | some id => .refuse (.duplicateCall id p.name)
  | none => .ok p

def program : α → Checked Program :=
  record programModel fun entries => do
    let (name, description, calls) ← Checked.both (required entries "name" (text .refused)) <|
      Checked.both (optional entries "description" none optionalText)
        (optional entries "calls" [] (list call))
    tieProgram ⟨name, description, calls⟩

def report {β : Type} (model : String) : Checked β → Except Report β
  | .ok x => .ok x
  | .error issues => .error ⟨model, issues⟩

end Reading

namespace Param
def read {α : Type} [Source α] (x : α) : Except Report Param :=
  Reading.report Reading.paramModel (Reading.param x)
end Param

namespace Call
def read {α : Type} [Source α] (x : α) : Except Report Call :=
  Reading.report Reading.callModel (Reading.call x)
end Call

namespace Program
def read {α : Type} [Source α] (x : α) : Except Report Program :=
  Reading.report Reading.programModel (Reading.program x)
end Program

def readContextKeyLink {α : Type} [Source α] (x : α) : Except Report Reading.NamedLink :=
  let model := "ContextKeyLink"
  Reading.report model (Reading.linkOf model Reading.contextKeyTag Reading.contextKeyLink x)

def readOperationLink {α : Type} [Source α] (x : α) : Except Report Reading.NamedLink :=
  let model := "OperationLink"
  Reading.report model (Reading.linkOf model Reading.operationTag Reading.operationLink x)

end LinkedCalls
