import LinkedCalls.Program.Issue
import LinkedCalls.Value
import LinkedCalls.Yaml.Fault

/-!
Everything that can go wrong, by cause. Each failure belongs to a class that answers name, and has
one message.
-/
namespace LinkedCalls

inductive SchemaFault where
  | noId
  | noImplementation (operation : String)
  | incompleteParameter (operation : String)
  | unknownType (type param operation : String)
  | duplicateParameter (param operation : String)
  | defaultMismatch (param operation type : String)
deriving DecidableEq

/-- what a call's operation has against it -/
inductive Objection where
  | unknownOperation (operation : String)
  | missingParameter (param : String)
  | unknownParameter (param operation : String)
  | custom (text : String)
deriving DecidableEq

inductive CallFault where
  | rejected (objection : Objection)
  | missingParameter (param : String)
  | wrongType (param operation expected got : String)
deriving DecidableEq

inductive LinkFault where
  | disabled (param call : String)
  | noResult (param target : String)
deriving DecidableEq

inductive PathFault where
  | missing
  | isDirectory
  | notDirectory
  | nameTooLong
  | embeddedNull
deriving DecidableEq

/-- a key that can be written out -/
abbrev LegibleKey := { key : Scalar // key.isLong = false }

def LegibleKey.text (name : String) : LegibleKey := ⟨.text name, Scalar.isLong_text name⟩

inductive Failure where
  | duplicateDefinition (operation : String)
  | malformedSchema (fault : SchemaFault)
  | unknownOperation (operation : String)
  | invalidCall (fault : CallFault)
  | unresolvedLink (fault : LinkFault)
  | emptyReply
  | duplicateCall (call : String)
  | unknownCall (call : String)
  | unavailable (capability : String)
  | noKey (key : LegibleKey)
  | unknownFlag (name : String)
  | unhashable (kind : String)
  | noLength (kind : String)
  | noMember (kind member : String)
  | notPath (kind : String)
  | notName (kind : String)
  | notText (kind : String)
  | variableName
  | noVariableName
  | invalid (report : Report)
  | document (fault : Yaml.Fault)
  | path (fault : PathFault) (path : String)
  | halves (row : Half.Row)
  | notMapping (path : String)
  | longNumber
  | nesting
  | raised (type : String) (message : Option String)
deriving DecidableEq

def parameterTypes : List String := ["string", "boolean", "number"]

def SchemaFault.message : SchemaFault → String
  | .noId => "Operation id is required"
  | .noImplementation operation => s!"Operation {operation} has no implementation"
  | .incompleteParameter operation => s!"Invalid parameter schema in operation {operation}"
  | .unknownType type param operation =>
    s!"Invalid parameter type '{type}' for '{param}' in operation {operation} (expected: " ++
      ", ".intercalate parameterTypes ++ ")"
  | .duplicateParameter param operation =>
    s!"Duplicate parameter '{param}' in operation {operation}"
  | .defaultMismatch param operation type =>
    s!"Default value for '{param}' in operation {operation} is not a {type}"

def Objection.message : Objection → String
  | .unknownOperation operation => s!"Unknown operation type: {operation}"
  | .missingParameter param => s!"Missing required parameter: {param}"
  | .unknownParameter param operation => s!"Unknown parameter '{param}' for operation '{operation}'"
  | .custom text => text

def CallFault.message : CallFault → String
  | .rejected objection => s!"Invalid operation: {objection.message}"
  | .missingParameter param => s!"Missing required parameter: {param}"
  | .wrongType param operation expected got =>
    s!"Parameter '{param}' of operation '{operation}' expects {expected}, got {got}"

def LinkFault.message : LinkFault → String
  | .disabled param call =>
    s!"Operation links are disabled; cannot resolve '{param}' in call {call}"
  | .noResult param target =>
    s!"Parameter '{param}' links to call '{target}', which has not produced a result"

def PathFault.kind : PathFault → String
  | .missing => "FileNotFoundError"
  | .isDirectory => "IsADirectoryError"
  | .notDirectory => "NotADirectoryError"
  | .nameTooLong => "OSError"
  | .embeddedNull => "ValueError"

def PathFault.message (path : String) : PathFault → String
  | .missing => s!"[Errno 2] No such file or directory: {quoted path}"
  | .isDirectory => s!"[Errno 21] Is a directory: {quoted path}"
  | .notDirectory => s!"[Errno 20] Not a directory: {quoted path}"
  | .nameTooLong => s!"[Errno 36] File name too long: {quoted path}"
  | .embeddedNull => "embedded null byte"

def Half.Row.message (row : Half.Row) : String :=
  let place :=
    if row.first = row.last then
      s!"character '{String.ofList (hexEscape row.half)}' in position {row.first}"
    else s!"characters in position {row.first}-{row.last}"
  s!"'utf-8' codec can't encode {place}: surrogates not allowed"

/-- a raised error of a class whose message is the quoted argument -/
def quotesArgument (type : String) : Bool := type == "KeyError"

def raisedMessage (type text : String) : String :=
  if quotesArgument type then quoted text
  else if type = "UnknownOperationError" then (Objection.unknownOperation text).message
  else text

/-- stands for the wording of the library that validates, which answers replace by the report -/
def validationText : String := "<validation>"

namespace Failure

def kind : Failure → String
  | .duplicateDefinition _ => "DuplicateDefinitionError"
  | .malformedSchema _ => "MalformedSchemaError"
  | .unknownOperation _ => "UnknownOperationError"
  | .invalidCall _ => "InvalidCallError"
  | .unresolvedLink _ => "UnresolvedLinkError"
  | .emptyReply => "OperationExecutionError"
  | .duplicateCall _ => "DuplicateCallError"
  | .unknownCall _ => "UnknownCallError"
  | .unavailable _ => "CapabilityUnavailableError"
  | .noKey _ | .unknownFlag _ => "KeyError"
  | .unhashable _ | .noLength _ | .notPath _ | .notName _ | .notText _ => "TypeError"
  | .noMember .. => "AttributeError"
  | .invalid _ => "ValidationError"
  | .document fault => fault.kind
  | .path fault _ => fault.kind
  | .notMapping _ | .longNumber | .variableName => "ValueError"
  | .noVariableName => "OSError"
  | .halves _ => "UnicodeEncodeError"
  | .nesting => "RecursionError"
  | .raised type _ => type

def message : Failure → String
  | .duplicateDefinition operation => s!"Operation {operation} already registered"
  | .malformedSchema fault => fault.message
  | .unknownOperation operation => (Objection.unknownOperation operation).message
  | .invalidCall fault => fault.message
  | .unresolvedLink fault => fault.message
  | .emptyReply => "Failed to send chat request"
  | .duplicateCall call => s!"Call {call} already added"
  | .unknownCall call => s!"Unknown call: {call}"
  | .unavailable capability => s!"Capability '{capability}' is not available"
  | .noKey key => key.1.display
  | .unknownFlag name =>
    quoted (s!"Unknown feature flag: '{name}'. Available flags: " ++
      "resolve_operation_links, stop_on_error, strict_parameters")
  | .unhashable kind => s!"unhashable type: '{kind}'"
  | .noLength kind => s!"object of type '{kind}' has no len()"
  | .noMember kind member => s!"'{kind}' object has no attribute '{member}'"
  | .notPath kind => s!"expected str, bytes or os.PathLike object, not {kind}"
  | .notName kind => s!"attribute name must be string, not '{kind}'"
  | .notText kind => s!"str expected, not {kind}"
  | .variableName => "illegal environment variable name"
  | .noVariableName => "[Errno 22] Invalid argument"
  | .invalid _ => validationText
  | .document fault => fault.message
  | .path fault file => fault.message file
  | .halves row => row.message
  | .notMapping file => s!"Program file {file} must contain a mapping"
  | .longNumber =>
    "Exceeds the limit (4300 digits) for integer string conversion; " ++
      "use sys.set_int_max_str_digits() to increase the limit"
  | .nesting => "maximum recursion depth exceeded"
  | .raised type (some text) => raisedMessage type text
  | .raised _ none => ""

end Failure

/-- a key is not there; what cannot be written out is no key that a failure names -/
def Failure.missing (key : Scalar) : Failure :=
  if h : key.isLong = false then .noKey ⟨key, h⟩ else .longNumber

/-- the scalar within a message, where it can be written out -/
def Scalar.written (s : Scalar) : Except Failure String :=
  if s.isLong then .error .longNumber else .ok s.plain

def Value.written (v : Value) : Except Failure String :=
  if v.isLong then .error .longNumber else .ok v.plain

/-- the key for a value, which must be a scalar -/
def Value.key (v : Value) : Except Failure Scalar :=
  match v.toKey? with
  | some key => .ok key
  | none => .error (.unhashable v.kind)

end LinkedCalls
