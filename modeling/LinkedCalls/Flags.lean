import LinkedCalls.Text.Case

/-!
The feature flags. Each is on unless the environment sets its variable to something other than
`true`, in any case.
-/
namespace LinkedCalls

structure Flags where
  operationLinks : Bool
  stopOnError : Bool
  strictParameters : Bool
deriving DecidableEq

inductive Flag where
  | operationLinks
  | stopOnError
  | strictParameters
deriving DecidableEq

namespace Flag

def all : List Flag := [.operationLinks, .stopOnError, .strictParameters]

def name : Flag → String
  | .operationLinks => "resolve_operation_links"
  | .stopOnError => "stop_on_error"
  | .strictParameters => "strict_parameters"

def environmentName : Flag → String
  | .operationLinks => "TRANSFORMER_OPERATION_LINKS"
  | .stopOnError => "TRANSFORMER_STOP_ON_ERROR"
  | .strictParameters => "TRANSFORMER_STRICT_PARAMS"

def ofName? (name : String) : Option Flag := all.find? (·.name == name)

end Flag

namespace Flags

def allOn : Flags := ⟨true, true, true⟩

def get (flags : Flags) : Flag → Bool
  | .operationLinks => flags.operationLinks
  | .stopOnError => flags.stopOnError
  | .strictParameters => flags.strictParameters

def set (flags : Flags) (on : Bool) : Flag → Flags
  | .operationLinks => { flags with operationLinks := on }
  | .stopOnError => { flags with stopOnError := on }
  | .strictParameters => { flags with strictParameters := on }

def isOn (text : String) : Bool := lower text == "true"

/-- a variable that is not set counts as `true` -/
def ofEnvironment (environment : String → Option String) : Flags :=
  let on := fun flag : Flag => ((environment flag.environmentName).map isOn).getD true
  ⟨on .operationLinks, on .stopOnError, on .strictParameters⟩

end Flags

end LinkedCalls
