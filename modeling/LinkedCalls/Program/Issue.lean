/-!
What is wrong with the source of a program: each issue has a cause and the place it stands at.
-/
namespace LinkedCalls

inductive Cause where
  | missing
  | notText
  | notUnicode
  | tooShort
  | notList
  | notRecord (model : String)
  | notBool
  | notInt
  | notFloat
  | notMapping
  | tagMissing
  | tagUnknown (tag : String)
  | notLiteral (expected : String)
  | linkElsewhere (param named : String)
  | duplicateParam (param call : String)
  | duplicateCall (call program : String)
deriving DecidableEq

inductive Place where
  | field (name : String)
  | item (index : Nat)
deriving DecidableEq

structure Issue where
  cause : Cause
  place : List Place
deriving DecidableEq

/-- the issues of one record, in the order of its fields -/
structure Report where
  model : String
  issues : List Issue
deriving DecidableEq

def Issue.within (step : Place) (i : Issue) : Issue := { i with place := step :: i.place }

namespace Cause

def label : Cause → String
  | .missing => "missing"
  | .notText => "string_type"
  | .notUnicode => "string_unicode"
  | .tooShort => "string_too_short"
  | .notList => "list_type"
  | .notRecord _ => "model_type"
  | .notBool => "bool_type"
  | .notInt => "int_type"
  | .notFloat => "float_type"
  | .notMapping => "model_attributes_type"
  | .tagMissing => "union_tag_not_found"
  | .tagUnknown _ => "union_tag_invalid"
  | .notLiteral _ => "literal_error"
  | .linkElsewhere .. | .duplicateParam .. | .duplicateCall .. => "value_error"

def message : Cause → String
  | .missing => "Field required"
  | .notText => "Input should be a valid string"
  | .notUnicode =>
    "Input should be a valid string, unable to parse raw data as a unicode string"
  | .tooShort => "String should have at least 1 character"
  | .notList => "Input should be a valid list"
  | .notRecord model => s!"Input should be a valid dictionary or instance of {model}"
  | .notBool => "Input should be a valid boolean"
  | .notInt => "Input should be a valid integer"
  | .notFloat => "Input should be a valid number"
  | .notMapping => "Input should be a valid dictionary or object to extract fields from"
  | .tagMissing => "Unable to extract tag using discriminator 'type'"
  | .tagUnknown tag =>
    s!"Input tag '{tag}' found using 'type' does not match any of the expected tags: " ++
      "'contextKey', 'operation'"
  | .notLiteral expected => s!"Input should be '{expected}'"
  | .linkElsewhere param named =>
    s!"Value error, Link for parameter '{param}' names parameter '{named}'"
  | .duplicateParam param call => s!"Value error, Duplicate parameter '{param}' in call '{call}'"
  | .duplicateCall call program =>
    s!"Value error, Duplicate call id '{call}' in program '{program}'"

end Cause

end LinkedCalls
