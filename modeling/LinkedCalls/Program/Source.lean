import LinkedCalls.Value

/-!
What a program is read from. A source shows one layer of itself at a time, so values and the
documents of a markup language, with their shared parts, are read by the same rules.
-/
namespace LinkedCalls

/-- the outermost layer; only fields with a name can be asked for -/
inductive Shape (α : Type) where
  | null
  | bool (b : Bool)
  | int (n : Int)
  | float (x : Binary64)
  | text (s : String)
  | bytes (bs : List UInt8)
  | items (xs : List α)
  | fields (entries : List (String × α))
  | other

class Source (α : Type) where
  shape : α → Shape α
  /-- the source within a message -/
  plain : α → String

namespace Value

def namedEntries : List (Scalar × Value) → List (String × Value)
  | [] => []
  | (.text s, v) :: es => (s, v) :: namedEntries es
  | _ :: es => namedEntries es

def shape : Value → Shape Value
  | .null => .null
  | .bool b => .bool b
  | .int n => .int n
  | .float x => .float x
  | .text s => .text s
  | .list items => .items items
  | .map entries => .fields (namedEntries entries)

end Value

instance : Source Value := ⟨Value.shape, Value.plain⟩

end LinkedCalls
