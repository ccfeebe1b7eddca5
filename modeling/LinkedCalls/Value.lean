import LinkedCalls.Table

/-!
Values: scalars, lists and mappings. They fill the context store, pass between calls as results
and make up the answers of tools.
-/
namespace LinkedCalls

inductive Value where
  | scalar (s : Scalar)
  | list (items : List Value)
  | map (entries : List (Scalar × Value))

namespace Value

@[match_pattern] abbrev null : Value := .scalar .null
@[match_pattern] abbrev bool (b : Bool) : Value := .scalar (.bool b)
@[match_pattern] abbrev int (n : Int) : Value := .scalar (.int n)
@[match_pattern] abbrev float (x : Binary64) : Value := .scalar (.float x)
@[match_pattern] abbrev text (s : String) : Value := .scalar (.text s)

instance : Inhabited Value := ⟨null⟩

def record (fields : List (String × Value)) : Value :=
  .map (fields.map fun f => (.text f.1, f.2))

def texts (xs : List String) : Value := .list (xs.map text)

/-- a table as a list of pairs, which keeps keys that are no text -/
def pairs (t : Table Value) : Value := .list (t.map fun e => .list [.scalar e.1, e.2])

def isNull : Value → Bool
  | .scalar s => s.isNull
  | _ => false

def truthy : Value → Bool
  | .scalar s => s.truthy
  | .list items => !items.isEmpty
  | .map entries => !entries.isEmpty

def kind : Value → String
  | .scalar s => s.kind
  | .list _ => "list"
  | .map _ => "dict"

/-- only scalars are keys -/
def toKey? : Value → Option Scalar
  | .scalar s => some s
  | _ => none

def field? (v : Value) (name : String) : Option Value :=
  match v with
  | .map entries => Table.find? entries (.text name)
  | _ => none

mutual

/-- the value within a list or a mapping -/
def display : Value → String
  | .scalar s => s.display
  | .list items => "[" ++ ", ".intercalate (displayItems items) ++ "]"
  | .map entries => "\x7b" ++ ", ".intercalate (displayEntries entries) ++ "\x7d"

def displayItems : List Value → List String
  | [] => []
  | v :: vs => v.display :: displayItems vs

def displayEntries : List (Scalar × Value) → List String
  | [] => []
  | (k, v) :: es => (k.display ++ ": " ++ v.display) :: displayEntries es

end

/-- the value within a message -/
def plain : Value → String
  | .scalar s => s.plain
  | v => v.display

mutual

/-- a number stands in it that is too long to be written out -/
def isLong : Value → Bool
  | .scalar s => s.isLong
  | .list items => anyLong items
  | .map entries => anyLongEntry entries

def anyLong : List Value → Bool
  | [] => false
  | v :: vs => v.isLong || anyLong vs

def anyLongEntry : List (Scalar × Value) → Bool
  | [] => false
  | (k, v) :: es => k.isLong || v.isLong || anyLongEntry es

end

/-- how many characters or entries there are, where that can be asked -/
def length? : Value → Option Nat
  | .scalar (.text s) => some s.length
  | .scalar _ => none
  | .list items => some items.length
  | .map entries => some entries.length

end Value

end LinkedCalls
