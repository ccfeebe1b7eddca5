import LinkedCalls.Value
import LinkedCalls.Yaml.Style

/-!
Values as documents: entries and items on lines of their own. The items of a list stand as deep as
the key they belong to; empty collections are written as brackets.
-/
namespace LinkedCalls.Yaml

def lines (indent : Nat) (texts : List (List Char)) : List Char :=
  (newLine indent).intercalate texts

/-- an entry up to its colon; keys are names and are not folded -/
def keyLayout (indent : Nat) (key : Scalar) : List Char := scalarLayout indent indent key ++ [':']

mutual

/-- a value after its key, whose line starts at `indent` and has reached `column` -/
def besideKey (indent column : Nat) : Value → List Char
  | .scalar s => ' ' :: scalarLayout (indent + 2) (column + 1) s
  | .list items =>
    if items.isEmpty then " []".toList
    else newLine indent ++ lines indent (itemLayouts indent items)
  | .map entries =>
    if entries.isEmpty then " \x7b\x7d".toList
    else newLine (indent + 2) ++ lines (indent + 2) (entryLayouts (indent + 2) entries)

def afterMark (indent : Nat) : Value → List Char
  | .scalar s => scalarLayout (indent + 2) (indent + 2) s
  | .list items =>
    if items.isEmpty then "[]".toList else lines (indent + 2) (itemLayouts (indent + 2) items)
  | .map entries =>
    if entries.isEmpty then "\x7b\x7d".toList
    else lines (indent + 2) (entryLayouts (indent + 2) entries)

def itemLayouts (indent : Nat) : List Value → List (List Char)
  | [] => []
  | v :: vs => ('-' :: ' ' :: afterMark indent v) :: itemLayouts indent vs

def entryLayouts (indent : Nat) : List (Scalar × Value) → List (List Char)
  | [] => []
  | (k, v) :: es =>
    let name := keyLayout indent k
    (name ++ besideKey indent (indent + name.length) v) :: entryLayouts indent es

end

def document (entries : List (Scalar × Value)) : List Char :=
  (if entries.isEmpty then "\x7b\x7d".toList else lines 0 (entryLayouts 0 entries)) ++ ['\n']

end LinkedCalls.Yaml
