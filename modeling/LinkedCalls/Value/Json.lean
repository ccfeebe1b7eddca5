import LinkedCalls.Value

/-!
Values as indented JSON text in ASCII. Keys that are no text are written as the text of their
JSON form; not-a-number and the infinities have words of their own.
-/
namespace LinkedCalls

def jsonUnit (n : Nat) : List Char := '\\' :: 'u' :: hexDigits 4 n

def jsonChar (c : Char) : List Char :=
  let n := c.toNat
  if c = '"' ∨ c = '\\' then ['\\', c]
  else if c = '\n' then ['\\', 'n']
  else if c = '\r' then ['\\', 'r']
  else if c = '\t' then ['\\', 't']
  else if n = 8 then ['\\', 'b']
  else if n = 12 then ['\\', 'f']
  else if 0x20 ≤ n ∧ n ≤ 0x7E then [c]
  else if n < 0x10000 then jsonUnit n
  else jsonUnit (0xD800 + (n - 0x10000) / 0x400) ++ jsonUnit (0xDC00 + (n - 0x10000) % 0x400)

def jsonCode (n : Nat) : List Char :=
  if Half.isNumber n then jsonUnit n else jsonChar (Char.ofNat n)

def jsonQuoted (s : String) : String :=
  String.ofList ('"' :: ((Half.codes s.toList).flatMap jsonCode ++ ['"']))

namespace Scalar

def jsonFloat : Binary64 → String
  | .nan _ => "NaN"
  | .infinite s => if s then "-Infinity" else "Infinity"
  | x => x.text

def json : Scalar → String
  | .null => "null"
  | .bool b => if b then "true" else "false"
  | .int n => toString n
  | .float x => jsonFloat x
  | .text s => jsonQuoted s

def jsonKey : Scalar → String
  | .text s => jsonQuoted s
  | s => jsonQuoted s.json

end Scalar

namespace Value

def jsonBreak (depth : Nat) : String := "\n" ++ String.ofList (List.replicate (2 * depth) ' ')

/-- members on lines of their own between brackets -/
def jsonBlock (depth : Nat) (opening closing : String) (members : List String) : String :=
  if members.isEmpty then opening ++ closing
  else
    opening ++ jsonBreak (depth + 1) ++ ("," ++ jsonBreak (depth + 1)).intercalate members ++
      jsonBreak depth ++ closing

mutual

def json (depth : Nat) : Value → String
  | .scalar s => s.json
  | .list items => jsonBlock depth "[" "]" (jsonItems (depth + 1) items)
  | .map entries => jsonBlock depth "\x7b" "\x7d" (jsonEntries (depth + 1) entries)

def jsonItems (depth : Nat) : List Value → List String
  | [] => []
  | v :: vs => json depth v :: jsonItems depth vs

def jsonEntries (depth : Nat) : List (Scalar × Value) → List String
  | [] => []
  | (k, v) :: es => (k.jsonKey ++ ": " ++ json depth v) :: jsonEntries depth es

end

end Value

end LinkedCalls
