import LinkedCalls.Binary64.Shortest

/-!
Floating point numbers as text: the shortest digits, positional from `1e-4` up to below `1e16` and
with an exponent elsewhere; and the reading of any decimal text.
-/
namespace LinkedCalls

/-- drops the zeros at the end of the digits, raising the exponent -/
def Decimal.trim (d : Decimal) : List Char × Int :=
  let cs := Nat.toDigits 10 d.digits
  let kept := (cs.reverse.dropWhile (· == '0')).reverse
  (kept, d.exponent + (cs.length - kept.length : Nat))

/-- at least two digits -/
def exponentText (n : Int) : String :=
  let cs := Nat.toDigits 10 n.natAbs
  (if n < 0 then "-" else "+") ++ String.ofList (if cs.length < 2 then '0' :: cs else cs)

/-- the digits with their point; `point` is the number of digits before it -/
def layout (digits : List Char) (point : Int) : String :=
  let n : Int := digits.length
  if -4 < point ∧ point ≤ 16 then
    if point ≤ 0 then
      "0." ++ String.ofList (List.replicate (-point).toNat '0' ++ digits)
    else if point < n then
      String.ofList (digits.take point.toNat) ++ "." ++ String.ofList (digits.drop point.toNat)
    else
      String.ofList (digits ++ List.replicate (point - n).toNat '0') ++ ".0"
  else
    let fraction := if digits.length ≤ 1 then "" else "." ++ String.ofList (digits.drop 1)
    String.ofList (digits.take 1) ++ fraction ++ "e" ++ exponentText (point - 1)

namespace Binary64

def magnitudeText (m e : Nat) : String :=
  if m = 0 then "0.0"
  else
    let (digits, exponent) := (shortest m e).trim
    layout digits (exponent + (digits.length : Int))

def text : Binary64 → String
  | .nan _ => "nan"
  | .infinite s => if s then "-inf" else "inf"
  | .finite s m e _ => (if s then "-" else "") ++ magnitudeText m e

/-- the digits at the front, single underscores between them allowed -/
def takeDigits : List Char → List Char × List Char
  | '_' :: c :: cs => if c.isDigit then takeDigits (c :: cs) else ([], '_' :: c :: cs)
  | c :: cs =>
    if c.isDigit then
      let (ds, rest) := takeDigits cs
      (c :: ds, rest)
    else ([], c :: cs)
  | [] => ([], [])

def digitsValue (cs : List Char) : Nat :=
  cs.foldl (fun n c => 10 * n + (c.toNat - '0'.toNat)) 0

def readExponent : List Char → Option Int
  | [] => some 0
  | c :: cs =>
    if c = 'e' ∨ c = 'E' then
      let (negative, cs) := match cs with
        | '-' :: cs => (true, cs)
        | '+' :: cs => (false, cs)
        | cs => (false, cs)
      match cs.head?, takeDigits cs with
      | some d, (ds, []) =>
        if d.isDigit then some (if negative then -(digitsValue ds : Int) else digitsValue ds)
        else none
      | _, _ => none
    else none

/-- an exponent far out of range is not worth its power of ten -/
def ofDigits (negative : Bool) (digits : List Char) (exponent : Int) : Binary64 :=
  let value := digitsValue digits
  let size : Int := (digits.dropWhile (· == '0')).length
  if value = 0 then ofParts negative 0 0
  else if 400 < size + exponent then .infinite negative
  else if size + exponent < -400 then ofParts negative 0 0
  else ofDecimal negative value exponent

def readMagnitude (negative : Bool) (cs : List Char) : Option Binary64 :=
  let starts := fun (cs : List Char) => (cs.head?.map Char.isDigit).getD false
  let (whole, rest) := if starts cs then takeDigits cs else ([], cs)
  let (fraction, rest) := match rest with
    | '.' :: rest => if starts rest then takeDigits rest else ([], rest)
    | rest => ([], rest)
  if whole.isEmpty && fraction.isEmpty then none
  else (readExponent rest).map fun exponent =>
    ofDigits negative (whole ++ fraction) (exponent - (fraction.length : Int))

def words : List (String × (Bool → Binary64)) :=
  [("inf", .infinite), ("infinity", .infinite), ("nan", fun _ => .nan 0)]

def ofChars? (cs : List Char) : Option Binary64 :=
  let (negative, cs) := match cs with
    | '-' :: cs => (true, cs)
    | '+' :: cs => (false, cs)
    | cs => (false, cs)
  match words.find? (fun w => w.1.toList == cs.map Char.toLower) with
  | some w => some (w.2 negative)
  | none => readMagnitude negative cs

end Binary64

end LinkedCalls
