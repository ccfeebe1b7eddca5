import LinkedCalls.Scalar
import LinkedCalls.Text.Case
import LinkedCalls.Text.Digit
import LinkedCalls.Yaml.Fault
import LinkedCalls.Yaml.Tag

/-!
Numbers and truth values of scalars. Underscores between digits count for nothing; places of base
sixty are parted by colons.
-/
namespace LinkedCalls.Yaml

def digitValue (c : Char) : Option Nat :=
  let n := c.toNat
  if c.isDigit then some (n - '0'.toNat)
  else if 'a' ≤ c ∧ c ≤ 'z' then some (n - 'a'.toNat + 10)
  else if 'A' ≤ c ∧ c ≤ 'Z' then some (n - 'A'.toNat + 10)
  else none

def digitIn (base : Nat) (c : Char) : Option Nat := (digitValue c).filter (· < base)

def naturalIn (base : Nat) (cs : List Char) : Option Nat :=
  if cs.isEmpty then none
  else cs.foldl (fun n? c => do return base * (← n?) + (← digitIn base c)) (some 0)

def dropBaseMark (base : Nat) : List Char → List Char
  | '0' :: m :: cs =>
    let marks := if base = 2 then ['b', 'B'] else if base = 8 then ['o', 'O']
      else if base = 16 then ['x', 'X'] else []
    if marks.contains m then cs else '0' :: m :: cs
  | cs => cs

/-- an integer of a base, with an optional sign and blanks around it -/
def integerIn (base : Nat) (cs : List Char) : Except Fault Int :=
  let signed := numeral cs
  let digits := dropBaseMark base (Tag.unsigned signed)
  let count := (digits.takeWhile Char.isDigit).length
  if base = 10 ∧ Scalar.mostDigits < count then .error (.tooLong count)
  else
    match naturalIn base digits with
    | none => .error (.notInteger base (String.ofList cs))
    | some n => .ok (if signed.head? = some '-' then -(n : Int) else n)

def inOrder {α β : Type} (f : α → Except Fault β) : List α → Except Fault (List β)
  | [] => .ok []
  | x :: xs => do return (← f x) :: (← inOrder f xs)

/-- the places of a number in base sixty, the first one highest -/
def sexagesimal (cs : List Char) : Except Fault Int := do
  let places ← inOrder (integerIn 10) (Tag.splitAt ':' cs)
  return places.foldl (fun n p => 60 * n + p) 0

def withoutUnderscores (cs : List Char) : List Char := cs.filter (· != '_')

def magnitude (cs : List Char) : Except Fault Int :=
  match cs with
  | [] => .error .emptyNumber
  | ['0'] => .ok 0
  | '0' :: 'b' :: ds => integerIn 2 ds
  | '0' :: 'x' :: ds => integerIn 16 ds
  | '0' :: _ => integerIn 8 cs
  | _ => if cs.contains ':' then sexagesimal cs else integerIn 10 cs

def readInt (text : List Char) : Except Fault Int :=
  let cs := withoutUnderscores text
  (magnitude (Tag.unsigned cs)).map fun n => if cs.head? = some '-' then -n else n

def floatPart (cs : List Char) : Except Fault Binary64 :=
  match Binary64.ofChars? (numeral cs) with
  | some x => .ok x
  | none => .error (.notFloat (String.ofList cs))

def factor (n : Nat) : Except Fault Binary64 :=
  match Binary64.ofInt n with
  | .infinite _ => .error .tooLarge
  | x => .ok x

def weighted : Nat → Binary64 → List Binary64 → Except Fault Binary64
  | _, sum, [] => .ok sum
  | weight, sum, x :: xs => do weighted (60 * weight) (sum.add (x.mul (← factor weight))) xs

/-- the number without its sign; the word for not-a-number always means the same one -/
def floatMagnitude (mark : Nat) (cs : List Char) : Except Fault Binary64 :=
  if cs = ".inf".toList then .ok (.infinite false)
  else if cs = ".nan".toList then .ok (.nan 0)
  else if cs.contains ':' then do
    let places ← inOrder floatPart (Tag.splitAt ':' cs)
    return (← weighted 1 .zero places.reverse).marked mark
  else (floatPart cs).map (Binary64.marked mark)

def readFloat (mark : Nat) (text : List Char) : Except Fault Binary64 :=
  let cs := (lower (String.ofList (withoutUnderscores text))).toList
  if cs.isEmpty then .error .emptyNumber
  else
    (floatMagnitude mark (Tag.unsigned cs)).map fun x => if cs.head? = some '-' then x.neg else x

def boolMeanings : List (String × Bool) :=
  [("yes", true), ("no", false), ("true", true), ("false", false), ("on", true), ("off", false)]

def readBool (text : List Char) : Except Fault Bool :=
  let word := lower (String.ofList text)
  match boolMeanings.find? (·.1 == word) with
  | some m => .ok m.2
  | none => .error (.notBool word)

end LinkedCalls.Yaml
