/-!
Halves of surrogate pairs. They are no characters, yet text that was read from escapes may hold
them. A half stands in text as two code points: a noncharacter, which no text for interchange
holds, and a private character for the number of the half. So the texts that are left out are those
that hold U+10FFFF itself with one of U+10F000 to U+10F7FF right behind it; every other sequence of
code points has a text of its own.
-/
namespace LinkedCalls.Half

def mark : Char := Char.ofNat 0x10FFFF

def least : Nat := 0xD800

def isNumber (n : Nat) : Bool := least ≤ n && n ≤ 0xDFFF

def base : Nat := 0x10F000

def chars (n : Nat) : List Char := [mark, Char.ofNat (base + (n - least))]

/-- the half that a character after the mark stands for -/
def ofChar? (c : Char) : Option Nat :=
  if base ≤ c.toNat ∧ c.toNat < base + 0x800 then some (least + (c.toNat - base)) else none

/-- the code points of a text, halves among them -/
def codes : List Char → List Nat
  | [] => []
  | c :: cs =>
    if c = mark then
      match cs with
      | [] => [c.toNat]
      | d :: ds =>
        match ofChar? d with
        | some n => n :: codes ds
        | none => c.toNat :: codes (d :: ds)
    else c.toNat :: codes cs

def isIn (s : String) : Bool := (codes s.toList).any isNumber

/-- halves in a row, with their places in the text; `half` is the first one -/
structure Row where
  half : Nat
  first : Nat
  last : Nat
deriving DecidableEq

def row? (isAllowed : Nat → Bool) (cs : List Char) : Option Row :=
  let codes := codes cs
  let before := codes.takeWhile fun n => !isNumber n || isAllowed n
  match codes.drop before.length with
  | [] => none
  | half :: more =>
    some ⟨half, before.length, before.length + (more.takeWhile isNumber).length⟩

/-- what stands for a half where none can be shown: a sign for each of its three bytes -/
def shown (n : Nat) : List Char :=
  if isNumber n then List.replicate 3 '\uFFFD' else [Char.ofNat n]

def replaced (s : String) : String := String.ofList ((codes s.toList).flatMap shown)

end LinkedCalls.Half
