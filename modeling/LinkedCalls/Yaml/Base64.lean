/-!
Bytes as text in base sixty-four. Characters outside the alphabet are passed over; two marks of
padding, or one after three characters, end the text.
-/
namespace LinkedCalls.Yaml

def sextet (c : Char) : Option Nat :=
  let n := c.toNat
  if 'A' ≤ c ∧ c ≤ 'Z' then some (n - 'A'.toNat)
  else if 'a' ≤ c ∧ c ≤ 'z' then some (n - 'a'.toNat + 26)
  else if '0' ≤ c ∧ c ≤ '9' then some (n - '0'.toNat + 52)
  else if c = '+' then some 62
  else if c = '/' then some 63
  else none

/-- `held` are the characters of an unfinished group of four, `pads` the padding since the last -/
def base64From (held : List Nat) (pads : Nat) : List Char → Option (List UInt8)
  | [] => if held.isEmpty then some [] else none
  | c :: cs =>
    if c = '=' then
      if 2 ≤ held.length ∧ 4 ≤ held.length + pads + 1 then some []
      else base64From held (if 2 ≤ held.length then pads + 1 else pads) cs
    else
      match sextet c, held with
      | none, _ => base64From held pads cs
      | some v, [] => base64From [v] 0 cs
      | some v, [a] => (base64From [a, v] 0 cs).map (UInt8.ofNat (a * 4 + v / 16) :: ·)
      | some v, [a, b] => (base64From [a, b, v] 0 cs).map (UInt8.ofNat (b % 16 * 16 + v / 4) :: ·)
      | some v, _ :: _ :: b :: _ => (base64From [] 0 cs).map (UInt8.ofNat (b % 4 * 64 + v) :: ·)

def decodeBase64 (cs : List Char) : Option (List UInt8) := base64From [] 0 cs

end LinkedCalls.Yaml
