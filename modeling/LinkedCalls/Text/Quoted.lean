import LinkedCalls.Text.Half
import LinkedCalls.Text.Printable

/-!
Text between quotes. The single quote is used unless the text holds one and no double quote;
the quote in use, the backslash and whatever cannot be shown are escaped.
-/
namespace LinkedCalls

def hexDigits (width n : Nat) : List Char :=
  match width with
  | 0 => []
  | width + 1 => hexDigits width (n / 16) ++ [Nat.digitChar (n % 16)]

def hexEscape (n : Nat) : List Char :=
  if n ≤ 0xFF then '\\' :: 'x' :: hexDigits 2 n
  else if n ≤ 0xFFFF then '\\' :: 'u' :: hexDigits 4 n
  else '\\' :: 'U' :: hexDigits 8 n

def quoteChar (quote c : Char) : List Char :=
  if c = quote ∨ c = '\\' then ['\\', c]
  else if c = '\n' then ['\\', 'n']
  else if c = '\r' then ['\\', 'r']
  else if c = '\t' then ['\\', 't']
  else if isPrintable c then [c]
  else hexEscape c.toNat

def quoteCode (quote : Char) (n : Nat) : List Char :=
  if Half.isNumber n then hexEscape n else quoteChar quote (Char.ofNat n)

def quoteFor (cs : List Char) : Char :=
  if cs.contains '\'' && !cs.contains '"' then '"' else '\''

def quoted (s : String) : String :=
  let cs := s.toList
  let q := quoteFor cs
  String.ofList (q :: ((Half.codes cs).flatMap (quoteCode q) ++ [q]))

end LinkedCalls
