/-!
Blank characters and the text without those at its ends.
-/
namespace LinkedCalls

def isBlank (c : Char) : Bool :=
  let n := c.toNat
  (0x09 ≤ n && n ≤ 0x0D) || (0x1C ≤ n && n ≤ 0x20) || n == 0x85 || n == 0xA0 || n == 0x1680 ||
    (0x2000 ≤ n && n ≤ 0x200A) || n == 0x2028 || n == 0x2029 || n == 0x202F || n == 0x205F ||
    n == 0x3000

def stripWhere (off : Char → Bool) (cs : List Char) : List Char :=
  ((cs.dropWhile off).reverse.dropWhile off).reverse

def stripChars (cs : List Char) : List Char := stripWhere isBlank cs

def strip (s : String) : String := String.ofList (stripChars s.toList)

end LinkedCalls
