/-!
Floating point numbers of 64 bits as sign, significand and exponent. A finite number is
`m * 2 ^ e / 2 ^ 1074`; the form is unique, so equality of the type is equality of numbers with
signed zeros apart. Not-a-numbers are told apart by marks, since each equals itself alone. All
arithmetic rounds an exact quotient once, to the nearest number, ties to the even significand.
-/
namespace LinkedCalls

/-- a significand and an exponent are in lowest form: full precision or the least exponent -/
def Canonical (m e : Nat) : Prop :=
  m < Nat.pow 2 53 ∧ e ≤ 2045 ∧ (e = 0 ∨ Nat.pow 2 52 ≤ m)

instance (m e : Nat) : Decidable (Canonical m e) := inferInstanceAs (Decidable (_ ∧ _))

inductive Binary64 where
  | nan (mark : Nat)
  | infinite (negative : Bool)
  | finite (negative : Bool) (m e : Nat) (canonical : Canonical m e)
deriving DecidableEq

/-- the integer nearest to a quotient, the even one of two equally near -/
def nearestQuotient (num den : Nat) : Nat :=
  let q := num / den
  let r := num % den
  if 2 * r < den then q else if den < 2 * r then q + 1 else if q % 2 = 0 then q else q + 1

namespace Binary64

/-- the denominator common to all finite numbers -/
def unit : Nat := Nat.pow 2 1074

/-- an exponent past the greatest one overflows -/
def ofParts (negative : Bool) (m e : Nat) : Binary64 :=
  if h : Canonical m e then .finite negative m e h else .infinite negative

/-- rounds `num / den`; the sign is kept when the result is zero -/
def ofRatio (negative : Bool) (num den : Nat) : Binary64 :=
  let units := num * unit
  let e := (units / den).log2 - 52
  let m := nearestQuotient units (den * Nat.pow 2 e)
  if m = Nat.pow 2 53 then ofParts negative (Nat.pow 2 52) (e + 1) else ofParts negative m e

def zero : Binary64 := .finite false 0 0 (by decide)

instance : Inhabited Binary64 := ⟨zero⟩

def ofInt (n : Int) : Binary64 := ofRatio (n < 0) n.natAbs 1

def ofDecimal (negative : Bool) (digits : Nat) (exponent : Int) : Binary64 :=
  if 0 ≤ exponent then ofRatio negative (digits * Nat.pow 10 exponent.toNat) 1
  else ofRatio negative digits (Nat.pow 10 (-exponent).toNat)

def marked (mark : Nat) : Binary64 → Binary64
  | .nan _ => .nan mark
  | x => x

def isZero : Binary64 → Bool
  | .finite _ m _ _ => m == 0
  | _ => false

def neg : Binary64 → Binary64
  | .nan mark => .nan mark
  | .infinite s => .infinite (!s)
  | .finite s m e h => .finite (!s) m e h

/-- the numerator over `unit` of a magnitude -/
def scaled (m e : Nat) : Nat := m * Nat.pow 2 e

def numerator (negative : Bool) (m e : Nat) : Int :=
  if negative then -(scaled m e : Int) else scaled m e

/-- an exact sum of zero is negative only if both terms are -/
def add : Binary64 → Binary64 → Binary64
  | .nan mark, _ => .nan mark
  | _, .nan mark => .nan mark
  | .infinite s, .infinite t => if s = t then .infinite s else .nan 0
  | .infinite s, _ => .infinite s
  | _, .infinite t => .infinite t
  | .finite s m e _, .finite t n f _ =>
    let sum := numerator s m e + numerator t n f
    if sum = 0 then ofRatio (s && t) 0 unit else ofRatio (sum < 0) sum.natAbs unit

def sub (x y : Binary64) : Binary64 := add x (neg y)

def mul : Binary64 → Binary64 → Binary64
  | .nan mark, _ => .nan mark
  | _, .nan mark => .nan mark
  | .infinite s, .infinite t => .infinite (s != t)
  | .infinite s, .finite t m _ _ => if m = 0 then .nan 0 else .infinite (s != t)
  | .finite s m _ _, .infinite t => if m = 0 then .nan 0 else .infinite (s != t)
  | .finite s m e _, .finite t n f _ =>
    ofRatio (s != t) (scaled m e * scaled n f) (unit * unit)

/-- the nearest number with at most three decimal places -/
def toThousandths : Binary64 → Binary64
  | .finite s m e _ => ofRatio s (nearestQuotient (scaled m e * 1000) unit) 1000
  | x => x

/-- equality of numbers: the zeros are one number -/
def same : Binary64 → Binary64 → Bool
  | .nan m, .nan n => m == n
  | .infinite s, .infinite t => s == t
  | .finite s m e _, .finite t n f _ => numerator s m e == numerator t n f
  | _, _ => false

def sameInt : Binary64 → Int → Bool
  | .finite s m e _, n => numerator s m e == n * (unit : Int)
  | _, _ => false

end Binary64

end LinkedCalls
