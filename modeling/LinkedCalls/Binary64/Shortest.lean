import LinkedCalls.Binary64

/-!
The fewest decimal digits that read back as the same number, the nearest of those. The selection
tests each candidate by reading it back, so whatever is chosen does read back.
-/
namespace LinkedCalls

/-- `digits * 10 ^ exponent` -/
structure Decimal where
  digits : Nat
  exponent : Int
deriving DecidableEq

namespace Binary64

/-- the magnitude is below `10 ^ magnitude` and not below a tenth of that -/
def magnitude (num : Nat) : Int :=
  ((Nat.toDigits 10 (num * Nat.pow 10 324 / unit)).length : Int) - 324

/-- the number `num / unit` in steps of `10 ^ step`, as a quotient -/
def inSteps (num : Nat) (step : Int) : Nat × Nat :=
  if 0 ≤ step then (num, unit * Nat.pow 10 step.toNat) else (num * Nat.pow 10 (-step).toNat, unit)

/-- the two grid points around `num / unit`, the nearer first -/
def neighbours (num : Nat) (step : Int) : List Decimal :=
  let (a, b) := inSteps num step
  let near := nearestQuotient a b
  let far := if near = a / b then near + 1 else a / b
  [⟨near, step⟩, ⟨far, step⟩]

def exact (num : Nat) : Decimal := ⟨num * Nat.pow 5 1074, -1074⟩

/-- tries one to seventeen digits; the exact expansion stands in if none reads back -/
def shortest (m e : Nat) : Decimal :=
  let num := scaled m e
  let top := magnitude num
  let grids := (List.range 17).flatMap fun n => neighbours num (top - (n + 1 : Nat))
  let readsBack := fun d : Decimal => ofDecimal false d.digits d.exponent == ofParts false m e
  (grids.find? readsBack).getD (exact num)

end Binary64

end LinkedCalls
