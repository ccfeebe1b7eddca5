import LinkedCalls.Yaml.Datum

/-!
The order in which a set of numbers is shown: that of a table with more than twice as many places
as the set has members. A number stands at the place that its residue gives, or at the first free
one on its way through the table. A set of anything else is shown in the order of the text.
-/
namespace LinkedCalls.Yaml.SetOrder

/-- residues are taken modulo this prime -/
def modulus : Nat := Nat.pow 2 61 - 1

/-- the residue of a number with its sign; minus one counts as minus two -/
def signedResidue (negative : Bool) (n : Nat) : Int :=
  let r : Int := if negative then -(n % modulus : Nat) else (n % modulus : Nat)
  if r = -1 then -2 else r

/-- halves are multiples too: sixty-one doublings are none -/
def floatResidue : Binary64 → Option Int
  | .nan _ => none
  | .infinite s => some (if s then -314159 else 314159)
  | .finite s m e _ => some (signedResidue s (m * Nat.pow 2 ((e + 24) % 61)))

def residue? : Key → Option Int
  | .scalar (.bool b) => some (if b then 1 else 0)
  | .scalar (.int n) => some (signedResidue (n < 0) n.natAbs)
  | .scalar (.float x) => floatResidue x
  | _ => none

def rowLength : Nat := 9

def freeInRow (taken : Nat → Bool) (size i : Nat) : Option Nat :=
  let row := if i + rowLength < size then rowLength + 1 else 1
  ((List.range row).map (i + ·)).find? (!taken ·)

/-- the first free place on the way from `i`; `far` leads to other places at first -/
def freePlace (taken : Nat → Bool) (size : Nat) : Nat → Nat → Nat → Nat
  | 0, i, _ => i
  | fuel + 1, i, far =>
    match freeInRow taken size i with
    | some place => place
    | none => freePlace taken size fuel ((5 * i + 1 + far / 32) % size) (far / 32)

/-- the least power of two above twice a number, and eight at least -/
def tableSize (count : Nat) : Nat :=
  if count < 5 then 8 else Nat.pow 2 ((2 * count).log2 + 1)

def place {α : Type} (size : Nat) (table : List (Nat × α)) (residue : Int) (member : α) :
    List (Nat × α) :=
  let far := (residue % (Nat.pow 2 64 : Nat)).toNat
  (freePlace (fun i => table.any (·.1 == i)) size (size + 14) (far % size) far, member) :: table

def arranged {α : Type} (members : List (Int × α)) : List α :=
  let size := tableSize members.length
  let table := members.foldl (fun t m => place size t m.1 m.2) []
  (List.range size).filterMap fun i => (table.find? (·.1 == i)).map Prod.snd

def shown (members : List Key) : List Key :=
  match members.mapM fun k => (residue? k).map (·, k) with
  | some numbers => arranged numbers
  | none => members

end LinkedCalls.Yaml.SetOrder
