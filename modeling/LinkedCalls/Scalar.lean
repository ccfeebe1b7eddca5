import LinkedCalls.Binary64.Notation
import LinkedCalls.Text.Quoted

/-!
Scalars: the literal values of parameters and the keys of tables. As keys, numbers and truth
values are compared by number, so `1`, `1.0` and `true` are one key.
-/
namespace LinkedCalls

inductive Scalar where
  | null
  | bool (b : Bool)
  | int (n : Int)
  | float (x : Binary64)
  | text (s : String)
deriving DecidableEq

instance : Inhabited Scalar := ⟨.null⟩

namespace Scalar

/-- truth values as the numbers they count for -/
def toInt? : Scalar → Option Int
  | .bool b => some (if b then 1 else 0)
  | .int n => some n
  | _ => none

def same : Scalar → Scalar → Bool
  | .null, .null => true
  | .text s, .text t => s == t
  | .float x, .float y => x.same y
  | .float x, b => (b.toInt?.map x.sameInt).getD false
  | a, .float y => (a.toInt?.map y.sameInt).getD false
  | a, b => a.toInt?.isSome && a.toInt? == b.toInt?

/-- the scalar within a message -/
def plain : Scalar → String
  | .null => "None"
  | .bool b => if b then "True" else "False"
  | .int n => toString n
  | .float x => x.text
  | .text s => s

/-- the scalar within a list or a mapping -/
def display : Scalar → String
  | .text s => quoted s
  | s => s.plain

def kind : Scalar → String
  | .null => "NoneType"
  | .bool _ => "bool"
  | .int _ => "int"
  | .float _ => "float"
  | .text _ => "str"

/-- null, false, zero and the empty text count as nothing -/
def truthy : Scalar → Bool
  | .null => false
  | .bool b => b
  | .int n => n != 0
  | .float x => !x.isZero
  | .text s => s != ""

/-- numbers of more digits are neither read nor written out -/
def mostDigits : Nat := 4300

def isLong : Scalar → Bool
  | .int n => Nat.pow 10 mostDigits ≤ n.natAbs
  | _ => false

theorem isLong_text (s : String) : (Scalar.text s).isLong = false := rfl

def isNull : Scalar → Bool
  | .null => true
  | _ => false

end Scalar

end LinkedCalls
