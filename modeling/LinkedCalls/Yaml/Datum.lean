import LinkedCalls.Scalar
import LinkedCalls.Yaml.Base64
import LinkedCalls.Yaml.Graph
import LinkedCalls.Yaml.Number

/-!
Data: what the nodes of a document stand for. A collection is known by the node it was made for, so
that it may hold itself; the keys of mappings and the members of sets are no collections.
-/
namespace LinkedCalls.Yaml

inductive Key where
  | scalar (s : Scalar)
  | bytes (bs : List UInt8)
  | time (t : Timestamp)
deriving DecidableEq

namespace Key

def same : Key → Key → Bool
  | .scalar s, .scalar t => s.same t
  | .time t, .time u => t.same u
  | a, b => a == b

end Key

/-- pairs stand in lists only -/
inductive Datum where
  | key (k : Key)
  | pair (first second : Datum)
  | collection (node : NodeId)
deriving DecidableEq

namespace Datum

def scalar (s : Scalar) : Datum := .key (.scalar s)

def null : Datum := .scalar .null

end Datum

inductive Kind where
  | list
  | pairs
  | map
  | set
deriving DecidableEq

inductive Collection where
  | list (items : List Datum)
  | map (entries : List (Key × Datum))
  | set (members : List Key)

namespace Kind

def ofTag? : Tag → Option Kind
  | .list => some .list
  | .orderedMap | .pairs => some .pairs
  | .map => some .map
  | .set => some .set
  | _ => none

def empty : Kind → Collection
  | .list | .pairs => .list []
  | .map => .map []
  | .set => .set []

end Kind

/-- a later entry of the same key takes the place of an earlier one -/
def putEntry (key : Key) (d : Datum) : List (Key × Datum) → List (Key × Datum)
  | [] => [(key, d)]
  | e :: es => if e.1.same key then (e.1, d) :: es else e :: putEntry key d es

def isAscii (cs : List Char) : Bool := cs.all fun c => c.toNat < 128

def readBinary (text : List Char) : Except Fault (List UInt8) :=
  if isAscii text then
    match decodeBase64 text with
    | some bs => .ok bs
    | none => malformed
  else malformed

def Tag.isScalar : Tag → Bool
  | .null | .bool | .int | .float | .binary | .timestamp | .text => true
  | _ => false

/-- what a text stands for under a tag; `mark` tells its not-a-number from others -/
def readKey (mark : Nat) (tag : Tag) (text : List Char) : Except Fault Key :=
  match tag with
  | .null => .ok (.scalar .null)
  | .bool => (readBool text).map fun b => .scalar (.bool b)
  | .int => (readInt text).map fun n => .scalar (.int n)
  | .float => (readFloat mark text).map fun x => .scalar (.float x)
  | .binary => (readBinary text).map .bytes
  | .timestamp => (Timestamp.read text).map .time
  | .text => .ok (.scalar (.text (String.ofList text)))
  | _ => malformed

namespace Graph

/-- the text of a scalar, which a mapping may hold under the sign for a value -/
def text (g : Graph) : Nat → NodeId → Except Fault (List Char)
  | 0, _ => .error .endless
  | fuel + 1, i =>
    match g.body i with
    | .scalar text => .ok text
    | .list _ => malformed
    | .map entries =>
      match entries.find? fun e => g.tag e.1 = .value with
      | some e => text g fuel e.2
      | none => malformed

/-- only a scalar itself is a timestamp -/
def timestampText (g : Graph) (i : NodeId) (text : List Char) : Except Fault (List Char) :=
  match g.body i with
  | .scalar _ => .ok text
  | _ => .error .noText

/-- what a node stands for that is no collection; a tag without a meaning is refused at once -/
def key (g : Graph) (i : NodeId) : Except Fault Key := do
  let tag := g.tag i
  demand tag.isScalar
  let text ← g.text (g.size + 1) i
  readKey (i + 1) tag (← if tag = .timestamp then g.timestampText i text else pure text)

end Graph

end LinkedCalls.Yaml
