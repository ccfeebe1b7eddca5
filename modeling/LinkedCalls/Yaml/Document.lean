import LinkedCalls.Program.Source
import LinkedCalls.Yaml.Construction
import LinkedCalls.Yaml.Graph.Grammar
import LinkedCalls.Yaml.SetOrder
import LinkedCalls.Yaml.Token.Stream

/-!
Documents: a datum with the collections within it. Each part of a document can be looked at one
layer at a time.
-/
namespace LinkedCalls.Yaml

def isWritable (c : Char) : Bool :=
  let n := c.toNat
  n == 0x09 || n == 0x0A || n == 0x0D || (0x20 ≤ n && n ≤ 0x7E) || n == 0x85 ||
    (0xA0 ≤ n && n ≤ 0xFFFD) || 0x10000 ≤ n

structure Document where
  root : Datum
  collections : Array Collection := #[]

namespace Document

def ofGraph (g : Graph) (root : NodeId) : Except Fault Document := do
  let (d, c) ← (Construction.build root).run (.start g)
  return ⟨d, c.collections⟩

/-- the document of tokens; an empty one is null -/
def ofTokens (ts : List Token) : Except Fault Document := do
  match ← Grammar.parse ts with
  | (_, none) => return ⟨.null, #[]⟩
  | (g, some root) => ofGraph g root

/-- texts are looked at page by page -/
def pageSize : Nat := 4096

/-- the page with something wrong, which is found before the page is read; the first two are looked
at together -/
def firstFault? (text : List Char) (cut : Option Fault) : Option (Nat × Fault) :=
  let page := fun n => max 1 (n / pageSize)
  let unwritable := (text.findIdx? (!isWritable ·)).map fun n => (page n, Fault.malformed)
  let cut := cut.map fun f => (page text.length, f)
  match unwritable, cut with
  | some u, some c => if u.1 < c.1 then some u else some c
  | u, c => u.or c

def read (content : Decoded) : Except Fault Document :=
  let text := plainLines content.text
  match firstFault? text (content.fault.map .undecodable) with
  | none => ofTokens (tokens text none)
  | some (n, fault) =>
    if n = 1 then .error fault else ofTokens (tokens (text.take (n * pageSize)) (some fault))

def collection (doc : Document) (i : NodeId) : Collection := doc.collections[i]?.getD (.list [])

def isMapping (doc : Document) : Bool :=
  match doc.root with
  | .collection i =>
    match doc.collection i with
    | .map _ => true
    | _ => false
  | _ => false

end Document

def byteChars (quote : Char) (b : UInt8) : List Char :=
  let c := Char.ofNat b.toNat
  if c = quote ∨ c = '\\' then ['\\', c]
  else if c = '\n' then ['\\', 'n']
  else if c = '\r' then ['\\', 'r']
  else if c = '\t' then ['\\', 't']
  else if 0x20 ≤ b.toNat ∧ b.toNat < 0x7F then [c]
  else hexEscape b.toNat

def bytesDisplay (bs : List UInt8) : String :=
  let q := quoteFor (bs.map fun b => Char.ofNat b.toNat)
  String.ofList ('b' :: q :: (bs.flatMap (byteChars q) ++ [q]))

namespace Key

def kind : Key → String
  | .scalar s => s.kind
  | .bytes _ => "bytes"
  | .time t => if t.time.isSome then "datetime" else "date"

def display? (k : Key) : Option String :=
  match k with
  | .scalar s => if s.isLong then none else some s.display
  | .bytes bs => some (bytesDisplay bs)
  | .time t => some t.display

end Key

namespace Collection

/-- what stands for a collection within itself -/
def recurring : Collection → String
  | .list _ => "[...]"
  | .map _ => "\x7b...\x7d"
  | .set _ => "set(...)"

def bracketed (parts : List String) : String := "[" ++ ", ".intercalate parts ++ "]"

def braced (parts : List String) : String := "\x7b" ++ ", ".intercalate parts ++ "\x7d"

def entryDisplay? (show? : Datum → Option String) (e : Key × Datum) : Option String := do
  let key ← e.1.display?
  let value ← show? e.2
  return s!"{key}: {value}"

def display? (show? : Datum → Option String) : Collection → Option String
  | .list items => (items.mapM show?).map bracketed
  | .map entries => (entries.mapM (entryDisplay? show?)).map braced
  | .set members =>
    if members.isEmpty then some "set()"
    else ((SetOrder.shown members).mapM Key.display?).map braced

def kind : Collection → String
  | .list _ => "list"
  | .map _ => "dict"
  | .set _ => "set"

end Collection

namespace Document

/-- a datum within the collections `around` it; nothing if it holds a number that is too long -/
def displayWithin (doc : Document) : Nat → List NodeId → Datum → Option String
  | 0, _, _ => some ""
  | _ + 1, _, .key k => k.display?
  | depth + 1, around, .pair a b => do
    let first ← doc.displayWithin depth around a
    let second ← doc.displayWithin depth around b
    return s!"({first}, {second})"
  | depth + 1, around, .collection i =>
    if around.contains i then some (doc.collection i).recurring
    else (doc.collection i).display? (doc.displayWithin depth (i :: around))

def kind (doc : Document) : Datum → String
  | .key k => k.kind
  | .pair .. => "tuple"
  | .collection i => (doc.collection i).kind

def display (doc : Document) (d : Datum) : String :=
  match doc.displayWithin (2 * (doc.collections.size + 1)) [] d with
  | some text => text
  | none => s!"<unprintable {doc.kind d} object>"

end Document

structure Part where
  document : Document
  datum : Datum

namespace Part

def named (doc : Document) : List (Key × Datum) → List (String × Part)
  | [] => []
  | (.scalar (.text s), d) :: es => (s, ⟨doc, d⟩) :: named doc es
  | _ :: es => named doc es

def scalarShape : Scalar → Shape Part
  | .null => .null
  | .bool b => .bool b
  | .int n => .int n
  | .float x => .float x
  | .text s => .text s

def keyShape : Key → Shape Part
  | .scalar s => scalarShape s
  | .bytes bs => .bytes bs
  | .time _ => .other

def collectionShape (doc : Document) : Collection → Shape Part
  | .list items => .items (items.map fun d => ⟨doc, d⟩)
  | .map entries => .fields (named doc entries)
  | .set members => .items (members.map fun k => ⟨doc, .key k⟩)

def shape (p : Part) : Shape Part :=
  match p.datum with
  | .key k => keyShape k
  | .pair a b => .items [⟨p.document, a⟩, ⟨p.document, b⟩]
  | .collection i => collectionShape p.document (p.document.collection i)

def plain (p : Part) : String :=
  match p.datum with
  | .key (.scalar (.text s)) => Half.replaced s
  | .key (.time t) => t.plain
  | d => p.document.display d

end Part

instance : Source Part := ⟨Part.shape, Part.plain⟩

def Document.part (doc : Document) : Part := ⟨doc, doc.root⟩

end LinkedCalls.Yaml
