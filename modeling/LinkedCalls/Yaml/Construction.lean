import LinkedCalls.Yaml.Datum
import LinkedCalls.Yaml.Graph.Merge

/-!
From the graph of a document to its data. A collection is made empty and filled later, in the order
in which the collections are made, so of two faults the one nearer to the root is met first.
-/
namespace LinkedCalls.Yaml

/-- the data made so far by node, the collections by node, and the order in which they were made -/
structure Construction where
  graph : Graph
  merges : Nat
  data : Array (Option Datum)
  collections : Array Collection
  made : Array (NodeId × Kind) := #[]

namespace Construction

abbrev Builder := StateT Construction (Except Fault)

def start (g : Graph) : Construction where
  graph := g
  merges := g.merges
  data := Array.replicate g.size none
  collections := Array.replicate g.size (.list [])

def keep (i : NodeId) (d : Datum) : Builder Datum := do
  modify fun c => { c with data := c.data.setIfInBounds i (some d) }
  return d

def setCollection (i : NodeId) (content : Collection) : Builder Unit :=
  modify fun c => { c with collections := c.collections.setIfInBounds i content }

def makeCollection (i : NodeId) (kind : Kind) : Builder Datum := do
  setCollection i kind.empty
  modify fun c => { c with made := c.made.push (i, kind) }
  keep i (.collection i)

/-- what a node stands for, which is found out once -/
def datum (i : NodeId) : Builder Datum := do
  let c ← get
  match c.data[i]?.join with
  | some d => return d
  | none =>
    match Kind.ofTag? (c.graph.tag i) with
    | some kind => makeCollection i kind
    | none =>
      let key ← (c.graph.key i : Except Fault Key)
      keep i (.key key)

def refuse {α : Type} : Builder α := throw .malformed

def listItems (i : NodeId) : Builder (List NodeId) := do
  match (← get).graph.body i with
  | .list items => return items
  | _ => refuse

def singleEntry (i : NodeId) : Builder Entry := do
  match (← get).graph.body i with
  | .map [e] => return e
  | _ => refuse

def pair (i : NodeId) : Builder Datum := do
  let (k, v) ← singleEntry i
  let a ← datum k
  return .pair a (← datum v)

def mapEntries (i : NodeId) : Builder (List Entry) := do
  match (← get).graph.body i with
  | .map _ =>
    let c ← get
    let g ← (Graph.mergeWithin (c.merges + 1) [] i c.graph : Except Fault Graph)
    set { c with graph := g }
    return g.entries i
  | _ => refuse

def entry (e : Entry) : Builder (Key × Datum) := do
  match ← datum e.1 with
  | .key key => return (key, ← datum e.2)
  | _ => refuse

def mapping (i : NodeId) : Builder (List (Key × Datum)) := do
  let entries ← (← mapEntries i).mapM entry
  return entries.foldl (fun es e => putEntry e.1 e.2 es) []

def content (i : NodeId) (kind : Kind) : Builder Collection := do
  match kind with
  | .list => return .list (← (← listItems i).mapM datum)
  | .pairs => return .list (← (← listItems i).mapM pair)
  | .map => return .map (← mapping i)
  | .set => return .set ((← mapping i).map Prod.fst)

/-- fills the collections from the `n`th one on; each node makes one at most -/
def fillFrom (n : Nat) : Nat → Builder Unit
  | 0 => return
  | fuel + 1 => do
    match (← get).made[n]? with
    | none => return
    | some (i, kind) =>
      setCollection i (← content i kind)
      fillFrom (n + 1) fuel

def build (root : NodeId) : Builder Datum := do
  let d ← datum root
  fillFrom 0 ((← get).graph.size + 1)
  return d

end Construction

end LinkedCalls.Yaml
