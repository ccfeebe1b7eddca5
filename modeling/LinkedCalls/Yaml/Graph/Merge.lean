import LinkedCalls.Yaml.Graph

/-!
Merges: a mapping may take over the entries of other mappings. What is taken over stands before its
own entries, and the other mappings make their own merges first, once and for all.
-/
namespace LinkedCalls.Yaml.Graph

/-- the value of the first entry with the sign of a merge, and the other entries -/
def takeMerge (g : Graph) : List Entry → Option (NodeId × List Entry)
  | [] => none
  | e :: es =>
    if g.tag e.1 = .merge then some (e.2, es)
    else (takeMerge g es).map fun r => (r.1, e :: r.2)

def merges (g : Graph) : Nat :=
  g.foldl (fun n node =>
    match node.body with
    | .map entries => n + (entries.filter fun e => g.tag e.1 = .merge).length
    | _ => n) 0

/-- the sign of a value is text as the key of an entry -/
def settleKey (g : Graph) (e : Entry) : Graph :=
  if g.tag e.1 = .value then g.setTag e.1 .text else g

def settle (g : Graph) (i : NodeId) (merged : List Entry) : Graph :=
  let own := g.entries i
  let g := own.foldl settleKey g
  if merged.isEmpty then g else g.setBody i (.map (merged ++ own))

/-- the entries that a node gives in a merge: those of a mapping, or of a list of mappings, the last
one first; `make` makes the merges of a mapping -/
def offered (make : NodeId → Graph → Except Fault Graph) (source : NodeId) (g : Graph) :
    Except Fault (Graph × List Entry) :=
  let offer := fun (i : NodeId) (g : Graph) =>
    match g.body i with
    | .map _ => (make i g).map fun g => (g, g.entries i)
    | _ => malformed
  match g.body source with
  | .list items =>
    items.foldlM (fun (g, entries) i => do
      let (g, more) ← offer i g
      return (g, more ++ entries)) (g, [])
  | _ => offer source g

/-- makes the merges of a mapping; each takes an entry with its sign out of the graph -/
def mergeWithin : Nat → List Entry → NodeId → Graph → Except Fault Graph
  | 0, _, _, _ => malformed
  | fuel + 1, merged, i, g =>
    match g.takeMerge (g.entries i) with
    | none => .ok (g.settle i merged)
    | some (source, rest) => do
      let (g, more) ← offered (mergeWithin fuel []) source (g.setBody i (.map rest))
      mergeWithin fuel (merged ++ more) i g

end LinkedCalls.Yaml.Graph
