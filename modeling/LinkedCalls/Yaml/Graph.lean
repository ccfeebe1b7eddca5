import LinkedCalls.Yaml.PlainTag

/-!
The graph of a document: nodes with their tags. Nodes are known by number, since one with an anchor
may stand in several places, within itself too.
-/
namespace LinkedCalls.Yaml

/-- nodes are numbered as they start in the text -/
abbrev NodeId := Nat

abbrev Entry := NodeId × NodeId

inductive Body where
  | scalar (text : List Char)
  | list (items : List NodeId)
  | map (entries : List Entry)

structure Node where
  tag : Tag
  body : Body

def Node.absent : Node := ⟨.null, .scalar []⟩

instance : Inhabited Node := ⟨.absent⟩

abbrev Graph := Array Node

namespace Graph

def node (g : Graph) (i : NodeId) : Node := g[i]?.getD .absent

def tag (g : Graph) (i : NodeId) : Tag := (g.node i).tag

def body (g : Graph) (i : NodeId) : Body := (g.node i).body

/-- the entries of a mapping; other nodes have none -/
def entries (g : Graph) (i : NodeId) : List Entry :=
  match g.body i with
  | .map entries => entries
  | _ => []

def setTag (g : Graph) (i : NodeId) (tag : Tag) : Graph := g.modify i ({ · with tag := tag })

def setBody (g : Graph) (i : NodeId) (body : Body) : Graph := g.modify i ({ · with body := body })

end Graph

end LinkedCalls.Yaml
