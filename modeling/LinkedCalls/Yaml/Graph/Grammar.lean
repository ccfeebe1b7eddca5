import LinkedCalls.Yaml.Graph
import LinkedCalls.Yaml.Token

/-!
From tokens to the graph of a document. Parts may be left out in many places and are null then. A
text holds one document at most. An alias comes after the start of the node that it stands for.
-/
namespace LinkedCalls.Yaml.Grammar

abbrev Handles := List (List Char × List Char)

def defaultHandles : Handles := [(['!'], ['!']), (['!', '!'], Tag.repository)]

/-- the tokens to come, and the graph and the anchors of what was read -/
structure Draft where
  tokens : List Token
  graph : Graph := #[]
  anchors : List (List Char × NodeId) := []

abbrev Reader := StateT Draft (Except Fault)

/-- the tokens to come, unless the next one shows that none can be read -/
def ahead : Reader (List Token) := do
  match (← get).tokens with
  | .fault f :: _ => throw f
  | ts => return ts

def goOn (ts : List Token) : Reader Unit := modify fun d => { d with tokens := ts }

def refuse {α : Type} : Reader α := throw .malformed

def addNode (n : Node) : Reader NodeId :=
  modifyGet fun d => (d.graph.size, { d with graph := d.graph.push n })

def absent : Reader NodeId := addNode .absent

def setBody (i : NodeId) (body : Body) : Reader Unit :=
  modify fun d => { d with graph := d.graph.setBody i body }

def uriOf (handles : Handles) (handle : Option (List Char)) (suffix : List Char) :
    Reader (List Char) :=
  match handle with
  | none => return suffix
  | some h =>
    match handles.find? (·.1 == h) with
    | some e => return e.2 ++ suffix
    | none => refuse

structure Properties where
  anchor : Option (List Char) := none
  tag : Option (List Char) := none

def anchorAhead : Reader (Option (List Char)) := do
  match ← ahead with
  | .anchor name :: ts => goOn ts; return some name
  | _ => return none

def tagAhead : Reader (Option (Option (List Char) × List Char)) := do
  match ← ahead with
  | .tag handle suffix :: ts => goOn ts; return some (handle, suffix)
  | _ => return none

def properties (handles : Handles) : Reader Properties := do
  let first ← anchorAhead
  let tag ← tagAhead
  let anchor ← if first.isNone && tag.isSome then anchorAhead else pure first
  match tag with
  | none => return ⟨anchor, none⟩
  | some (handle, suffix) => return ⟨anchor, some (← uriOf handles handle suffix)⟩

namespace Properties

/-- the lone sign leaves the tag open -/
def openTag (p : Properties) : Bool := p.tag == none || p.tag == some ['!']

def collectionTag (p : Properties) (default : Tag) : Tag :=
  if p.openTag then default else ((p.tag.map Tag.ofUri).getD default)

def scalarTag (p : Properties) (text : List Char) (plain : Bool) : Tag :=
  match p.tag with
  | none => if plain then .ofPlain text else .text
  | some uri => if uri = ['!'] then .ofPlain text else .ofUri uri

def isEmpty (p : Properties) : Bool := p.anchor.isNone && p.tag.isNone

/-- a new node with these properties; its anchor must be new too -/
def attach (p : Properties) (n : Node) : Reader NodeId := do
  match p.anchor with
  | none => addNode n
  | some name =>
    if (← get).anchors.any (·.1 == name) then refuse
    let i ← addNode n
    modify fun d => { d with anchors := (name, i) :: d.anchors }
    return i

end Properties

def aliased (name : List Char) : Reader NodeId := do
  match (← get).anchors.find? (·.1 == name) with
  | some e => return e.2
  | none => refuse

/-- where a node stands: within brackets, in a block, or beside a key, where the items of a list
need no deeper indentation -/
inductive Position where
  | flow
  | block
  | besideKey
deriving DecidableEq

inductive Opening where
  | scalar (text : List Char) (plain : Bool)
  | flowItems
  | flowPairs
  | items
  | entries
  | pairs

/-- the start of the content, and the tokens after it; the items beside a key start themselves -/
def opening? (position : Position) (ts : List Token) : Option (Opening × List Token) :=
  match position, ts with
  | .besideKey, .entry :: _ => some (.entries, ts)
  | _, .scalar text plain :: ts => some (.scalar text plain, ts)
  | _, .flowSequence :: ts => some (.flowItems, ts)
  | _, .flowMapping :: ts => some (.flowPairs, ts)
  | .block, .blockSequence :: ts | .besideKey, .blockSequence :: ts => some (.items, ts)
  | .block, .blockMapping :: ts | .besideKey, .blockMapping :: ts => some (.pairs, ts)
  | _, _ => none

def startsWith (stops : List Token) : List Token → Bool
  | [] => false
  | t :: _ => stops.contains t

/-- a comma stands before every part but the first, unless the end follows -/
def passComma (first : Bool) (stop : Token) : Reader Unit := do
  let ts ← ahead
  if first || startsWith [stop] ts then return
  match ts with
  | .comma :: ts => goOn ts
  | _ => refuse

/-- a list, which is there before its items are -/
def listOf (p : Properties) (items : Reader (List NodeId)) : Reader NodeId := do
  let i ← p.attach ⟨p.collectionTag .list, .list []⟩
  setBody i (.list (← items))
  return i

def mapOf (p : Properties) (entries : Reader (List Entry)) : Reader NodeId := do
  let i ← p.attach ⟨p.collectionTag .map, .map []⟩
  setBody i (.map (← entries))
  return i

/-- goes on with a part unless one of the given tokens shows that it is left out -/
def unlessAt (stops : List Token) (part : Reader NodeId) : Reader NodeId := do
  if startsWith stops (← ahead) then absent else part

def valueUnless (stops : List Token) (part : Reader NodeId) : Reader NodeId := do
  match ← ahead with
  | .value :: ts => goOn ts; unlessAt stops part
  | _ => absent

mutual

def read (handles : Handles) (position : Position) : Nat → Reader NodeId
  | 0 => refuse
  | fuel + 1 => do
    match ← ahead with
    | .alias name :: ts => goOn ts; aliased name
    | _ =>
      let p ← properties handles
      match opening? position (← ahead) with
      | none => if p.isEmpty then refuse else p.attach ⟨p.scalarTag [] true, .scalar []⟩
      | some (opening, ts) =>
        goOn ts
        match opening with
        | .scalar text plain => p.attach ⟨p.scalarTag text plain, .scalar text⟩
        | .items => listOf p (readItems handles fuel)
        | .entries => listOf p (readEntries handles fuel)
        | .pairs => mapOf p (readPairs handles fuel)
        | .flowItems => listOf p (readFlowItems handles true fuel)
        | .flowPairs => mapOf p (readFlowPairs handles true fuel)

def readItems (handles : Handles) : Nat → Reader (List NodeId)
  | 0 => refuse
  | fuel + 1 => do
    match ← ahead with
    | .entry :: ts =>
      goOn ts
      let n ← unlessAt [.entry, .blockEnd] (read handles .block fuel)
      return n :: (← readItems handles fuel)
    | .blockEnd :: ts => goOn ts; return []
    | _ => refuse

/-- items beside a key, up to a token that starts none -/
def readEntries (handles : Handles) : Nat → Reader (List NodeId)
  | 0 => refuse
  | fuel + 1 => do
    match ← ahead with
    | .entry :: ts =>
      goOn ts
      let n ← unlessAt [.entry, .key, .value, .blockEnd] (read handles .block fuel)
      return n :: (← readEntries handles fuel)
    | _ => return []

def readPairs (handles : Handles) : Nat → Reader (List Entry)
  | 0 => refuse
  | fuel + 1 => do
    match ← ahead with
    | .key :: ts =>
      goOn ts
      let stops : List Token := [.key, .value, .blockEnd]
      let k ← unlessAt stops (read handles .besideKey fuel)
      let v ← valueUnless stops (read handles .besideKey fuel)
      return (k, v) :: (← readPairs handles fuel)
    | .blockEnd :: ts => goOn ts; return []
    | _ => refuse

/-- the items between brackets; one with a key is a mapping of its own -/
def readFlowItems (handles : Handles) (first : Bool) : Nat → Reader (List NodeId)
  | 0 => refuse
  | fuel + 1 => do
    passComma first .flowSequenceEnd
    match ← ahead with
    | .flowSequenceEnd :: ts => goOn ts; return []
    | .key :: ts =>
      let n ← mapOf {} do
        goOn ts
        let k ← unlessAt [.value, .comma, .flowSequenceEnd] (read handles .flow fuel)
        let v ← valueUnless [.comma, .flowSequenceEnd] (read handles .flow fuel)
        return [(k, v)]
      return n :: (← readFlowItems handles false fuel)
    | _ =>
      let n ← read handles .flow fuel
      return n :: (← readFlowItems handles false fuel)

/-- the entries between braces; a node without a key sign is a key without a value -/
def readFlowPairs (handles : Handles) (first : Bool) : Nat → Reader (List Entry)
  | 0 => refuse
  | fuel + 1 => do
    passComma first .flowMappingEnd
    match ← ahead with
    | .flowMappingEnd :: ts => goOn ts; return []
    | .key :: ts =>
      goOn ts
      let k ← unlessAt [.value, .comma, .flowMappingEnd] (read handles .flow fuel)
      let v ← valueUnless [.comma, .flowMappingEnd] (read handles .flow fuel)
      return (k, v) :: (← readFlowPairs handles false fuel)
    | _ =>
      let k ← read handles .flow fuel
      let v ← absent
      return (k, v) :: (← readFlowPairs handles false fuel)

end

structure Preamble where
  versioned : Bool := false
  handles : Handles := []

/-- each handle is given once, and the version once and as a first one -/
def directives (p : Preamble) : List Token → Except Fault (Preamble × List Token)
  | .directive (.version major) :: ts =>
    if p.versioned || major != 1 then malformed
    else directives { p with versioned := true } ts
  | .directive (.handle name meaning) :: ts =>
    if p.handles.any (·.1 == name) then malformed
    else directives { p with handles := (name, meaning) :: p.handles } ts
  | .directive .other :: ts => directives p ts
  | .fault f :: _ => .error f
  | ts => .ok (p, ts)

/-- deep enough for any nesting of the tokens -/
def depth (ts : List Token) : Nat := 3 * (ts.length + 1)

def contents (handles : Handles) (fuel : Nat) : Reader NodeId := do
  match ← ahead with
  | [] | .directive _ :: _ | .documentStart :: _ | .documentEnd :: _ => absent
  | _ => read handles .block fuel

def document (fuel : Nat) : Reader (Option NodeId) := do
  match ← ahead with
  | [] => return none
  | .directive _ :: _ | .documentStart :: _ =>
    let (p, ts) ← directives {} (← ahead)
    match ts with
    | .documentStart :: ts =>
      goOn ts
      return some (← contents (p.handles ++ defaultHandles) fuel)
    | _ => refuse
  | _ => return some (← read defaultHandles .block fuel)

/-- nothing but end marks may follow a document; directives are read before that is seen -/
def ending : List Token → Except Fault Unit
  | [] => .ok ()
  | .documentEnd :: ts => ending ts
  | ts => do
    let _ ← directives {} ts
    malformed

def parse (ts : List Token) : Except Fault (Graph × Option NodeId) := do
  let (root, d) ← (document (depth ts)).run { tokens := ts }
  ending d.tokens
  return (d.graph, root)

end LinkedCalls.Yaml.Grammar
