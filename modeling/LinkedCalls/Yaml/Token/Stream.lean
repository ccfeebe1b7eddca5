import LinkedCalls.Yaml.Token.Block
import LinkedCalls.Yaml.Token.Plain
import LinkedCalls.Yaml.Token.Quoted

/-!
The tokens of a text. Indentation opens and closes blocks outside brackets. Whether a node is the
key of a mapping shows only at the colon after it, so the place of every node that could be a key
is remembered until the colon comes, the line ends or the node has become too long.
-/
namespace LinkedCalls.Yaml

/-- a node that may turn out to be a key: how many tokens stand before it, and where it starts -/
structure KeyPlace where
  tokens : Nat
  required : Bool
  index : Nat
  line : Nat
  column : Nat

def longestKey : Nat := 1024

/-- tokens with the newest first and their number, the columns of the open blocks with the innermost
first, and the possible keys within the innermost brackets and within those around them -/
structure Scan where
  cursor : Cursor
  tokens : List Token := []
  count : Nat := 0
  blocks : List Nat := []
  keyAllowed : Bool := true
  key : Option KeyPlace := none
  outerKeys : List (Option KeyPlace) := []

namespace Scan

def inFlow (s : Scan) : Bool := !s.outerKeys.isEmpty

def push (s : Scan) (t : Token) : Scan :=
  { s with tokens := t :: s.tokens, count := s.count + 1 }

def skip (s : Scan) (n : Nat) : Scan := { s with cursor := s.cursor.steps n }

def insertAfter (s : Scan) (n : Nat) (t : Token) : Scan :=
  let later := s.count - n
  { s with tokens := s.tokens.take later ++ t :: s.tokens.drop later, count := s.count + 1 }

def closeTo (column : Nat) (s : Scan) : Scan :=
  let closed := s.blocks.takeWhile (column < ·)
  { s with
    tokens := closed.map (fun _ => .blockEnd) ++ s.tokens
    count := s.count + closed.length
    blocks := s.blocks.drop closed.length }

def closeAll (s : Scan) : Scan :=
  { s with
    tokens := s.blocks.map (fun _ => .blockEnd) ++ s.tokens
    count := s.count + s.blocks.length
    blocks := [] }

def deeper (s : Scan) (column : Nat) : Bool :=
  match s.blocks with
  | [] => true
  | b :: _ => b < column

/-- whether a key can no longer become one -/
def stale (s : Scan) (k : KeyPlace) : Bool :=
  k.line != s.cursor.line || longestKey < s.cursor.index - k.index

def forget (s : Scan) (k : Option KeyPlace) : Except Fault (Option KeyPlace) :=
  match k with
  | none => .ok none
  | some p => if s.stale p then (if p.required then malformed else .ok none) else .ok (some p)

/-- forgets the keys that are stale; a required one must not be -/
def forgetStale (s : Scan) : Except Fault Scan := do
  let key ← s.forget s.key
  let outer ← s.outerKeys.mapM s.forget
  return { s with key := key, outerKeys := outer }

def dropKey (s : Scan) : Except Fault Scan :=
  match s.key with
  | none => .ok s
  | some k => if k.required then malformed else .ok { s with key := none }

/-- the node that starts here may be a key -/
def markKey (s : Scan) : Except Fault Scan :=
  if s.keyAllowed then do
    let t ← s.dropKey
    let required := !s.inFlow && s.blocks.head? == some s.cursor.column
    return { t with
      key := some ⟨s.count, required, s.cursor.index, s.cursor.line, s.cursor.column⟩ }
  else .ok s

def allowKey (b : Bool) (s : Scan) : Scan := { s with keyAllowed := b }

/-- past blanks, comments and line ends; a new line outside brackets may start with a key -/
def toNextToken : Nat → Scan → Scan
  | 0, s => s
  | fuel + 1, s =>
    let c := s.cursor.skipBlanks.skipComment
    match c.lineBreak? with
    | none => { s with cursor := c }
    | some (_, d) =>
      toNextToken fuel { s with cursor := d, keyAllowed := s.keyAllowed || !s.inFlow }

def outermost (s : Scan) : Except Fault Scan := (s.closeAll.dropKey).map (allowKey false)

def documentToken (s : Scan) (t : Token) : Except Fault Scan := do
  return (← s.outermost).skip 3 |>.push t

def directive (s : Scan) : Except Fault Scan := do
  let t ← s.outermost
  let (token, c) ← directiveToken t.cursor
  return { t with cursor := c }.push token

def openFlow (s : Scan) (t : Token) : Except Fault Scan := do
  let s ← s.markKey
  return { s with key := none, outerKeys := s.key :: s.outerKeys, keyAllowed := true }.skip 1
    |>.push t

def closeFlow (s : Scan) (t : Token) : Except Fault Scan := do
  let s ← s.dropKey
  match s.outerKeys with
  | [] => malformed
  | key :: outer =>
    return { s with key := key, outerKeys := outer, keyAllowed := false }.skip 1 |>.push t

def comma (s : Scan) : Except Fault Scan := do
  return (← s.dropKey).allowKey true |>.skip 1 |>.push .comma

def openBlock (s : Scan) (t : Token) : Scan :=
  if s.deeper s.cursor.column then
    { s.push t with blocks := s.cursor.column :: s.blocks }
  else s

/-- outside brackets, a sign that may start a block must stand where a key may -/
def openAt (s : Scan) (t : Token) : Except Fault Scan :=
  if s.inFlow then .ok s
  else if s.keyAllowed then .ok (s.openBlock t)
  else malformed

def blockEntry (s : Scan) : Except Fault Scan := do
  let s ← s.openAt .blockSequence
  return (← s.dropKey).allowKey true |>.skip 1 |>.push .entry

def explicitKey (s : Scan) : Except Fault Scan := do
  let s ← s.openAt .blockMapping
  return (← s.dropKey).allowKey !s.inFlow |>.skip 1 |>.push .key

/-- turns the remembered node into a key, which may open a block mapping -/
def settleKey (s : Scan) (k : KeyPlace) : Scan :=
  let s := { s.insertAfter k.tokens .key with key := none, keyAllowed := false }
  if !s.inFlow && s.deeper k.column then
    { s.insertAfter k.tokens .blockMapping with blocks := k.column :: s.blocks }
  else s

def mappingValue (s : Scan) : Except Fault Scan :=
  match s.key with
  | some k => .ok (s.settleKey k |>.skip 1 |>.push .value)
  | none => do
    let s ← s.openAt .blockMapping
    return s.allowKey !s.inFlow |>.skip 1 |>.push .value

def leaf (s : Scan) (read : Cursor → Except Fault (Token × Cursor)) : Except Fault Scan := do
  let s ← s.markKey
  let (token, c) ← read s.cursor
  return { s with cursor := c, keyAllowed := false }.push token

def aliasToken (c : Cursor) : Except Fault (Token × Cursor) :=
  (anchorName c.step).map fun r => (.alias r.1, r.2)

def anchorToken (c : Cursor) : Except Fault (Token × Cursor) :=
  (anchorName c.step).map fun r => (.anchor r.1, r.2)

def quotedToken (double : Bool) (c : Cursor) : Except Fault (Token × Cursor) :=
  (quotedScalar double c).map fun r => (.scalar r.1 false, r.2)

def least (s : Scan) : Nat :=
  match s.blocks with
  | [] => 0
  | b :: _ => b + 1

def block (s : Scan) (folded : Bool) : Except Fault Scan := do
  let s ← s.dropKey
  let (text, c) ← blockScalar folded s.least s.cursor
  return { s with cursor := c, keyAllowed := true }.push (.scalar text false)

def plain (s : Scan) : Except Fault Scan := do
  let s ← s.markKey
  let p := plainScalar s.inFlow s.least s.cursor
  return { s with cursor := p.after, keyAllowed := p.newLine }.push (.scalar p.text true)

def signs : List Char := "-?:,[]\x7b\x7d#&*!|>'\"%@`".toList

def startsPlain (flow : Bool) : List Char → Bool
  | [] => false
  | c :: cs =>
    !(isSpace c || isBreak c || signs.contains c) ||
      (!endsWord cs && (c == '-' || (!flow && (c == '?' || c == ':'))))

def token (s : Scan) : Except Fault Scan :=
  let ahead := s.cursor.ahead
  let flow := s.inFlow
  match ahead with
  | [] => .ok s
  | c :: cs =>
    if c = '%' ∧ s.cursor.column = 0 then s.directive
    else if s.cursor.column = 0 ∧ documentMark ahead then
      s.documentToken (if c = '-' then .documentStart else .documentEnd)
    else if c = '[' then s.openFlow .flowSequence
    else if c = '{' then s.openFlow .flowMapping
    else if c = ']' then s.closeFlow .flowSequenceEnd
    else if c = '}' then s.closeFlow .flowMappingEnd
    else if c = ',' then s.comma
    else if c = '-' ∧ endsWord cs then s.blockEntry
    else if c = '?' ∧ (flow || endsWord cs) then s.explicitKey
    else if c = ':' ∧ (flow || endsWord cs) then s.mappingValue
    else if c = '*' then s.leaf aliasToken
    else if c = '&' then s.leaf anchorToken
    else if c = '!' then s.leaf tagToken
    else if c = '|' ∧ !flow then s.block false
    else if c = '>' ∧ !flow then s.block true
    else if c = '\'' then s.leaf (quotedToken false)
    else if c = '"' then s.leaf (quotedToken true)
    else if startsPlain flow ahead then s.plain
    else malformed

def closeBlocks (s : Scan) : Scan := if s.inFlow then s else s.closeTo s.cursor.column

/-- the next token with what stands before it; nothing at the end of the text -/
def next (s : Scan) : Except Fault (Scan × Bool) := do
  let s ← (s.toNextToken (s.cursor.left + 1)).forgetStale
  let s := s.closeBlocks
  if s.cursor.ahead.isEmpty then
    let s ← (if s.inFlow then s else s.closeAll).dropKey
    return (s, false)
  else return (← s.token, true)

/-- the tokens before a fault; none is known from the first possible key on -/
def cutOff (s : Scan) (f : Fault) : List Token :=
  let keys := ((s.key :: s.outerKeys).filterMap id).filter (!s.stale ·)
  let known := keys.foldl (fun n k => min n k.tokens) s.count
  (s.tokens.drop (s.count - known)).reverse ++ [.fault f]

/-- as many characters are looked at to tell what comes next -/
def foresight : Nat := 4

/-- the fault that is met where a text that ends in a fault cannot be read on -/
def faultMet (s : Scan) (ending f : Fault) : Fault :=
  let near := (s.toNextToken (s.cursor.left + 1)).cursor.left < foresight
  if near || f = .unfinished then ending else f

/-- the tokens up to the end of the text, in order; where the text ends in a fault, it stands for
what cannot be told without the rest -/
def tokensFrom (ending : Option Fault) : Nat → Scan → List Token
  | 0, s => s.cutOff .malformed
  | fuel + 1, s =>
    match s.next, ending with
    | .error f, none => s.cutOff (if f = .unfinished then .malformed else f)
    | .error f, some e => s.cutOff (s.faultMet e f)
    | .ok (t, more), none => if more then tokensFrom none fuel t else t.tokens.reverse
    | .ok (t, more), some e =>
      if more && foresight ≤ t.cursor.left then tokensFrom (some e) fuel t else s.cutOff e

end Scan

/-- the tokens of a text, each of which takes at least one character; `ending` is what keeps the
rest of the text from being read -/
def tokens (text : List Char) (ending : Option Fault) : List Token :=
  Scan.tokensFrom ending (text.length + 1) { cursor := .start text }

end LinkedCalls.Yaml
