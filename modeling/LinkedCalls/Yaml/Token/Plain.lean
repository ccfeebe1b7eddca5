import LinkedCalls.Yaml.Token

/-!
Plain scalars: text without quotes. It goes on over lines that are indented deeper than the block
around it, or anywhere within brackets.
-/
namespace LinkedCalls.Yaml

def isFlowSign (c : Char) : Bool := ",[]\x7b\x7d".toList.contains c

def endsPlain (flow : Bool) : List Char → Bool
  | [] => true
  | c :: cs =>
    isSpace c || isBreak c ||
      (c == ':' && (endsWord cs || (flow && (cs.head?.map isFlowSign).getD false))) ||
      (flow && (isFlowSign c || c == '?'))

def plainRun (flow : Bool) : List Char → List Char
  | [] => []
  | c :: cs => if endsPlain flow (c :: cs) then [] else c :: plainRun flow cs

/-- what stands between two parts of a plain scalar, nothing where it cannot go on -/
structure Gap where
  text : List Char
  after : Cursor
  broken : Bool

/-- the line ends after a first one, with the blanks between; none if a document mark follows -/
def gapBreaks : Nat → Cursor → Option (List Char) × Cursor
  | 0, c => (some [], c)
  | fuel + 1, c =>
    if documentMark c.ahead then (none, c)
    else
      let d := c.skipBlanks
      match d.lineBreak? with
      | none => (some [], d)
      | some (b, e) =>
        let (more, f) := gapBreaks fuel e
        (more.map (b :: ·), f)

def gap (c : Cursor) : Gap :=
  let (blanks, d) := c.span (· == ' ')
  match d.lineBreak? with
  | none => ⟨blanks, d, false⟩
  | some (b, e) =>
    match gapBreaks e.left e with
    | (none, f) => ⟨[], f, true⟩
    | (some more, f) => ⟨foldedBreaks b more, f, true⟩

/-- a plain scalar with the place after it, and whether that is on a line past its last part -/
structure PlainScalar where
  text : List Char
  after : Cursor
  newLine : Bool

def plainParts (flow : Bool) (indent : Nat) : Nat → Cursor → PlainScalar
  | 0, c => ⟨[], c, false⟩
  | fuel + 1, c =>
    let run := plainRun flow c.ahead
    let g := gap (c.steps run.length)
    if g.text.isEmpty || g.after.ahead.head? == some '#' || (!flow && g.after.column < indent) ||
        endsPlain flow g.after.ahead then
      ⟨run, g.after, g.broken⟩
    else
      let rest := plainParts flow indent fuel g.after
      ⟨run ++ g.text ++ rest.text, rest.after, rest.newLine⟩

def plainScalar (flow : Bool) (indent : Nat) (c : Cursor) : PlainScalar :=
  plainParts flow indent c.left c

end LinkedCalls.Yaml
