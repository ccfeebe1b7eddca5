import LinkedCalls.Yaml.Token.Property

/-!
Block scalars: the lines below a header, as they are or folded. The header may fix the indentation
and says what becomes of the line ends after the last line.
-/
namespace LinkedCalls.Yaml

/-- what becomes of the line ends after the last line -/
inductive Chomp where
  | clip
  | strip
  | keep
deriving DecidableEq

structure BlockHeader where
  chomp : Chomp := .clip
  indent : Option Nat := none

def chompSign (cs : List Char) : Option Chomp :=
  match cs.head? with
  | some '+' => some .keep
  | some '-' => some .strip
  | _ => none

def indentDigit (c : Cursor) : Except Fault (Option Nat × Cursor) :=
  match c.ahead with
  | x :: _ =>
    if x = '0' then c.refuse
    else if x.isDigit then .ok (some (x.toNat - '0'.toNat), c.step)
    else .ok (none, c)
  | [] => .ok (none, c)

/-- both marks are optional and stand in any order -/
def headerMarks (c : Cursor) : Except Fault (BlockHeader × Cursor) :=
  match chompSign c.ahead with
  | some chomp => (indentDigit c.step).map fun r => (⟨chomp, r.1⟩, r.2)
  | none => (indentDigit c).map fun r =>
    match r.1, chompSign r.2.ahead with
    | some n, some chomp => (⟨chomp, some n⟩, r.2.step)
    | indent, _ => (⟨.clip, indent⟩, r.2)

def blockHeader (c : Cursor) : Except Fault (BlockHeader × Cursor) := do
  let (header, d) ← headerMarks c
  d.demand (endsTag d.ahead)
  return (header, ← restOfLine d)

def emptyLines : Nat → Cursor → List Char × Nat × Cursor
  | 0, c => ([], c.column, c)
  | fuel + 1, c =>
    let d := c.skipBlanks
    match d.lineBreak? with
    | none => ([], d.column, d)
    | some (b, e) =>
      let (more, deepest, f) := emptyLines fuel e
      (b :: more, max d.column deepest, f)

/-- the empty lines ahead, up to a line with text at `indent` or before it -/
def blockBreaks (indent : Nat) : Nat → Cursor → List Char × Cursor
  | 0, c => ([], c)
  | fuel + 1, c =>
    let d := c.blanksTo indent
    match d.lineBreak? with
    | none => ([], d)
    | some (b, e) =>
      let (more, f) := blockBreaks indent fuel e
      (b :: more, f)

/-- the lines read, the end of the last one, the line ends after it, and the place after all -/
structure BlockLines where
  text : List Char
  last : List Char
  trailing : List Char
  after : Cursor

def startsWithSpace (cs : List Char) : Bool := (cs.head?.map isSpace).getD false

/-- what joins two lines: only lines that do not start with a space are folded -/
def blockJoin (folded : Bool) (line next : List Char) (last trailing : List Char) : List Char :=
  if folded && last == ['\n'] && !startsWithSpace line && !startsWithSpace next then
    if trailing.isEmpty then [' '] else []
  else last

def blockLines (folded : Bool) (indent : Nat) : Nat → List Char → Cursor → BlockLines
  | 0, before, c => ⟨[], [], before, c⟩
  | fuel + 1, before, c =>
    if c.column = indent ∧ !c.ahead.isEmpty then
      let (line, d) := c.span (!isBreak ·)
      let last := (d.lineBreak?.map Prod.fst).toList
      let (breaks, e) := blockBreaks indent d.left d.skipBreak
      if e.column = indent ∧ !e.ahead.isEmpty then
        let rest := blockLines folded indent fuel breaks e
        { rest with
          text := before ++ line ++ blockJoin folded c.ahead e.ahead last breaks ++ rest.text }
      else ⟨before ++ line, last, breaks, e⟩
    else ⟨[], [], before, c⟩

def BlockLines.chomped (b : BlockLines) : Chomp → List Char
  | .strip => b.text
  | .clip => b.text ++ b.last
  | .keep => b.text ++ b.last ++ b.trailing

def blockScalar (folded : Bool) (least : Nat) (c : Cursor) :
    Except Fault (List Char × Cursor) := do
  let least := max least 1
  let (header, d) ← blockHeader c.step
  let (breaks, indent, e) := match header.indent with
    | some n =>
      let indent := least + n - 1
      let (breaks, e) := blockBreaks indent d.left d
      (breaks, indent, e)
    | none =>
      let (breaks, deepest, e) := emptyLines d.left d
      (breaks, max least deepest, e)
  let lines := blockLines folded indent (e.left + 1) breaks e
  return (lines.chomped header.chomp, lines.after)

end LinkedCalls.Yaml
