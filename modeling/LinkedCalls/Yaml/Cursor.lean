import LinkedCalls.Yaml.Fault

/-!
Places in a text: what stands ahead, and how many characters, lines and columns lie behind. A byte
order mark takes no column.
-/
namespace LinkedCalls.Yaml

/-- line feed, next line, line separator and paragraph separator end a line -/
def isBreak (c : Char) : Bool := c == '\n' || c == '\x85' || c == '\u2028' || c == '\u2029'

def isSpace (c : Char) : Bool := c == ' ' || c == '\t'

def endsLine : List Char → Bool
  | [] => true
  | c :: _ => isBreak c

def endsWord : List Char → Bool
  | [] => true
  | c :: _ => isSpace c || isBreak c

/-- `---` or `...` as a word, which stands between documents -/
def documentMark : List Char → Bool
  | '-' :: '-' :: '-' :: cs => endsWord cs
  | '.' :: '.' :: '.' :: cs => endsWord cs
  | _ => false

/-- the separators are kept, other line ends are read as line feeds -/
def breakText (c : Char) : Char := if c == '\u2028' || c == '\u2029' then c else '\n'

/-- `left` counts the characters ahead -/
structure Cursor where
  ahead : List Char
  left : Nat
  index : Nat := 0
  line : Nat := 0
  column : Nat := 0

namespace Cursor

/-- a byte order mark at the front is passed over -/
def start (text : List Char) : Cursor :=
  match text with
  | '\uFEFF' :: cs => ⟨cs, cs.length, 1, 0, 0⟩
  | cs => ⟨cs, cs.length, 0, 0, 0⟩

def step (c : Cursor) : Cursor :=
  match c.ahead with
  | [] => c
  | x :: xs =>
    if isBreak x then ⟨xs, c.left - 1, c.index + 1, c.line + 1, 0⟩
    else if x = '\uFEFF' then ⟨xs, c.left - 1, c.index + 1, c.line, c.column⟩
    else ⟨xs, c.left - 1, c.index + 1, c.line, c.column + 1⟩

def steps : Nat → Cursor → Cursor
  | 0, c => c
  | n + 1, c => steps n c.step

def span (p : Char → Bool) (c : Cursor) : List Char × Cursor :=
  (c.ahead.takeWhile p, c.steps (c.ahead.takeWhile p).length)

def skip (p : Char → Bool) (c : Cursor) : Cursor := (c.span p).2

def skipBlanks (c : Cursor) : Cursor := c.skip (· == ' ')

def skipComment (c : Cursor) : Cursor :=
  if c.ahead.head? = some '#' then c.skip (!isBreak ·) else c

def lineBreak? (c : Cursor) : Option (Char × Cursor) :=
  match c.ahead with
  | [] => none
  | x :: _ => if isBreak x then some (breakText x, c.step) else none

def skipBreak (c : Cursor) : Cursor :=
  match c.lineBreak? with
  | some (_, d) => d
  | none => c

/-- past blanks, but not past a column -/
def blanksTo (column : Nat) (c : Cursor) : Cursor :=
  c.steps (min (column - c.column) (c.ahead.takeWhile (· == ' ')).length)

/-- what stands here is wrong; at the end of the text something is missing -/
def refuse {α : Type} (c : Cursor) : Except Fault α :=
  .error (if c.ahead.isEmpty then .unfinished else .malformed)

def demand (c : Cursor) (b : Bool) : Except Fault Unit := if b then .ok () else c.refuse

end Cursor

/-- what a line end with empty lines after it stands for within a scalar: a single one is a space -/
def foldedBreaks (first : Char) (more : List Char) : List Char :=
  (if first ≠ '\n' then [first] else if more.isEmpty then [' '] else []) ++ more

end LinkedCalls.Yaml
