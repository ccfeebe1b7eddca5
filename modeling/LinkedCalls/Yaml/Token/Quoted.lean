import LinkedCalls.Yaml.Token.Property

/-!
Quoted scalars. Within single quotes a quote is written twice; within double quotes a backslash
starts an escape. Line ends are folded in both.
-/
namespace LinkedCalls.Yaml

def escapes : List (Char × Char) :=
  [('0', '\x00'), ('a', '\x07'), ('b', '\x08'), ('t', '\x09'), ('\t', '\x09'), ('n', '\x0A'),
    ('v', '\x0B'), ('f', '\x0C'), ('r', '\x0D'), ('e', '\x1B'), (' ', ' '), ('"', '"'),
    ('\\', '\\'), ('/', '/'), ('N', '\x85'), ('_', '\xA0'), ('L', '\u2028'), ('P', '\u2029')]

/-- escapes with a number, and how many digits it has -/
def numberEscapes : List (Char × Nat) := [('x', 2), ('u', 4), ('U', 8)]

def lookupChar {α : Type} (table : List (Char × α)) (c : Char) : Option α :=
  (table.find? (·.1 == c)).map Prod.snd

def textOfNumber (n : Nat) : Except Fault (List Char) :=
  if 0x110000 ≤ n then .error (.notCharacter n)
  else .ok (if Half.isNumber n then Half.chars n else [Char.ofNat n])

/-- the empty lines after a line end, with the blanks of each; no document mark may follow -/
def quotedBreaks : Nat → Cursor → Except Fault (List Char × Cursor)
  | 0, c => .ok ([], c)
  | fuel + 1, c => do
    c.demand !(documentMark c.ahead)
    let d := c.skip isSpace
    match d.lineBreak? with
    | none => return ([], d)
    | some (b, e) =>
      let (more, f) ← quotedBreaks fuel e
      return (b :: more, f)

def escape (c : Cursor) : Except Fault (List Char × Cursor) :=
  match c.ahead with
  | [] => c.refuse
  | x :: xs =>
    match lookupChar escapes x, lookupChar numberEscapes x with
    | some y, _ => .ok ([y], c.step)
    | none, some count =>
      match hexNumber xs count with
      | some n => (textOfNumber n).map fun cs => (cs, c.steps (count + 1))
      | none => refuseDigits c.step
    | none, none => if isBreak x then quotedBreaks c.left c.step else c.refuse

def quotedFrom (double : Bool) : Nat → Cursor → Except Fault (List Char × Cursor)
  | 0, c => c.refuse
  | fuel + 1, c =>
    let goOn := fun (text : List Char) (d : Cursor) => do
      let (more, e) ← quotedFrom double fuel d
      return (text ++ more, e)
    match c.ahead with
    | [] => c.refuse
    | x :: xs =>
      if isSpace x || isBreak x then
        let (blanks, d) := c.span isSpace
        match d.lineBreak? with
        | none => goOn blanks d
        | some (b, e) => do
          let (more, f) ← quotedBreaks e.left e
          goOn (foldedBreaks b more) f
      else if double then
        if x = '"' then .ok ([], c.step)
        else if x = '\\' then do
          let (text, d) ← escape c.step
          goOn text d
        else goOn [x] c.step
      else if x = '\'' then
        if xs.head? = some '\'' then goOn [x] (c.steps 2) else .ok ([], c.step)
      else goOn [x] c.step

def quotedScalar (double : Bool) (c : Cursor) : Except Fault (List Char × Cursor) :=
  quotedFrom double (c.left + 1) c.step

end LinkedCalls.Yaml
