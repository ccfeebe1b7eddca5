import LinkedCalls.Scalar
import LinkedCalls.Yaml.PlainTag

/-!
How a scalar is written: plain where that reads back as the same scalar, else between single
quotes, and between double quotes with escapes where nothing else will do. Long texts are folded at
blanks.
-/
namespace LinkedCalls.Yaml

inductive Style where
  | plain
  | single
  | double
deriving DecidableEq

namespace Style

def isVisible (c : Char) : Bool := 0x20 ≤ c.toNat && c.toNat ≤ 0x7E

def hasPair (p q : Char → Bool) : List Char → Bool
  | c :: d :: cs => (p c && q d) || hasPair p q (d :: cs)
  | _ => false

def isBlank (c : Char) : Bool := c == ' '

def hasBlankEnd (cs : List Char) : Bool :=
  cs.head? == some ' ' || cs.getLast? == some ' '

def hasRaggedLine (cs : List Char) : Bool :=
  hasPair isBlank isBreak cs || hasPair isBreak isBlank cs

def startSigns : List Char := "#,[]\x7b\x7d&*!|>'\"%@`".toList

def startsWithSign : List Char → Bool
  | [] => false
  | c :: cs => startSigns.contains c || ("?:-".toList.contains c && endsWord cs)

def startsWithMark (cs : List Char) : Bool :=
  "---".toList.isPrefixOf cs || "...".toList.isPrefixOf cs

/-- a colon before a blank or the end, or a number sign after a blank -/
def hasSign : List Char → Bool
  | c :: cs =>
    (c == ':' && endsWord cs) || ((isSpace c || isBreak c) && cs.head? == some '#') || hasSign cs
  | [] => false

def allowsPlain (cs : List Char) : Bool :=
  cs.all isVisible && !hasBlankEnd cs && !startsWithMark cs && !startsWithSign cs && !hasSign cs

def allowsSingle (cs : List Char) : Bool :=
  cs.all (fun c => c == '\n' || isVisible c) && !hasRaggedLine cs

def ofText (cs : List Char) : Style :=
  if Tag.ofPlain cs = .text ∧ allowsPlain cs then .plain
  else if allowsSingle cs then .single
  else .double

end Style

/-- lines longer than this are folded -/
def width : Nat := 80

def blanks (n : Nat) : List Char := List.replicate n ' '

def newLine (indent : Nat) : List Char := '\n' :: blanks indent

inductive Run where
  | word (cs : List Char)
  | blanks (n : Nat)
  | breaks (n : Nat)

namespace Run

def add (c : Char) (rs : List Run) : List Run :=
  if c = ' ' then
    match rs with
    | .blanks n :: rs => .blanks (n + 1) :: rs
    | rs => .blanks 1 :: rs
  else if c = '\n' then
    match rs with
    | .breaks n :: rs => .breaks (n + 1) :: rs
    | rs => .breaks 1 :: rs
  else
    match rs with
    | .word cs :: rs => .word (c :: cs) :: rs
    | rs => .word [c] :: rs

def ofText (cs : List Char) : List Run := cs.foldr add []

/-- a blank between words is a new line once the line is full; line ends are one more than read -/
def layout (quote : List Char → List Char) (indent : Nat) : Nat → Bool → List Run → List Char
  | _, _, [] => []
  | column, _, .word cs :: rs =>
    quote cs ++ layout quote indent (column + (quote cs).length) false rs
  | column, first, .blanks n :: rs =>
    if n = 1 ∧ width < column ∧ !first ∧ !rs.isEmpty then
      newLine indent ++ layout quote indent indent false rs
    else Yaml.blanks n ++ layout quote indent (column + n) false rs
  | _, _, .breaks n :: rs =>
    List.replicate n '\n' ++ newLine indent ++ layout quote indent indent false rs

end Run

def doubledQuotes (cs : List Char) : List Char :=
  cs.flatMap fun c => if c = '\'' then ['\'', '\''] else [c]

def upperHex (width n : Nat) : List Char :=
  match width with
  | 0 => []
  | width + 1 => upperHex width (n / 16) ++ [(Nat.digitChar (n % 16)).toUpper]

def escapeLetters : List (Char × Char) :=
  [('\x00', '0'), ('\x07', 'a'), ('\x08', 'b'), ('\x09', 't'), ('\x0A', 'n'), ('\x0B', 'v'),
    ('\x0C', 'f'), ('\x0D', 'r'), ('\x1B', 'e'), ('"', '"'), ('\\', '\\'), ('\x85', 'N'),
    ('\xA0', '_'), ('\u2028', 'L'), ('\u2029', 'P')]

def escaped (n : Nat) : List Char :=
  match escapeLetters.find? (·.1.toNat == n) with
  | some e => ['\\', e.2]
  | none =>
    if n ≤ 0xFF then '\\' :: 'x' :: upperHex 2 n
    else if n ≤ 0xFFFF then '\\' :: 'u' :: upperHex 4 n
    else '\\' :: 'U' :: upperHex 8 n

def needsEscape (n : Nat) : Bool :=
  Half.isNumber n || !Style.isVisible (Char.ofNat n) || n == '"'.toNat || n == '\\'.toNat

def startsBlank (codes : List Nat) : Bool := codes.head? == some ' '.toNat

/-- ends the line within double quotes; a blank at the start of the next line needs an escape -/
def continued (indent : Nat) (next : List Nat) : List Char :=
  '\\' :: newLine indent ++ if startsBlank next then ['\\'] else []

def continuedColumn (indent : Nat) (next : List Nat) : Nat :=
  if startsBlank next then indent + 1 else indent

/-- between double quotes, by code points; a full line ends before a blank or beside an escape.
`fresh` says that an escape came last, `first` that nothing came before -/
def doubleLayout (indent : Nat) : Nat → Bool → Bool → List Nat → List Char
  | _, _, _, [] => []
  | column, fresh, first, n :: ns =>
    let inner := !first && !ns.isEmpty
    if needsEscape n then
      let after := column + (escaped n).length
      if inner && width + 1 < after then
        escaped n ++ continued indent ns ++
          doubleLayout indent (continuedColumn indent ns) true false ns
      else escaped n ++ doubleLayout indent after true false ns
    else if inner && (startsBlank [n] || fresh) && width < column then
      continued indent (n :: ns) ++
        Char.ofNat n :: doubleLayout indent (continuedColumn indent (n :: ns) + 1) false false ns
    else Char.ofNat n :: doubleLayout indent (column + 1) false false ns

def textLayout (indent column : Nat) (cs : List Char) : List Char :=
  match Style.ofText cs with
  | .plain => Run.layout id indent column true (Run.ofText cs)
  | .single => '\'' :: Run.layout doubledQuotes indent (column + 1) true (Run.ofText cs) ++ ['\'']
  | .double => '"' :: doubleLayout indent (column + 1) false true (Half.codes cs) ++ ['"']

/-- a number always shows a point, also before an exponent -/
def floatLayout : Binary64 → List Char
  | .nan _ => ".nan".toList
  | .infinite s => if s then "-.inf".toList else ".inf".toList
  | x =>
    let cs := x.text.toList
    if cs.contains '.' then cs
    else cs.takeWhile (· != 'e') ++ ['.', '0'] ++ cs.dropWhile (· != 'e')

def scalarLayout (indent column : Nat) : Scalar → List Char
  | .null => "null".toList
  | .bool b => (if b then "true" else "false").toList
  | .int n => (toString n).toList
  | .float x => floatLayout x
  | .text s => textLayout indent column s.toList

end LinkedCalls.Yaml
