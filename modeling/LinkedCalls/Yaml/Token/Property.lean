import LinkedCalls.Yaml.Token

/-!
Anchors, aliases, tags and directives.
-/
namespace LinkedCalls.Yaml

def isWordChar (c : Char) : Bool := c.isAlphanum || c == '-' || c == '_'

def word (c : Cursor) : Except Fault (List Char × Cursor) :=
  let (name, d) := c.span isWordChar
  if name.isEmpty then d.refuse else .ok (name, d)

def endsName : List Char → Bool
  | [] => true
  | c :: cs => endsWord (c :: cs) || "?:,]\x7d%@`".toList.contains c

def anchorName (c : Cursor) : Except Fault (List Char × Cursor) := do
  let (name, d) ← word c
  d.demand (endsName d.ahead)
  return (name, d)

def endsTag : List Char → Bool
  | [] => true
  | c :: _ => c == ' ' || isBreak c

/-- the handle at the front: `!`, `!!` or a name between two signs -/
def tagHandle (c : Cursor) : Except Fault (List Char × Cursor) :=
  match c.ahead with
  | '!' :: ' ' :: _ => .ok (['!'], c.step)
  | '!' :: cs =>
    let name := cs.takeWhile isWordChar
    if cs[name.length]? = some '!' then .ok ('!' :: name ++ ['!'], c.steps (name.length + 2))
    else (c.steps (name.length + 1)).refuse
  | _ => c.refuse

def isUriChar (c : Char) : Bool :=
  c.isAlphanum || "-;/?:@&=+$,_.!~*'()[]".toList.contains c

def hexDigit? (c : Char) : Option Nat :=
  let n := c.toNat
  if '0'.toNat ≤ n ∧ n ≤ '9'.toNat then some (n - '0'.toNat)
  else if 'a'.toNat ≤ n ∧ n ≤ 'f'.toNat then some (n - 'a'.toNat + 10)
  else if 'A'.toNat ≤ n ∧ n ≤ 'F'.toNat then some (n - 'A'.toNat + 10)
  else none

def hexNumber (cs : List Char) (count : Nat) : Option Nat :=
  (cs.take count).foldl (fun n? c => do return 16 * (← n?) + (← hexDigit? c))
    (if (cs.take count).length = count then some 0 else none)

def refuseDigits {α : Type} (c : Cursor) : Except Fault α :=
  (c.skip fun x => (hexDigit? x).isSome).refuse

def uriBytes : Nat → Cursor → Except Fault (List UInt8 × Cursor)
  | 0, c => .ok ([], c)
  | fuel + 1, c =>
    match c.ahead with
    | '%' :: cs =>
      match hexNumber cs 2 with
      | none => refuseDigits c.step
      | some n => do
        let (bytes, d) ← uriBytes fuel (c.steps 3)
        return (UInt8.ofNat n :: bytes, d)
    | _ => .ok ([], c)

def uriFrom : Nat → Cursor → Except Fault (List Char × Cursor)
  | 0, c => .ok ([], c)
  | fuel + 1, c =>
    match c.ahead with
    | '%' :: _ => do
      let (bytes, d) ← uriBytes c.left c
      match decodeUtf8 bytes with
      | .error _ => d.refuse
      | .ok cs =>
        let (more, e) ← uriFrom fuel d
        return (cs ++ more, e)
    | x :: _ =>
      if isUriChar x then do
        let (more, d) ← uriFrom fuel c.step
        return (x :: more, d)
      else .ok ([], c)
    | [] => .ok ([], c)

/-- the rest of a tag; it takes at least one character -/
def uri (c : Cursor) : Except Fault (List Char × Cursor) := do
  c.demand (match c.ahead with
    | x :: _ => isUriChar x || x == '%'
    | [] => false)
  uriFrom c.left c

def verbatimTag (c : Cursor) : Except Fault (Token × Cursor) := do
  let (suffix, d) ← uri c
  d.demand (d.ahead.head? == some '>')
  return (.tag none suffix, d.step)

/-- a tag that starts with a handle; a sign alone is a handle too -/
def shortTag (c : Cursor) : Except Fault (Token × Cursor) := do
  let inWord := (c.ahead.drop 1).takeWhile fun x => !(x == ' ' || isBreak x)
  let (handle, d) ← if inWord.contains '!' then tagHandle c else .ok (['!'], c.step)
  let (suffix, e) ← uri d
  return (.tag (some handle) suffix, e)

def tagToken (c : Cursor) : Except Fault (Token × Cursor) := do
  let after := c.ahead.drop 1
  let (token, d) ←
    if after.head? = some '<' then verbatimTag (c.steps 2)
    else if endsWord after then .ok (.tag none ['!'], c.step)
    else shortTag c
  d.demand (endsTag d.ahead)
  return (token, d)

def restOfLine (c : Cursor) : Except Fault Cursor := do
  let d := c.skipBlanks.skipComment
  d.demand (endsLine d.ahead)
  return d.skipBreak

def versionNumber (c : Cursor) : Except Fault (Nat × Cursor) :=
  let (digits, d) := c.span Char.isDigit
  if digits.isEmpty then d.refuse
  else .ok (digits.foldl (fun n x => 10 * n + (x.toNat - '0'.toNat)) 0, d)

def versionDirective (c : Cursor) : Except Fault (Directive × Cursor) := do
  let (major, d) ← versionNumber c.skipBlanks
  d.demand (d.ahead.head? == some '.')
  let (_, e) ← versionNumber d.step
  e.demand (endsTag e.ahead)
  return (.version major, e)

def handleDirective (c : Cursor) : Except Fault (Directive × Cursor) := do
  let (name, d) ← tagHandle c.skipBlanks
  d.demand (d.ahead.head? == some ' ')
  let (meaning, e) ← uri d.skipBlanks
  e.demand (endsTag e.ahead)
  return (.handle name meaning, e)

/-- a directive from its sign to the end of its line; unknown ones are passed over -/
def directiveToken (c : Cursor) : Except Fault (Token × Cursor) := do
  let (name, d) ← word c.step
  d.demand (endsTag d.ahead)
  let (directive, e) ←
    if name = "YAML".toList then versionDirective d
    else if name = "TAG".toList then handleDirective d
    else .ok (.other, d.skip (!isBreak ·))
  return (.directive directive, ← restOfLine e)

end LinkedCalls.Yaml
