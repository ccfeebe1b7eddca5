import LinkedCalls.Text.Quoted

/-!
Text from its UTF-8 bytes. The first byte of a character fixes the number of bytes after it and
the range of the second; a failure names the bytes that stand wrong and why.
-/
namespace LinkedCalls

inductive Utf8Reason where
  | start
  | continuation
  | ending
deriving DecidableEq

/-- bytes `first` to `last` cannot be read; those of an unfinished last character are counted from
its own first byte -/
structure Utf8Fault where
  byte : UInt8
  first : Nat
  last : Nat
  reason : Utf8Reason
deriving DecidableEq

/-- the number of bytes that follow a first byte, with the least and greatest second byte -/
def utf8Follow (b : Nat) : Option (Nat × Nat × Nat) :=
  if b < 0x80 then some (0, 0, 0)
  else if b < 0xC2 then none
  else if b < 0xE0 then some (1, 0x80, 0xBF)
  else if b = 0xE0 then some (2, 0xA0, 0xBF)
  else if b = 0xED then some (2, 0x80, 0x9F)
  else if b < 0xF0 then some (2, 0x80, 0xBF)
  else if b = 0xF0 then some (3, 0x90, 0xBF)
  else if b < 0xF4 then some (3, 0x80, 0xBF)
  else if b = 0xF4 then some (3, 0x80, 0x8F)
  else none

/-- the bytes owed after `read` good ones: all of them, or the number read and why it stops -/
def utf8Tail (lo hi : Nat) : Nat → Nat → List UInt8 → Except (Nat × Utf8Reason) (List UInt8)
  | 0, _, _ => .ok []
  | _ + 1, read, [] => .error (read, .ending)
  | owed + 1, read, b :: bs =>
    if lo ≤ b.toNat ∧ b.toNat ≤ hi then (utf8Tail 0x80 0xBF owed (read + 1) bs).map (b :: ·)
    else .error (read, .continuation)

def utf8Value (b : Nat) (tail : List UInt8) : Nat :=
  let top := match tail.length with
    | 0 => b
    | 1 => b % 0x20
    | 2 => b % 0x10
    | _ => b % 0x08
  tail.foldl (fun n t => n * 64 + t.toNat % 64) top

/-- reads at most `fuel` characters, the first byte standing at `position` -/
def utf8From (position : Nat) : Nat → List UInt8 → Except Utf8Fault (List Char)
  | 0, _ => .ok []
  | _ + 1, [] => .ok []
  | fuel + 1, b :: bs =>
    match utf8Follow b.toNat with
    | none => .error ⟨b, position, position, .start⟩
    | some (owed, lo, hi) =>
      match utf8Tail lo hi owed 0 bs with
      | .error (read, .ending) => .error ⟨b, 0, read, .ending⟩
      | .error (read, reason) => .error ⟨b, position, position + read, reason⟩
      | .ok tail =>
        (utf8From (position + 1 + owed) fuel (bs.drop owed)).map
          (Char.ofNat (utf8Value b.toNat tail) :: ·)

def decodeUtf8 (bytes : List UInt8) : Except Utf8Fault (List Char) :=
  utf8From 0 bytes.length bytes

structure Decoded where
  text : List Char
  fault : Option Utf8Fault := none

/-- files are decoded by blocks of bytes -/
def blockSize : Nat := 8192

/-- the characters that end before byte `limit`, and the byte after them; the first one stands at
`position` -/
def charsBefore (limit position : Nat) : List Char → List Char × Nat
  | [] => ([], position)
  | c :: cs =>
    if position + c.utf8Size ≤ limit then
      let (before, offset) := charsBefore limit (position + c.utf8Size) cs
      (c :: before, offset)
    else ([], position)

def goodChars (bytes : List UInt8) (count : Nat) : List Char :=
  match decodeUtf8 (bytes.take count) with
  | .ok cs => cs
  | .error _ => []

/-- a file up to the block with a fault, whose place is counted from the first character that the
block completes -/
def decodeFile (bytes : List UInt8) : Decoded :=
  match decodeUtf8 bytes with
  | .ok cs => ⟨cs, none⟩
  | .error fault =>
    match fault.reason with
    | .ending => ⟨goodChars bytes (bytes.length - (fault.last + 1)), some fault⟩
    | reason =>
      let wrong := if reason = .start then fault.first else fault.last + 1
      let (before, offset) :=
        charsBefore (wrong / blockSize * blockSize) 0 (goodChars bytes fault.first)
      let fault := { fault with first := fault.first - offset, last := fault.last - offset }
      ⟨before, some fault⟩

/-- every line end, `CR LF` and a lone `CR` too, as one line feed -/
def plainLines : List Char → List Char
  | '\r' :: '\n' :: cs => '\n' :: plainLines cs
  | '\r' :: cs => '\n' :: plainLines cs
  | c :: cs => c :: plainLines cs
  | [] => []

def Utf8Reason.text : Utf8Reason → String
  | .start => "invalid start byte"
  | .continuation => "invalid continuation byte"
  | .ending => "unexpected end of data"

def Utf8Fault.message (fault : Utf8Fault) : String :=
  let place :=
    if fault.first = fault.last then
      s!"byte 0x{String.ofList (hexDigits 2 fault.byte.toNat)} in position {fault.first}"
    else s!"bytes in position {fault.first}-{fault.last}"
  s!"'utf-8' codec can't decode {place}: {fault.reason.text}"

end LinkedCalls
