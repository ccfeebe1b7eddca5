import LinkedCalls.Yaml.Fault
import LinkedCalls.Yaml.Tag

/-!
Dates, and points of time with an optional offset from universal time.
-/
namespace LinkedCalls.Yaml

structure Date where
  year : Nat
  month : Nat
  day : Nat
deriving DecidableEq

/-- the offset is counted in minutes -/
structure TimeOfDay where
  hour : Nat
  minute : Nat
  second : Nat
  micro : Nat := 0
  offset : Option Int := none
deriving DecidableEq

structure Timestamp where
  date : Date
  time : Option TimeOfDay := none
deriving DecidableEq

namespace Timestamp

def digitsNat (cs : List Char) : Nat := cs.foldl (fun n c => 10 * n + (c.toNat - '0'.toNat)) 0

def digits? (least most : Nat) (cs : List Char) : Option (Nat × List Char) :=
  let ds := (cs.take most).takeWhile Char.isDigit
  if ds.length < least then none else some (digitsNat ds, cs.drop ds.length)

def sign? (c : Char) (cs : List Char) : Option (List Char) :=
  match cs with
  | d :: ds => if d = c then some ds else none
  | [] => none

def microOf (cs : List Char) : Nat :=
  let ds := cs.take 6
  digitsNat (ds ++ List.replicate (6 - ds.length) '0')

def fraction (cs : List Char) : Nat × List Char :=
  match cs with
  | '.' :: ds => (microOf (ds.takeWhile Char.isDigit), ds.dropWhile Char.isDigit)
  | cs => (0, cs)

def offsetMinutes? (cs : List Char) : Option Int := do
  let (hours, rest) ← digits? 1 2 cs
  match rest with
  | [] => some (60 * hours : Int)
  | rest =>
    let (minutes, rest) ← digits? 2 2 (← sign? ':' rest)
    if rest.isEmpty then some (60 * hours + minutes : Int) else none

def offset? (cs : List Char) : Option (Option Int) :=
  match cs with
  | [] => some none
  | cs =>
    match cs.dropWhile isSpace with
    | ['Z'] => some (some 0)
    | '+' :: cs => (offsetMinutes? cs).map some
    | '-' :: cs => (offsetMinutes? cs).map fun n => some (-n)
    | _ => none

def timeOfDay? (cs : List Char) : Option TimeOfDay := do
  let (hour, cs) ← digits? 1 2 cs
  let (minute, cs) ← digits? 2 2 (← sign? ':' cs)
  let (second, cs) ← digits? 2 2 (← sign? ':' cs)
  let (micro, cs) := fraction cs
  let offset ← offset? cs
  return ⟨hour, minute, second, micro, offset⟩

def timeMark? (cs : List Char) : Option (List Char) :=
  match cs with
  | c :: rest =>
    if c = 'T' ∨ c = 't' then some rest
    else if isSpace c then some (rest.dropWhile isSpace)
    else none
  | [] => none

/-- the fields of a timestamp, in or out of their ranges -/
def parse? (cs : List Char) : Option Timestamp := do
  let (year, cs) ← digits? 4 4 cs
  let (month, cs) ← digits? 1 2 (← sign? '-' cs)
  let (day, cs) ← digits? 1 2 (← sign? '-' cs)
  if cs.isEmpty then return ⟨⟨year, month, day⟩, none⟩
  else return ⟨⟨year, month, day⟩, some (← timeOfDay? (← timeMark? cs))⟩

/-- a plain scalar is a date only with all its digits -/
def isPlain (cs : List Char) : Bool :=
  match parse? cs with
  | none => false
  | some t => t.time.isSome || cs.length == 10

def isLeap (year : Nat) : Bool := year % 4 == 0 && (year % 100 != 0 || year % 400 == 0)

def daysIn (year month : Nat) : Nat :=
  if month = 2 then (if isLeap year then 29 else 28)
  else if [4, 6, 9, 11].contains month then 30
  else 31

def Date.fault? (d : Date) : Option DateFault :=
  if d.year = 0 then some (.year d.year)
  else if d.month = 0 ∨ 12 < d.month then some .month
  else if d.day = 0 ∨ daysIn d.year d.month < d.day then some .day
  else none

def TimeOfDay.fault? (t : TimeOfDay) : Option DateFault :=
  if 23 < t.hour then some .hour
  else if 59 < t.minute then some .minute
  else if 59 < t.second then some .second
  else none

def span (minutes : Int) : Int × Int :=
  (Int.fdiv (60 * minutes) 86400, Int.fmod (60 * minutes) 86400)

def offsetFault? (offset : Option Int) : Option DateFault :=
  match offset with
  | some n =>
    if -1440 < n ∧ n < 1440 then none else some (.offset (span n).1 (span n).2)
  | none => none

/-- the offset is looked at first, then the date, then the time -/
def fault? (t : Timestamp) : Option DateFault :=
  (offsetFault? (t.time.bind TimeOfDay.offset)).or <|
    (Date.fault? t.date).or (t.time.bind TimeOfDay.fault?)

def read (text : List Char) : Except Fault Timestamp :=
  match parse? (Tag.withoutLineFeed text) with
  | none => .error .notTimestamp
  | some t =>
    match t.fault? with
    | some fault => .error (.date fault)
    | none => .ok t

/-- the days before a date, from the first year on -/
def dayNumber (d : Date) : Nat :=
  let y := d.year - 1
  365 * y + y / 4 - y / 100 + y / 400 +
    (List.range (d.month - 1)).foldl (fun n m => n + daysIn d.year (m + 1)) 0 + d.day

/-- a point of time in universal time, in millionths of seconds -/
def instant (d : Date) (t : TimeOfDay) (offset : Int) : Int :=
  (((dayNumber d * 24 + t.hour) * 60 + t.minute : Int) - offset) * 60000000 +
    t.second * 1000000 + t.micro

/-- equality: with offsets, points of time are compared wherever they were written down -/
def same (a b : Timestamp) : Bool :=
  match a.time, b.time with
  | some t, some u =>
    match t.offset, u.offset with
    | some m, some n => instant a.date t m == instant b.date u n
    | _, _ => a == b
  | _, _ => a == b

def padded (width n : Nat) : String :=
  let cs := Nat.toDigits 10 n
  String.ofList (List.replicate (width - cs.length) '0' ++ cs)

def offsetText (minutes : Int) : String :=
  (if minutes < 0 then "-" else "+") ++ padded 2 (minutes.natAbs / 60) ++ ":" ++
    padded 2 (minutes.natAbs % 60)

def datePlain (d : Date) : String :=
  padded 4 d.year ++ "-" ++ padded 2 d.month ++ "-" ++ padded 2 d.day

def timePlain (t : TimeOfDay) : String :=
  padded 2 t.hour ++ ":" ++ padded 2 t.minute ++ ":" ++ padded 2 t.second ++
    (if t.micro = 0 then "" else "." ++ padded 6 t.micro) ++
    (t.offset.map offsetText).getD ""

def plain (t : Timestamp) : String :=
  match t.time with
  | none => datePlain t.date
  | some time => datePlain t.date ++ " " ++ timePlain time

def zoneDisplay (minutes : Int) : String :=
  if minutes = 0 then "datetime.timezone.utc"
  else s!"datetime.timezone({spanText (span minutes).1 (span minutes).2})"

/-- the fields that are written: seconds and parts of them only if they are not zero -/
def timeFields (t : TimeOfDay) : List String :=
  [toString t.hour, toString t.minute] ++
    (if t.micro ≠ 0 then [toString t.second, toString t.micro]
      else if t.second ≠ 0 then [toString t.second] else []) ++
    (t.offset.map fun n => s!"tzinfo={zoneDisplay n}").toList

def display (t : Timestamp) : String :=
  let date := [toString t.date.year, toString t.date.month, toString t.date.day]
  match t.time with
  | none => "datetime.date(" ++ ", ".intercalate date ++ ")"
  | some time => "datetime.datetime(" ++ ", ".intercalate (date ++ timeFields time) ++ ")"

end Timestamp

end LinkedCalls.Yaml
