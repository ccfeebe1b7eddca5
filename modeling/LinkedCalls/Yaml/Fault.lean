import LinkedCalls.Text.Utf8

/-!
Why a document cannot be read. A text that is no document at all is malformed, or unfinished where
only its end is amiss; a scalar that does not have the form its tag promises has a fault of its own.
-/
namespace LinkedCalls.Yaml

inductive DateFault where
  | year (n : Nat)
  | month
  | day
  | hour
  | minute
  | second
  | offset (days seconds : Int)
deriving DecidableEq

inductive Fault where
  | malformed
  | unfinished
  | undecodable (fault : Utf8Fault)
  | notCharacter (number : Nat)
  | notInteger (base : Nat) (text : String)
  | tooLong (digits : Nat)
  | notFloat (text : String)
  | tooLarge
  | emptyNumber
  | notBool (text : String)
  | notTimestamp
  | noText
  | endless
  | date (fault : DateFault)
deriving DecidableEq

def spanText (days seconds : Int) : String :=
  let parts := (if days = 0 then [] else [s!"days={days}"]) ++
    (if seconds = 0 then [] else [s!"seconds={seconds}"])
  "datetime.timedelta(" ++ (if parts.isEmpty then "0" else ", ".intercalate parts) ++ ")"

def DateFault.message : DateFault → String
  | .year n => s!"year {n} is out of range"
  | .month => "month must be in 1..12"
  | .day => "day is out of range for month"
  | .hour => "hour must be in 0..23"
  | .minute => "minute must be in 0..59"
  | .second => "second must be in 0..59"
  | .offset days seconds =>
    "offset must be a timedelta strictly between -timedelta(hours=24) and timedelta(hours=24), " ++
      "not " ++ spanText days seconds ++ "."

/-- signed words of 32 bits are below it -/
def signedLimit : Nat := 0x80000000

def Fault.kind : Fault → String
  | .malformed | .unfinished => "YAMLError"
  | .undecodable _ => "UnicodeDecodeError"
  | .notCharacter n => if n < signedLimit then "ValueError" else "OverflowError"
  | .notInteger .. | .tooLong _ | .notFloat _ | .date _ => "ValueError"
  | .tooLarge => "OverflowError"
  | .emptyNumber => "IndexError"
  | .notBool _ => "KeyError"
  | .notTimestamp => "AttributeError"
  | .noText => "TypeError"
  | .endless => "RecursionError"

/-- the most characters of a quoted text that a message on integers shows -/
def mostQuoted : Nat := 200

def Fault.message : Fault → String
  | .malformed | .unfinished => "<YAMLError>"
  | .undecodable fault => fault.message
  | .notCharacter n =>
    if n < signedLimit then "chr() arg not in range(0x110000)"
    else "Python int too large to convert to C int"
  | .notInteger base text =>
    s!"invalid literal for int() with base {base}: " ++
      String.ofList ((quoted text).toList.take mostQuoted)
  | .tooLong digits =>
    s!"Exceeds the limit (4300 digits) for integer string conversion: value has {digits} " ++
      "digits; use sys.set_int_max_str_digits() to increase the limit"
  | .notFloat text => s!"could not convert string to float: {quoted text}"
  | .tooLarge => "int too large to convert to float"
  | .emptyNumber => "string index out of range"
  | .notBool text => quoted text
  | .notTimestamp => "'NoneType' object has no attribute 'groupdict'"
  | .noText => "expected string or bytes-like object, got 'list'"
  | .endless => "maximum recursion depth exceeded"
  | .date fault => fault.message

def malformed {α : Type} : Except Fault α := .error .malformed

def demand (b : Bool) : Except Fault Unit := if b then .ok () else malformed

end LinkedCalls.Yaml
