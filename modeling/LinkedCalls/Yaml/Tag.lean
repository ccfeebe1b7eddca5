import LinkedCalls.Yaml.Cursor

/-!
Tags: the kinds of nodes. A plain scalar without a tag gets one by its form: truth values, numbers,
dates and the like are told from text by how they are spelled.
-/
namespace LinkedCalls.Yaml

inductive Tag where
  | null
  | bool
  | int
  | float
  | binary
  | timestamp
  | orderedMap
  | pairs
  | set
  | text
  | list
  | map
  | merge
  | value
  | unknown
deriving DecidableEq

namespace Tag

def names : List (String × Tag) :=
  [("null", .null), ("bool", .bool), ("int", .int), ("float", .float), ("binary", .binary),
    ("timestamp", .timestamp), ("omap", .orderedMap), ("pairs", .pairs), ("set", .set),
    ("str", .text), ("seq", .list), ("map", .map), ("merge", .merge), ("value", .value)]

def repository : List Char := "tag:yaml.org,2002:".toList

def ofUri (uri : List Char) : Tag :=
  ((names.find? fun n => repository ++ n.1.toList == uri).map Prod.snd).getD .unknown

def nullWords : List String := ["~", "null", "Null", "NULL", ""]

def boolWords : List String :=
  ["yes", "Yes", "YES", "no", "No", "NO", "true", "True", "TRUE", "false", "False", "FALSE",
    "on", "On", "ON", "off", "Off", "OFF"]

/-- without one line feed at the end, which says nothing about the form of a text -/
def withoutLineFeed (cs : List Char) : List Char :=
  if cs.getLast? = some '\n' then cs.dropLast else cs

def isWord (words : List String) (cs : List Char) : Bool := words.any (·.toList == cs)

def isDigitOr (c : Char) : Bool := c.isDigit || c == '_'

def unsigned : List Char → List Char
  | '-' :: cs => cs
  | '+' :: cs => cs
  | cs => cs

def isHex (c : Char) : Bool :=
  c.isDigit || ('a' ≤ c && c ≤ 'f') || ('A' ≤ c && c ≤ 'F')

/-- a digit followed by digits and underscores; `rest` is asked about what comes after -/
def startsNumber (cs : List Char) : Bool := (cs.head?.map Char.isDigit).getD false

/-- one or two digits up to 59 -/
def isSixtieth : List Char → Bool
  | [a] => a.isDigit
  | [a, b] => '0' ≤ a && a ≤ '5' && b.isDigit
  | _ => false

def splitAt (mark : Char) : List Char → List (List Char)
  | [] => [[]]
  | c :: cs =>
    if c = mark then [] :: splitAt mark cs
    else
      match splitAt mark cs with
      | [] => [[c]]
      | part :: parts => (c :: part) :: parts

def isDigits (cs : List Char) : Bool := startsNumber cs && cs.all isDigitOr

def isPositive (cs : List Char) : Bool := isDigits cs && cs.head? != some '0'

def isSexagesimal (first : List Char → Bool) (cs : List Char) : Bool :=
  match splitAt ':' cs with
  | part :: p :: parts => first part && (p :: parts).all isSixtieth
  | _ => false

def isNonEmpty (p : Char → Bool) (cs : List Char) : Bool := !cs.isEmpty && cs.all p

def isInt (cs : List Char) : Bool :=
  let cs := unsigned cs
  match cs with
  | ['0'] => true
  | '0' :: 'b' :: ds => isNonEmpty (fun c => c == '0' || c == '1' || c == '_') ds
  | '0' :: 'x' :: ds => isNonEmpty (fun c => isHex c || c == '_') ds
  | '0' :: ds => isNonEmpty (fun c => ('0' ≤ c && c ≤ '7') || c == '_') ds
  | ds => isPositive ds || isSexagesimal isPositive ds

/-- nothing, or an exponent whose sign is written -/
def isExponent : List Char → Bool
  | [] => true
  | e :: s :: ds => (e == 'e' || e == 'E') && (s == '-' || s == '+') && isNonEmpty Char.isDigit ds
  | _ => false

def isFraction (cs : List Char) : Bool := isExponent (cs.dropWhile isDigitOr)

def isDecimal (cs : List Char) : Bool :=
  startsNumber cs &&
    match cs.dropWhile isDigitOr with
    | '.' :: rest => isFraction rest
    | _ => false

/-- a sexagesimal number whose last place has a point -/
def isSexagesimalFloat (cs : List Char) : Bool :=
  let whole := cs.takeWhile (· != '.')
  match cs.drop whole.length with
  | '.' :: rest => rest.all isDigitOr && isSexagesimal isDigits whole
  | _ => false

def infinityWords : List String := [".inf", ".Inf", ".INF"]
def nanWords : List String := [".nan", ".NaN", ".NAN"]

def isFloat (cs : List Char) : Bool :=
  isDecimal (unsigned cs) || isSexagesimalFloat (unsigned cs) ||
    isWord infinityWords (unsigned cs) || isWord nanWords cs ||
    match cs with
    | '.' :: ds => startsNumber ds && isFraction ds
    | _ => false

end Tag

end LinkedCalls.Yaml
