import LinkedCalls.Yaml.Timestamp

/-!
The tag of a plain scalar without one of its own, by its form. A line feed at the end is no part of
the form; it alone is text.
-/
namespace LinkedCalls.Yaml

/-- signs that no plain scalar is written with -/
def reservedWords : List String := ["!", "&", "*"]

def Tag.ofForm (cs : List Char) : Tag :=
  if isWord boolWords cs then .bool
  else if isFloat cs then .float
  else if isInt cs then .int
  else if isWord ["<<"] cs then .merge
  else if isWord nullWords cs then .null
  else if Timestamp.isPlain cs then .timestamp
  else if isWord ["="] cs then .value
  else if isWord reservedWords cs then .unknown
  else .text

def Tag.ofPlain (cs : List Char) : Tag :=
  if cs = ['\n'] then .text else ofForm (withoutLineFeed cs)

end LinkedCalls.Yaml
