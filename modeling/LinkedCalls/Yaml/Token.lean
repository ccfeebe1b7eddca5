import LinkedCalls.Yaml.Cursor

/-!
Tokens: the words and signs of a document. Where blocks start and end is told by tokens of its
own, since indentation is seen only while the text is read. A text that cannot be read on ends in
a token for what is wrong, so that it is noticed only by those who come that far.
-/
namespace LinkedCalls.Yaml

inductive Directive where
  | version (major : Nat)
  | handle (name meaning : List Char)
  | other
deriving DecidableEq

inductive Token where
  | directive (d : Directive)
  | documentStart
  | documentEnd
  | blockSequence
  | blockMapping
  | blockEnd
  | flowSequence
  | flowSequenceEnd
  | flowMapping
  | flowMappingEnd
  | entry
  | comma
  | key
  | value
  | alias (name : List Char)
  | anchor (name : List Char)
  | tag (handle : Option (List Char)) (suffix : List Char)
  | scalar (text : List Char) (plain : Bool)
  | fault (f : Fault)
deriving DecidableEq

end LinkedCalls.Yaml
