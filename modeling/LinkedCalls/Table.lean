import LinkedCalls.Scalar

/-!
Tables in order of insertion. Writing a present key keeps its place and its first spelling; an
erased key comes back at the end.
-/
namespace LinkedCalls

abbrev Table (α : Type) := List (Scalar × α)

namespace Table

variable {α : Type}

def find? (t : Table α) (key : Scalar) : Option α :=
  (List.find? (fun e => e.1.same key) t).map Prod.snd

def has (t : Table α) (key : Scalar) : Bool := (t.find? key).isSome

def insert : Table α → Scalar → α → Table α
  | [], key, value => [(key, value)]
  | e :: t, key, value =>
    if e.1.same key then (e.1, value) :: t else e :: insert t key value

def erase (t : Table α) (key : Scalar) : Table α := t.eraseP fun e => e.1.same key

def keys (t : Table α) : List Scalar := t.map Prod.fst

/-- a table from pairs, later pairs overwriting -/
def ofPairs (pairs : List (Scalar × α)) : Table α :=
  pairs.foldl (fun t e => t.insert e.1 e.2) []

end Table

end LinkedCalls
