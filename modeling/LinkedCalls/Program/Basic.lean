import LinkedCalls.Scalar

/-!
Programs: ordered lists of operation calls. A parameter of a call is a literal or a link to a key
of the context store or to the result of another call. The predicates `WellFormed` say what every
program that was read satisfies.
-/
namespace LinkedCalls

inductive Link where
  | contextKey (key : String)
  | operation (target : String)
deriving DecidableEq

/-- the literal of a linked parameter carries no meaning -/
structure Param where
  name : String
  value : Scalar := .null
  link : Option Link := none
deriving DecidableEq

structure Call where
  id : String
  operation : String
  description : String := ""
  params : List Param := []
deriving DecidableEq

structure Program where
  name : String
  description : Option String := none
  calls : List Call := []
deriving DecidableEq

def Link.WellFormed : Link → Prop
  | .contextKey key => key ≠ ""
  | .operation target => target ≠ ""

def Param.isLinked (p : Param) : Bool := p.link.isSome

def Param.WellFormed (p : Param) : Prop := p.name ≠ "" ∧ ∀ l ∈ p.link, l.WellFormed

namespace Call

def WellFormed (c : Call) : Prop :=
  c.id ≠ "" ∧ c.operation ≠ "" ∧ (∀ p ∈ c.params, p.WellFormed) ∧
    (c.params.map Param.name).Nodup

def param? (c : Call) (name : String) : Option Param := c.params.find? (·.name == name)

def targets (c : Call) : List String :=
  c.params.filterMap fun p =>
    match p.link with
    | some (.operation target) => some target
    | _ => none

def makeId (owner delimiter operation : String) : String := owner ++ delimiter ++ operation

end Call

namespace Program

def WellFormed (p : Program) : Prop :=
  p.name ≠ "" ∧ (∀ c ∈ p.calls, c.WellFormed) ∧ (p.calls.map Call.id).Nodup

def call? (p : Program) (id : String) : Option Call := p.calls.find? (·.id == id)

end Program

/-- equality of literals by number, so that not-a-number makes programs differ -/
def Param.same (p q : Param) : Bool :=
  p.name == q.name && p.value.same q.value && p.link == q.link

def sameLists {α : Type} (same : α → α → Bool) : List α → List α → Bool
  | [], [] => true
  | x :: xs, y :: ys => same x y && sameLists same xs ys
  | _, _ => false

def Call.same (c d : Call) : Bool :=
  c.id == d.id && c.operation == d.operation && c.description == d.description &&
    sameLists Param.same c.params d.params

def Program.same (p q : Program) : Bool :=
  p.name == q.name && p.description == q.description && sameLists Call.same p.calls q.calls

end LinkedCalls
