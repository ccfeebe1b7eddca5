import LinkedCalls.Failure

/-!
The context store: a table of values with listeners. Every write and every erasure of a present
key is made first, its key is written out, and then each listener registered at that moment is told,
in order of registration. A key that is too long to be written out is where an edit fails after it
was made, before anyone is told. A listener may change the store and the listeners in turn; what it
fails with is noted and goes no further.
-/
namespace LinkedCalls

inductive Severity where
  | info
  | warning
  | error
deriving DecidableEq

structure Change where
  key : Scalar
  before : Value
  after : Value

/-- what can be observed while the engine works, in order of occurrence -/
inductive Event where
  | log (severity : Severity) (text : String)
  | shown (level text : Value)
  | asked (prompt : Value)
  | invoked (call : String) (params : List (String × Value))
  | inspected (params : List String)
  | changed (listener : String) (change : Change)

inductive Edit where
  | set (key : Scalar) (value : Value)
  | delete (key : Scalar)

/-- a store, its listeners, and what these keep in mind from one change to another -/
structure Store where
  entries : Table Value := []
  listeners : List String := []
  memory : Value := .null

/-- what a listener does about a change -/
inductive Reaction where
  | done
  | fail (failure : Failure)
  | edit (edit : Edit) (next : Except Failure Bool → Reaction)
  | attach (listener : String) (next : Reaction)
  | detach (listener : String) (next : Reaction)
  | look (next : Store → Reaction)
  | keep (memory : Value) (next : Reaction)

def Reaction.orFail {α : Type} (next : α → Reaction) : Except Failure α → Reaction
  | .ok x => next x
  | .error failure => .fail failure

/-- how each listener reacts, what the class of each is called, and how deep the changes that
listeners make may be nested -/
structure Behaviour where
  reaction : String → Change → Reaction
  className : String → String
  room : Nat

instance : CoeFun Behaviour fun _ => String → Change → Reaction := ⟨Behaviour.reaction⟩

def Behaviour.none : Behaviour := ⟨fun _ _ => .done, id, 0⟩

def Behaviour.warning (behaviour : Behaviour) (listener : String) (key : Scalar)
    (failure : Failure) : Event :=
  .log .warning (s!"Context listener {behaviour.className listener} failed for " ++
    s!"'{key.plain}': {failure.message}")

namespace Store

def get (s : Store) (key : Scalar) : Value := (Table.find? s.entries key).getD .null

def has (s : Store) (key : Scalar) : Bool := Table.has s.entries key

def keys (s : Store) : List Scalar := Table.keys s.entries

def size (s : Store) : Nat := s.keys.length

def snapshot (s : Store) : Table Value := s.entries

def readKeys (s : Store) : Table Value := s.keys.map fun key => (key, s.get key)

/-- the edit itself with the change it makes, `none` when there is nothing to erase -/
def apply (s : Store) : Edit → Option (Store × Change)
  | .set key value =>
    some ({ s with entries := Table.insert s.entries key value }, ⟨key, s.get key, value⟩)
  | .delete key =>
    if s.has key then
      some ({ s with entries := Table.erase s.entries key }, ⟨key, s.get key, .null⟩)
    else none

/-- an edit with everything it sets off: whether there was a change, or what went wrong, with the
store after and the events -/
abbrev Changer := Edit → Store → Except Failure Bool × Store × List Event

def react (change : Changer) : Reaction → Store → Option Failure × Store × List Event
  | .done, s => (none, s, [])
  | .fail failure, s => (some failure, s, [])
  | .edit edit next, s =>
    let (answer, s', events) := change edit s
    let (failure, s'', more) := react change (next answer) s'
    (failure, s'', events ++ more)
  | .attach listener next, s =>
    react change next { s with listeners := s.listeners ++ [listener] }
  | .detach listener next, s => react change next { s with listeners := s.listeners.erase listener }
  | .look next, s => react change (next s) s
  | .keep memory next, s => react change next { s with memory := memory }

def notify (change : Changer) (behaviour : Behaviour) (c : Change) :
    List String → Store → Store × List Event
  | [], s => (s, [])
  | l :: ls, s =>
    let (failure, s', events) := react change (behaviour l c) s
    let (s'', more) := notify change behaviour c ls s'
    (s'', .changed l c :: events ++ failure.toList.map (behaviour.warning l c.key) ++ more)

/-- changes nested less than `depth` deep -/
def changeWithin (behaviour : Behaviour) : Nat → Changer
  | 0, _, s => (.error .nesting, s, [])
  | depth + 1, edit, s =>
    match s.apply edit with
    | none => (.ok false, s, [])
    | some (s', c) =>
      -- the note of the change, which nobody sees, is where a key is written out
      if c.key.isLong then (.error .longNumber, s', [])
      else
        let (s'', events) := notify (changeWithin behaviour depth) behaviour c s'.listeners s'
        (.ok true, s'', events)

/-- a change from outside; those that it sets off have the room that there is -/
def change (behaviour : Behaviour) (edit : Edit) (s : Store) :
    Except Failure Bool × Store × List Event :=
  changeWithin behaviour (behaviour.room + 1) edit s

def set (behaviour : Behaviour) (key : Scalar) (value : Value) (s : Store) :
    Except Failure Unit × Store × List Event :=
  (change behaviour (.set key value) s).map (Except.map fun _ => ()) id

def delete (behaviour : Behaviour) (key : Scalar) (s : Store) :
    Except Failure Bool × Store × List Event :=
  change behaviour (.delete key) s

/-- erases the listed keys one after another, until that fails -/
def deleteAll (behaviour : Behaviour) :
    List Scalar → Store → Except Failure Unit × Store × List Event
  | [], s => (.ok (), s, [])
  | key :: keys, s =>
    match delete behaviour key s with
    | (.error failure, s', events) => (.error failure, s', events)
    | (.ok _, s', events) =>
      let (answer, s'', more) := deleteAll behaviour keys s'
      (answer, s'', events ++ more)

def clear (behaviour : Behaviour) (s : Store) : Except Failure Unit × Store × List Event :=
  deleteAll behaviour s.keys s

def addListener (s : Store) (listener : String) : Store :=
  { s with listeners := s.listeners ++ [listener] }

/-- removes one registration -/
def removeListener (s : Store) (listener : String) : Store :=
  { s with listeners := s.listeners.erase listener }

end Store

end LinkedCalls
