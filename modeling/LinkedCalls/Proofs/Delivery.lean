import LinkedCalls.Proofs.Table
import LinkedCalls.Store

/-!
Who is told of a change. A change is told in a round: to each listener that is registered when it
is made, one after another. A listener may change the store in turn, which makes rounds within the
round. So the rounds of a run are a tree, and every one of them, however deep, is delivered to
exactly the registrations that it found, with what stood under the key before and what stands there
now, whatever the listeners do about it.
-/
namespace LinkedCalls

def Event.told? : Event → Option (String × Change)
  | .changed listener change => some (listener, change)
  | _ => none

namespace Edit

def key : Edit → Scalar
  | .set key _ => key
  | .delete key => key

def leaves : Edit → Option Value
  | .set _ value => some value
  | .delete _ => none

/-- what listeners are told of the edit in this store -/
def change (edit : Edit) (s : Store) : Change := ⟨edit.key, s.get edit.key, edit.leaves.getD .null⟩

def Idle (edit : Edit) (s : Store) : Prop := edit.leaves = none ∧ s.has edit.key = false

/-- a key that is set can be written out -/
def Legible (edit : Edit) : Prop := edit.leaves.isSome = true → edit.key.isLong = false

theorem legible_delete (key : Scalar) : (Edit.delete key).Legible := fun h => nomatch h

/-- the edit makes a change of the first store, and nothing but this change leads to the second -/
structure Made (edit : Edit) (before edited : Store) : Prop where
  present : edit.leaves.isSome = true ∨ before.has edit.key = true
  apply : before.apply edit = some (edited, edit.change before)
  find? : ∀ key : String, Table.find? edited.entries (.text key) =
    if edit.key = .text key then edit.leaves else Table.find? before.entries (.text key)
  listeners : edited.listeners = before.listeners
  memory : edited.memory = before.memory

end Edit

/-- no key stands twice, and each can be written out, as every text can -/
structure Store.Legible (s : Store) : Prop where
  distinct : Table.Distinct s.entries
  written : ∀ key ∈ s.keys, key.isLong = false

/-- every key that it sets can be written out, as far as it finds such keys -/
def Reaction.Legible : Reaction → Prop
  | .done => True
  | .fail _ => True
  | .edit e next => e.Legible ∧ ∀ answer, (next answer).Legible
  | .attach _ next => next.Legible
  | .detach _ next => next.Legible
  | .look next => ∀ s : Store, s.Legible → (next s).Legible
  | .keep _ next => next.Legible

/-- every key that a listener sets can be written out, as far as it is told of such keys -/
def Behaviour.Legible (behaviour : Behaviour) : Prop :=
  ∀ listener change, change.key.isLong = false → (behaviour listener change).Legible

mutual

/-- a change that was made, with all that it set off -/
structure Round where
  /-- how deep further changes may be nested in this one -/
  room : Nat
  edit : Edit
  before : Store
  /-- the store with the edit made and no listener told -/
  edited : Store
  tellings : List Telling
  after : Store
  events : List Event

/-- a listener that was told of a change, with the rounds of the changes that it made -/
structure Telling where
  listener : String
  change : Change
  found : Store
  rounds : List Round
  failure : Option Failure
  left : Store

end

/-- the listener is told, then come the events of its rounds, then the note of its failure -/
def Telling.events (behaviour : Behaviour) (t : Telling) : List Event :=
  .changed t.listener t.change :: t.rounds.flatMap Round.events ++
    t.failure.toList.map (behaviour.warning t.listener t.change.key)

/-- each listener finds the store as the one before it left it -/
inductive Telling.Follow : Store → List Telling → Store → Prop
  | nil (s : Store) : Follow s [] s
  | cons {t : Telling} {ts : List Telling} {s : Store} (rest : Follow t.left ts s) :
      Follow t.found (t :: ts) s

/-- the edits are made one after another, with a round for each that changes anything -/
inductive Round.Follow : Store → List Edit → List Round → Store → Prop
  | nil (s : Store) : Follow s [] [] s
  | idle {edit : Edit} {edits : List Edit} {rounds : List Round} {s s' : Store}
      (idle : edit.Idle s) (rest : Follow s edits rounds s') : Follow s (edit :: edits) rounds s'
  | made {r : Round} {edits : List Edit} {rounds : List Round} {s' : Store}
      (rest : Follow r.after edits rounds s') :
      Follow r.before (r.edit :: edits) (r :: rounds) s'

theorem Round.Follow.edit_mem {s s' : Store} {edits : List Edit} {rounds : List Round}
    (h : Round.Follow s edits rounds s') : ∀ r ∈ rounds, r.edit ∈ edits := by
  induction h with
  | nil s => simp
  | idle _ _ ih => exact fun r hr => List.mem_cons_of_mem _ (ih r hr)
  | made _ ih =>
    exact List.forall_mem_cons.2
      ⟨List.mem_cons_self, fun r hr => List.mem_cons_of_mem _ (ih r hr)⟩

/-- the reaction leads from one store to the other, makes these rounds and has this failure; a
change that is nested too deep is not made, and is answered so -/
inductive Reaction.Makes (room : Nat) :
    Reaction → Store → List Round → Option Failure → Store → Prop
  | done (s : Store) : Makes room .done s [] none s
  | fail (failure : Failure) (s : Store) : Makes room (.fail failure) s [] (some failure) s
  | tooDeep {edit : Edit} {next : Except Failure Bool → Reaction} {s s' : Store}
      {rounds : List Round} {failure : Option Failure} (h : room = 0)
      (rest : Makes room (next (.error .nesting)) s rounds failure s') :
      Makes room (.edit edit next) s rounds failure s'
  | idle {edit : Edit} {next : Except Failure Bool → Reaction} {s s' : Store}
      {rounds : List Round} {failure : Option Failure} (h : 0 < room) (idle : edit.Idle s)
      (rest : Makes room (next (.ok false)) s rounds failure s') :
      Makes room (.edit edit next) s rounds failure s'
  | made {r : Round} {next : Except Failure Bool → Reaction} {s' : Store} {rounds : List Round}
      {failure : Option Failure} (h : room = r.room + 1)
      (rest : Makes room (next (.ok true)) r.after rounds failure s') :
      Makes room (.edit r.edit next) r.before (r :: rounds) failure s'
  | attach {listener : String} {next : Reaction} {s s' : Store} {rounds : List Round}
      {failure : Option Failure}
      (rest : Makes room next (s.addListener listener) rounds failure s') :
      Makes room (.attach listener next) s rounds failure s'
  | detach {listener : String} {next : Reaction} {s s' : Store} {rounds : List Round}
      {failure : Option Failure}
      (rest : Makes room next (s.removeListener listener) rounds failure s') :
      Makes room (.detach listener next) s rounds failure s'
  | look {next : Store → Reaction} {s s' : Store} {rounds : List Round}
      {failure : Option Failure} (rest : Makes room (next s) s rounds failure s') :
      Makes room (.look next) s rounds failure s'
  | keep {memory : Value} {next : Reaction} {s s' : Store} {rounds : List Round}
      {failure : Option Failure}
      (rest : Makes room next { s with memory := memory } rounds failure s') :
      Makes room (.keep memory next) s rounds failure s'

namespace Round

/-- a round is within itself, and within those whose listeners made one that it is within -/
inductive Within : Round → Round → Prop
  | self (r : Round) : Within r r
  | nested {q r r' : Round} {t : Telling} (ht : t ∈ r.tellings) (hr : r' ∈ t.rounds)
      (h : Within q r') : Within q r

/-- The round is delivered: the edit is made first, then each registration that it found is told
once, in order, of the same change, and reacts as its listener behaves. -/
structure Delivered (behaviour : Behaviour) (r : Round) : Prop where
  made : r.edit.Made r.before r.edited
  told : r.tellings.map Telling.listener = r.before.listeners
  change : ∀ t ∈ r.tellings, t.change = r.edit.change r.before
  follow : Telling.Follow r.edited r.tellings r.after
  reacts : ∀ t ∈ r.tellings,
    (behaviour t.listener t.change).Makes r.room t.found t.rounds t.failure t.left
  events : r.events = r.tellings.flatMap (Telling.events behaviour)

def DeliveredThroughout (behaviour : Behaviour) (r : Round) : Prop :=
  ∀ q : Round, q.Within r → q.Delivered behaviour

theorem Delivered.throughout {behaviour : Behaviour} {r : Round} (h : r.Delivered behaviour)
    (hnested : ∀ t ∈ r.tellings, ∀ r' ∈ t.rounds, r'.DeliveredThroughout behaviour) :
    r.DeliveredThroughout behaviour := by
  intro q hq
  cases hq with
  | self => exact h
  | nested ht hr hq => exact hnested _ ht _ hr q hq

end Round

/-- The edits lead from one store to the other with these events, and all their rounds are
delivered, with all the room that there is. -/
def Store.Delivers (behaviour : Behaviour) (s : Store) (edits : List Edit) (s' : Store)
    (events : List Event) : Prop :=
  ∃ rounds : List Round, Round.Follow s edits rounds s' ∧ events = rounds.flatMap Round.events ∧
    ∀ r ∈ rounds, r.room = behaviour.room ∧ r.DeliveredThroughout behaviour

namespace Store

namespace Legible

variable {s : Store}

theorem of_has (hs : s.Legible) {key : Scalar} (h : s.has key = true) : key.isLong = false := by
  obtain ⟨e, hsame, -, hperm⟩ := Table.exists_erased h
  have hmem : e.1 ∈ s.keys := List.mem_map_of_mem (hperm.mem_iff.2 List.mem_cons_self)
  rw [← Scalar.isLong_eq_of_same hsame, hs.written _ hmem]

theorem insert (hs : s.Legible) {key : Scalar} (hkey : key.isLong = false) (value : Value) :
    Legible { s with entries := Table.insert s.entries key value } where
  distinct := hs.distinct.insert key value
  written := by
    intro k hk
    obtain ⟨e, he, rfl⟩ := List.mem_map.1 hk
    rcases Table.key_of_mem_insert he with hsame | ⟨d, hd, hsame⟩
    · rw [hsame, hkey]
    · rw [← hsame, hs.written _ (List.mem_map_of_mem hd)]

theorem erase (hs : s.Legible) (key : Scalar) :
    Legible { s with entries := Table.erase s.entries key } where
  distinct := hs.distinct.erase key
  written := by
    intro k hk
    obtain ⟨e, he, rfl⟩ := List.mem_map.1 hk
    exact hs.written _ (List.mem_map_of_mem (List.mem_of_mem_eraseP he))

end Legible

/-- an edit is idle, or is made under a key that can be written out -/
theorem apply_cases {edit : Edit} (hedit : edit.Legible) {s : Store} (hs : s.Legible) :
    (s.apply edit = none ∧ edit.Idle s) ∨
      ∃ edited, s.apply edit = some (edited, edit.change s) ∧ edit.Made s edited ∧
        edited.Legible ∧ edit.key.isLong = false := by
  cases edit with
  | set key value =>
    refine .inr ⟨_, rfl, ⟨.inl rfl, rfl, fun r => ?_, rfl, rfl⟩, hs.insert (hedit rfl) value,
      hedit rfl⟩
    exact Table.find?_insert_text s.entries key value r
  | delete key =>
    cases hhas : s.has key with
    | false => exact .inl ⟨by simp [apply, hhas], rfl, hhas⟩
    | true =>
      have happly : s.apply (.delete key) = some ({ s with entries := Table.erase s.entries key },
          ⟨key, s.get key, .null⟩) := by simp [apply, hhas]
      refine .inr ⟨_, happly, ⟨.inr hhas, happly, fun r => ?_, rfl, rfl⟩, hs.erase key,
        hs.of_has hhas⟩
      exact hs.distinct.find?_erase_text key r

variable {behaviour : Behaviour} {change : Changer} {room : Nat}

theorem changeWithin_of_idle {edit : Edit} {s : Store} (h : s.apply edit = none) :
    changeWithin behaviour (room + 1) edit s = (.ok false, s, []) := by
  simp only [changeWithin, h]

theorem changeWithin_of_made {edit : Edit} {s edited : Store} {c : Change}
    (h : s.apply edit = some (edited, c)) (hkey : c.key.isLong = false) :
    changeWithin behaviour (room + 1) edit s =
      (.ok true, notify (changeWithin behaviour room) behaviour c edited.listeners edited) := by
  simp [changeWithin, h, hkey]

/-- an edit under a key that cannot be written out is made and fails, and nobody is told -/
theorem change_of_isLong {edit : Edit} {s edited : Store} {c : Change}
    (h : s.apply edit = some (edited, c)) (hkey : c.key.isLong = true) :
    s.change behaviour edit = (.error .longNumber, edited, []) := by
  simp [Store.change, changeWithin, h, hkey]

theorem change_set_fst (behaviour : Behaviour) (key : Scalar) (value : Value) (s : Store) :
    (s.change behaviour (.set key value)).1 =
      if key.isLong then .error .longNumber else .ok true := by
  simp only [Store.change, changeWithin, apply]
  split <;> rfl

theorem react_edit (change : Changer) (edit : Edit) (next : Except Failure Bool → Reaction)
    (s : Store) : react change (.edit edit next) s =
      ((react change (next (change edit s).1) (change edit s).2.1).1,
        (react change (next (change edit s).1) (change edit s).2.1).2.1,
        (change edit s).2.2 ++ (react change (next (change edit s).1) (change edit s).2.1).2.2) :=
  rfl

theorem notify_cons_events (c : Change) (l : String) (ls : List String) (s : Store) :
    (notify change behaviour c (l :: ls) s).2 =
      .changed l c :: (react change (behaviour l c) s).2.2 ++
        (react change (behaviour l c) s).1.toList.map (behaviour.warning l c.key) ++
        (notify change behaviour c ls (react change (behaviour l c) s).2.1).2 := rfl

/-- where there is room, each edit that changes anything makes a round, delivered throughout; where
there is none, no edit is made -/
def Delivering (behaviour : Behaviour) : Nat → Changer → Prop
  | 0, change => ∀ edit s, change edit s = (.error .nesting, s, [])
  | room + 1, change => ∀ edit s, edit.Legible → s.Legible →
      (change edit s = (.ok false, s, []) ∧ edit.Idle s) ∨
        ∃ r : Round, r.room = room ∧ r.edit = edit ∧ r.before = s ∧
          change edit s = (.ok true, r.after, r.events) ∧ r.after.Legible ∧
            r.DeliveredThroughout behaviour

theorem react_makes (hchange : Delivering behaviour room change) {reaction : Reaction}
    (hreaction : reaction.Legible) {s : Store} (hs : s.Legible) :
    ∃ rounds,
      reaction.Makes room s rounds (react change reaction s).1 (react change reaction s).2.1 ∧
      (react change reaction s).2.2 = rounds.flatMap Round.events ∧
      (react change reaction s).2.1.Legible ∧
      ∀ r ∈ rounds, r.DeliveredThroughout behaviour := by
  induction reaction generalizing s with
  | done => exact ⟨[], .done s, rfl, hs, by simp⟩
  | fail failure => exact ⟨[], .fail failure s, rfl, hs, by simp⟩
  | edit edit next ih =>
    obtain ⟨hedit, hnext⟩ := hreaction
    rw [react_edit]
    cases room with
    | zero =>
      rw [hchange edit s]
      obtain ⟨rounds, hmakes, hrest⟩ := ih (.error .nesting) (hnext _) hs
      exact ⟨rounds, .tooDeep rfl hmakes, hrest⟩
    | succ room =>
      rcases hchange edit s hedit hs with
        ⟨hsame, hidle⟩ | ⟨r, hroom, rfl, rfl, hmade, hafter, hall⟩
      · rw [hsame]
        obtain ⟨rounds, hmakes, hrest⟩ := ih (.ok false) (hnext _) hs
        exact ⟨rounds, .idle (Nat.succ_pos room) hidle hmakes, hrest⟩
      · rw [hmade]
        obtain ⟨rounds, hmakes, hevents, hlegible, hrest⟩ := ih (.ok true) (hnext _) hafter
        refine ⟨r :: rounds, .made (congrArg (· + 1) hroom.symm) hmakes, ?_, hlegible, ?_⟩
        · rw [List.flatMap_cons, ← hevents]
        · exact List.forall_mem_cons.2 ⟨hall, hrest⟩
  | attach listener next ih =>
    obtain ⟨rounds, hmakes, hrest⟩ := ih hreaction (s := s.addListener listener) ⟨hs.1, hs.2⟩
    exact ⟨rounds, .attach hmakes, hrest⟩
  | detach listener next ih =>
    obtain ⟨rounds, hmakes, hrest⟩ := ih hreaction (s := s.removeListener listener) ⟨hs.1, hs.2⟩
    exact ⟨rounds, .detach hmakes, hrest⟩
  | look next ih =>
    obtain ⟨rounds, hmakes, hrest⟩ := ih s (hreaction s hs) hs
    exact ⟨rounds, .look hmakes, hrest⟩
  | keep memory next ih =>
    obtain ⟨rounds, hmakes, hrest⟩ := ih hreaction (s := { s with memory := memory }) ⟨hs.1, hs.2⟩
    exact ⟨rounds, .keep hmakes, hrest⟩

/-- whatever the listeners told first do, the others are told of the same change -/
theorem notify_tells (hchange : Delivering behaviour room change) {c : Change}
    (hreacts : ∀ listener, (behaviour listener c).Legible) (ls : List String) {s : Store}
    (hs : s.Legible) :
    ∃ tellings : List Telling, tellings.map Telling.listener = ls ∧
      (∀ t ∈ tellings, t.change = c) ∧
      Telling.Follow s tellings (notify change behaviour c ls s).1 ∧
      (∀ t ∈ tellings,
        (behaviour t.listener t.change).Makes room t.found t.rounds t.failure t.left) ∧
      (notify change behaviour c ls s).2 = tellings.flatMap (Telling.events behaviour) ∧
      (notify change behaviour c ls s).1.Legible ∧
      ∀ t ∈ tellings, ∀ r ∈ t.rounds, r.DeliveredThroughout behaviour := by
  -- on the listeners to be told; the store, and with it its own list, is any that the last one left
  induction ls generalizing s with
  | nil => exact ⟨[], rfl, by simp, .nil s, by simp, rfl, hs, by simp⟩
  | cons l ls ih =>
    obtain ⟨rounds, hmakes, hevents, hleft, hnested⟩ := react_makes hchange (hreacts l) hs
    obtain ⟨tellings, hlisteners, hsame, hfollow, hmade, hrest, hlegible, hthroughout⟩ := ih hleft
    let t : Telling := ⟨l, c, s, rounds, (react change (behaviour l c) s).1,
      (react change (behaviour l c) s).2.1⟩
    refine ⟨t :: tellings, congrArg (l :: ·) hlisteners, List.forall_mem_cons.2 ⟨rfl, hsame⟩,
      .cons (t := t) hfollow, List.forall_mem_cons.2 ⟨hmakes, hmade⟩, ?_, hlegible,
      List.forall_mem_cons.2 ⟨hnested, hthroughout⟩⟩
    rw [notify_cons_events, List.flatMap_cons, ← hrest, Telling.events, ← hevents]

theorem Delivers.nil (behaviour : Behaviour) (s : Store) : s.Delivers behaviour [] s [] :=
  ⟨[], .nil s, rfl, by simp⟩

section Legible

variable (hbehaviour : behaviour.Legible)
include hbehaviour

theorem changeWithin_delivering (room : Nat) :
    Delivering behaviour room (changeWithin behaviour room) := by
  -- on the room: the changes that listeners make have less of it
  induction room with
  | zero => exact fun _ _ => rfl
  | succ room ih =>
    intro edit s hedit hs
    rcases apply_cases hedit hs with ⟨hnone, hidle⟩ | ⟨edited, hsome, hmade, hedited, hkey⟩
    · exact .inl ⟨changeWithin_of_idle hnone, hidle⟩
    · obtain ⟨tellings, htold, hsame, hfollow, hreacts, hevents, hlegible, hnested⟩ :=
        notify_tells ih (fun listener => hbehaviour listener (edit.change s) hkey)
          edited.listeners hedited
      let told := notify (changeWithin behaviour room) behaviour (edit.change s) edited.listeners
        edited
      let r : Round := ⟨room, edit, s, edited, tellings, told.1, told.2⟩
      have hr : r.Delivered behaviour :=
        ⟨hmade, htold.trans hmade.listeners, hsame, hfollow, hreacts, hevents⟩
      exact .inr ⟨r, rfl, rfl, rfl, changeWithin_of_made hsome hkey, hlegible,
        hr.throughout hnested⟩

theorem change_cases {edit : Edit} (hedit : edit.Legible) {s : Store} (hs : s.Legible) :
    (s.change behaviour edit = (.ok false, s, []) ∧ edit.Idle s) ∨
      ∃ r : Round, r.room = behaviour.room ∧ r.edit = edit ∧ r.before = s ∧
        s.change behaviour edit = (.ok true, r.after, r.events) ∧ r.after.Legible ∧
          r.DeliveredThroughout behaviour :=
  changeWithin_delivering hbehaviour (behaviour.room + 1) edit s hedit hs

theorem change_legible {edit : Edit} (hedit : edit.Legible) {s : Store} (hs : s.Legible) :
    (s.change behaviour edit).2.1.Legible := by
  rcases change_cases hbehaviour hedit hs with ⟨hsame, -⟩ | ⟨r, -, -, -, hmade, hlegible, -⟩
  · rw [hsame]
    exact hs
  · rw [hmade]
    exact hlegible

theorem change_fst {edit : Edit} (hedit : edit.Legible) {s : Store} (hs : s.Legible) :
    (s.change behaviour edit).1 = .ok (edit.leaves.isSome || s.has edit.key) := by
  rcases change_cases hbehaviour hedit hs with
    ⟨hsame, hleaves, hhas⟩ | ⟨r, -, rfl, rfl, hmade, -, hall⟩
  · rw [hsame, hleaves, hhas]
    rfl
  · have hpresent : (r.edit.leaves.isSome || r.before.has r.edit.key) = true := by
      simpa using (hall r (.self r)).made.present
    rw [hmade, hpresent]

theorem deleteAll_cons (key : Scalar) (keys : List Scalar) {s : Store} (hs : s.Legible) :
    deleteAll behaviour (key :: keys) s =
      ((deleteAll behaviour keys (s.change behaviour (.delete key)).2.1).1,
        (deleteAll behaviour keys (s.change behaviour (.delete key)).2.1).2.1,
        (s.change behaviour (.delete key)).2.2 ++
          (deleteAll behaviour keys (s.change behaviour (.delete key)).2.1).2.2) := by
  have hanswer := change_fst hbehaviour (Edit.legible_delete key) hs
  rw [deleteAll, delete]
  rcases hmade : s.change behaviour (.delete key) with ⟨failure | b, s', events⟩
  · rw [hmade] at hanswer
    cases hanswer
  · rfl

theorem Delivers.cons {edit : Edit} (hedit : edit.Legible) {edits : List Edit} {s s' : Store}
    {events : List Event} (hs : s.Legible)
    (h : (s.change behaviour edit).2.1.Delivers behaviour edits s' events) :
    s.Delivers behaviour (edit :: edits) s' ((s.change behaviour edit).2.2 ++ events) := by
  obtain ⟨rounds, hfollow, rfl, hrounds⟩ := h
  rcases change_cases hbehaviour hedit hs with
    ⟨hsame, hidle⟩ | ⟨r, hroom, rfl, rfl, hmade, -, hall⟩
  · rw [hsame] at hfollow ⊢
    exact ⟨rounds, .idle hidle hfollow, rfl, hrounds⟩
  · rw [hmade] at hfollow ⊢
    exact ⟨r :: rounds, .made hfollow, rfl, List.forall_mem_cons.2 ⟨⟨hroom, hall⟩, hrounds⟩⟩

theorem deleteAll_delivers (keys : List Scalar) {s : Store} (hs : s.Legible) :
    (deleteAll behaviour keys s).1 = .ok () ∧
      s.Delivers behaviour (keys.map .delete) (deleteAll behaviour keys s).2.1
        (deleteAll behaviour keys s).2.2 := by
  induction keys generalizing s with
  | nil => exact ⟨rfl, .nil behaviour s⟩
  | cons key keys ih =>
    have hdelete := Edit.legible_delete key
    obtain ⟨hanswer, hrest⟩ := ih (change_legible hbehaviour hdelete hs)
    rw [deleteAll_cons hbehaviour key keys hs]
    exact ⟨hanswer, .cons hbehaviour hdelete hs hrest⟩

end Legible

end Store

namespace Demo

end Demo

end LinkedCalls
