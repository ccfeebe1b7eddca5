import LinkedCalls.Proofs.Delivery
import LinkedCalls.Proofs.Effect

/-!
What one listener hears. Where listeners do not write, a listener that is registered once hears of
each write and of each erasure of a present key once, in order. So what it hears is all that it
takes to follow the store: replayed on the contents at the start, it gives those at the end.
-/
namespace LinkedCalls

inductive Operation where
  | set (key : String) (value : Value)
  | delete (key : String)
  | clear
  | attach (listener : String)
  | detach (listener : String)

def Operation.edits (s : Store) : Operation → List Edit
  | .set key value => [.set (.text key) value]
  | .delete key => [.delete (.text key)]
  | .clear => s.keys.map .delete
  | .attach _ | .detach _ => []

/-- a write changes the store, and so does the erasure of a present key -/
def Edit.notice? (edit : Edit) (s : Store) : Option Change :=
  if edit.leaves.isSome || s.has edit.key then some (edit.change s) else none

theorem Operation.edits_legible (op : Operation) (s : Store) :
    ∀ edit ∈ op.edits s, edit.Legible := by
  cases op with
  | set key value => exact fun edit h => List.mem_singleton.1 h ▸ fun _ => rfl
  | delete key => exact fun edit h => List.mem_singleton.1 h ▸ Edit.legible_delete _
  | clear =>
    intro edit h
    obtain ⟨key, -, rfl⟩ := List.mem_map.1 h
    exact Edit.legible_delete key
  | attach listener | detach listener => exact fun edit h => nomatch h

def Operation.Spares (observer : String) : Operation → Prop
  | .attach listener | .detach listener => listener ≠ observer
  | _ => True

/-- it leaves the registrations of the observer alone, whatever it finds -/
def Reaction.Spares (observer : String) : Reaction → Prop
  | .done => True
  | .fail _ => True
  | .edit _ next => ∀ answer, (next answer).Spares observer
  | .attach listener next => listener ≠ observer ∧ next.Spares observer
  | .detach listener next => listener ≠ observer ∧ next.Spares observer
  | .look next => ∀ s, (next s).Spares observer
  | .keep _ next => next.Spares observer

theorem Reaction.Quiet.legible {reaction : Reaction} (h : reaction.Quiet) : reaction.Legible := by
  induction reaction with
  | done => trivial
  | fail failure => trivial
  | edit edit next ih => exact h.elim
  | attach listener next ih => exact ih h
  | detach listener next ih => exact ih h
  | look next ih => exact fun s _ => ih s (h s)
  | keep memory next ih => exact ih h

theorem Behaviour.Quiet.legible {behaviour : Behaviour} (h : behaviour.Quiet) :
    behaviour.Legible := fun listener change _ => (h listener change).legible

/-- the contents key by key, `null` for what is not there -/
def Store.view (s : Store) (key : String) : Value := s.get (.text key)

def Change.replay (view : String → Value) (c : Change) (key : String) : Value :=
  if c.key = .text key then c.after else view key

def heard (observer : String) (events : List Event) : List Change :=
  (events.filterMap Event.told?).filterMap fun told =>
    if told.1 = observer then some told.2 else none

theorem heard_append (observer : String) (events more : List Event) :
    heard observer (events ++ more) = heard observer events ++ heard observer more := by
  simp only [heard, List.filterMap_append]

namespace Store

def perform (behaviour : Behaviour) : Operation → Store → Store × List Event
  | .set key value, s => (s.set behaviour (.text key) value).2
  | .delete key, s => (s.delete behaviour (.text key)).2
  | .clear, s => (s.clear behaviour).2
  | .attach listener, s => (s.addListener listener, [])
  | .detach listener, s => (s.removeListener listener, [])

def performAll (behaviour : Behaviour) : List Operation → Store → Store × List Event
  | [], s => (s, [])
  | op :: ops, s =>
    let (s', events) := perform behaviour op s
    let (s'', more) := performAll behaviour ops s'
    (s'', events ++ more)

/-- edits tried one after another, each with the store that it finds -/
def tries (behaviour : Behaviour) : List Edit → Store → List (Edit × Store)
  | [], _ => []
  | edit :: edits, s => (edit, s) :: tries behaviour edits (s.change behaviour edit).2.1

def triesOf (behaviour : Behaviour) : List Operation → Store → List (Edit × Store)
  | [], _ => []
  | op :: ops, s =>
    tries behaviour (op.edits s) s ++ triesOf behaviour ops (perform behaviour op s).1

section Quiet

variable {behaviour : Behaviour} {observer : String}

theorem heard_warnings (observer listener : String) (key : Scalar) (failure : Option Failure) :
    heard observer (failure.toList.map (behaviour.warning listener key)) = [] := by
  cases failure <;> rfl

/-- a listener hears of a change as often as it is registered, whatever the others do -/
theorem heard_notify (hquiet : behaviour.Quiet) (change : Changer) (c : Change)
    (ls : List String) (s : Store) :
    heard observer (notify change behaviour c ls s).2 = List.replicate (ls.count observer) c := by
  -- on the listeners to be told, which are those at the change: what each does to the list is lost
  induction ls generalizing s with
  | nil => rfl
  | cons l ls ih =>
    rw [notify_cons_events, (react_quiet change (hquiet l c) s).2, heard_append, ih,
      ← List.singleton_append, heard_append, heard_append, heard_warnings]
    by_cases hl : l = observer
    · rw [hl, List.count_cons_self, List.replicate_succ]
      simp [heard, Event.told?]
    · rw [List.count_cons_of_ne hl]
      simp [heard, Event.told?, hl]

/-- the observer is registered exactly once whenever an edit is tried -/
def ListensOnce (s : Store) (observer : String) (behaviour : Behaviour) (ops : List Operation) :
    Prop := ∀ a ∈ triesOf behaviour ops s, a.2.listeners.count observer = 1

/-- every change under a key that can be written out keeps the property, with all that listeners make
of it -/
def Kept (behaviour : Behaviour) (P : Store → Prop) : Prop :=
  ∀ edit s, edit.Legible → P s → P (s.change behaviour edit).2.1

namespace Kept

variable {P : Store → Prop} {s : Store}

theorem tries (h : Kept behaviour P) {edits : List Edit} (hedits : ∀ edit ∈ edits, edit.Legible)
    (hs : P s) : ∀ a ∈ Store.tries behaviour edits s, P a.2 := by
  induction edits generalizing s with
  | nil => simp [Store.tries]
  | cons edit edits ih =>
    obtain ⟨hedit, hrest⟩ := List.forall_mem_cons.1 hedits
    exact List.forall_mem_cons.2 ⟨hs, ih hrest (h edit s hedit hs)⟩

theorem deleteAll (h : Kept behaviour P) (keys : List Scalar) (hs : P s) :
    P (Store.deleteAll behaviour keys s).2.1 := by
  induction keys generalizing s with
  | nil => exact hs
  | cons key keys ih =>
    have hnext := h (.delete key) s (Edit.legible_delete key) hs
    rw [Store.deleteAll, delete]
    -- a deletion that fails is the last one
    rcases hanswer : s.change behaviour (.delete key) with ⟨failure | b, s', events⟩
    · rwa [hanswer] at hnext
    · rw [hanswer] at hnext
      exact ih hnext

theorem perform (h : Kept behaviour P) (op : Operation)
    (hattach : ∀ l, op = .attach l → P (s.addListener l))
    (hdetach : ∀ l, op = .detach l → P (s.removeListener l)) (hs : P s) :
    P (Store.perform behaviour op s).1 := by
  cases op with
  | set key value => exact h (.set (.text key) value) s (fun _ => rfl) hs
  | delete key => exact h _ s (Edit.legible_delete _) hs
  | clear => exact h.deleteAll s.keys hs
  | attach listener => exact hattach listener rfl
  | detach listener => exact hdetach listener rfl

end Kept

theorem kept_legible (h : behaviour.Legible) : Kept behaviour Legible :=
  fun _ _ hedit hs => change_legible h hedit hs

theorem perform_legible (h : behaviour.Legible) (op : Operation) {s : Store} (hs : s.Legible) :
    (perform behaviour op s).1.Legible :=
  (kept_legible h).perform op (fun _ _ => ⟨hs.1, hs.2⟩) (fun _ _ => ⟨hs.1, hs.2⟩) hs

section Spares

theorem count_addListener {listener : String} (h : listener ≠ observer) (s : Store) :
    (s.addListener listener).listeners.count observer = s.listeners.count observer := by
  simp [addListener, List.count_append, h]

theorem count_removeListener {listener : String} (h : listener ≠ observer) (s : Store) :
    (s.removeListener listener).listeners.count observer = s.listeners.count observer :=
  List.count_erase_of_ne h.symm

theorem count_react (change : Changer) {reaction : Reaction} (hquiet : reaction.Quiet)
    (hspares : reaction.Spares observer) (s : Store) :
    (react change reaction s).2.1.listeners.count observer = s.listeners.count observer := by
  induction reaction generalizing s with
  | done => rfl
  | fail failure => rfl
  | edit edit next ih => exact hquiet.elim
  | attach listener next ih => exact (ih hquiet hspares.2 _).trans (count_addListener hspares.1 s)
  | detach listener next ih =>
    exact (ih hquiet hspares.2 _).trans (count_removeListener hspares.1 s)
  | look next ih => exact ih s (hquiet s) (hspares s) s
  | keep memory next ih => exact ih hquiet hspares _

variable (hquiet : behaviour.Quiet) (hspares : ∀ l c, (behaviour l c).Spares observer)
include hquiet hspares

theorem count_notify (change : Changer) (c : Change) (ls : List String) (s : Store) :
    (notify change behaviour c ls s).1.listeners.count observer = s.listeners.count observer := by
  induction ls generalizing s with
  | nil => rfl
  | cons l ls ih => exact (ih _).trans (count_react change (hquiet l c) (hspares l c) s)

theorem kept_once : Kept behaviour fun s =>
    s.Legible ∧ s.listeners.count observer = 1 := by
  rintro edit s hedit ⟨hs, honce⟩
  refine ⟨change_legible hquiet.legible hedit hs, ?_⟩
  rcases apply_cases hedit hs with ⟨hnone, -⟩ | ⟨edited, hsome, hmade, -, hkey⟩
  · rw [change, changeWithin_of_idle hnone]
    exact honce
  · rw [change, changeWithin_of_made hsome hkey, ← honce, ← hmade.listeners]
    exact count_notify hquiet hspares _ _ _ _

theorem listensOnce_of_spares {ops : List Operation} (hops : ∀ op ∈ ops, op.Spares observer)
    {s : Store} (hs : s.Legible) (honce : s.listeners.count observer = 1) :
    s.ListensOnce observer behaviour ops := by
  have hkept := kept_once hquiet hspares
  induction ops generalizing s with
  | nil => simp [ListensOnce, triesOf]
  | cons op ops ih =>
    obtain ⟨hop, hrest⟩ := List.forall_mem_cons.1 hops
    have hnext := hkept.perform op (s := s)
      (by rintro l rfl; exact ⟨⟨hs.1, hs.2⟩, (count_addListener hop s).trans honce⟩)
      (by rintro l rfl; exact ⟨⟨hs.1, hs.2⟩, (count_removeListener hop s).trans honce⟩) ⟨hs, honce⟩
    refine List.forall_mem_append.2 ⟨fun a ha => ?_, ih hrest hnext.1 hnext.2⟩
    exact (hkept.tries (op.edits_legible s) ⟨hs, honce⟩ a ha).2

end Spares

/-- from one store to another an observer hears just what the edits that were tried announce, and
enough to follow them -/
structure Observed (observer : String) (s : Store) (tried : List (Edit × Store)) (s' : Store)
    (events : List Event) : Prop where
  heard : heard observer events = tried.filterMap fun a => a.1.notice? a.2
  replayed : (LinkedCalls.heard observer events).foldl Change.replay s.view = s'.view

namespace Observed

theorem refl (observer : String) (s : Store) : Observed observer s [] s [] := ⟨rfl, rfl⟩

theorem trans {s s' s'' : Store} {tried tried' : List (Edit × Store)} {events events' : List Event}
    (h : Observed observer s tried s' events) (h' : Observed observer s' tried' s'' events') :
    Observed observer s (tried ++ tried') s'' (events ++ events') where
  heard := by rw [heard_append, h.heard, h'.heard, List.filterMap_append]
  replayed := by rw [heard_append, List.foldl_append, h.replayed, h'.replayed]

end Observed

theorem observed_change (hquiet : behaviour.Quiet) {edit : Edit} (hedit : edit.Legible) {s : Store}
    (hs : s.Legible) (honce : s.listeners.count observer = 1) :
    Observed observer s [(edit, s)] (s.change behaviour edit).2.1
      (s.change behaviour edit).2.2 := by
  rcases apply_cases hedit hs with ⟨hnone, hidle⟩ | ⟨edited, hsome, hmade, -, hkey⟩
  · have hnotice : edit.notice? s = none := by simp [Edit.notice?, hidle.1, hidle.2]
    rw [change, changeWithin_of_idle hnone]
    exact ⟨by simp [hnotice, LinkedCalls.heard], rfl⟩
  · have hnotice : edit.notice? s = some (edit.change s) := by
      rw [Edit.notice?, if_pos (by simpa using hmade.present)]
    rw [change, changeWithin_of_made hsome hkey]
    have hheard : LinkedCalls.heard observer (notify (changeWithin behaviour behaviour.room)
        behaviour (edit.change s) edited.listeners edited).2 = [edit.change s] := by
      rw [heard_notify hquiet, hmade.listeners, honce]
      rfl
    refine ⟨by simp [hheard, hnotice], ?_⟩
    -- a value that is read is null if nothing is there, and so is what is told of an erasure
    rw [hheard]
    funext key
    show (if edit.key = .text key then edit.leaves.getD .null else s.get (.text key)) = _
    rw [view, get, get, notify_entries _ hquiet, hmade.find?]
    split <;> rfl

theorem observed_deleteAll (hquiet : behaviour.Quiet) (keys : List Scalar) {s : Store}
    (hs : s.Legible)
    (honce : ∀ a ∈ tries behaviour (keys.map .delete) s, a.2.listeners.count observer = 1) :
    Observed observer s (tries behaviour (keys.map .delete) s) (deleteAll behaviour keys s).2.1
      (deleteAll behaviour keys s).2.2 := by
  induction keys generalizing s with
  | nil => exact .refl observer s
  | cons key keys ih =>
    obtain ⟨hfirst, hrest⟩ := List.forall_mem_cons.1 honce
    have hdelete := Edit.legible_delete key
    rw [deleteAll_cons hquiet.legible key keys hs]
    exact (observed_change hquiet hdelete hs hfirst).trans
      (ih (change_legible hquiet.legible hdelete hs) hrest)

theorem observed_perform (hquiet : behaviour.Quiet) (op : Operation) {s : Store} (hs : s.Legible)
    (honce : ∀ a ∈ tries behaviour (op.edits s) s, a.2.listeners.count observer = 1) :
    Observed observer s (tries behaviour (op.edits s) s) (perform behaviour op s).1
      (perform behaviour op s).2 := by
  cases op with
  | set key value => exact observed_change hquiet (fun _ => rfl) hs (honce _ List.mem_cons_self)
  | delete key =>
    exact observed_change hquiet (Edit.legible_delete _) hs (honce _ List.mem_cons_self)
  | clear => exact observed_deleteAll hquiet s.keys hs honce
  | attach listener => exact ⟨rfl, rfl⟩
  | detach listener => exact ⟨rfl, rfl⟩

theorem observed_performAll (hquiet : behaviour.Quiet) (ops : List Operation) {s : Store}
    (hs : s.Legible) (honce : s.ListensOnce observer behaviour ops) :
    Observed observer s (triesOf behaviour ops s) (performAll behaviour ops s).1
      (performAll behaviour ops s).2 := by
  induction ops generalizing s with
  | nil => exact .refl observer s
  | cons op ops ih =>
    obtain ⟨hfirst, hrest⟩ := List.forall_mem_append.1 honce
    exact (observed_perform hquiet op hs hfirst).trans
      (ih (perform_legible hquiet.legible op hs) hrest)

/-- What a listener hears reproduces the store, whose keys can be written out. Where no listener
writes (they may fail, come and go), one that is registered exactly once throughout hears of each
write and of each erasure of a present key once, those made in emptying the store included, in
order, with the value that the key had in the store just before; and what it hears, replayed on the
contents at the start, gives the contents at the end. -/
theorem heard_reproduces_store (hquiet : behaviour.Quiet) (ops : List Operation) {s : Store}
    (hs : s.Legible) (honce : s.ListensOnce observer behaviour ops) :
    let changes := heard observer (performAll behaviour ops s).2
    changes = (triesOf behaviour ops s).filterMap (fun a => a.1.notice? a.2) ∧
      changes.foldl Change.replay s.view = (performAll behaviour ops s).1.view := by
  have hobserved := observed_performAll hquiet ops hs honce
  exact ⟨hobserved.heard, hobserved.replayed⟩

end Quiet

end Store

namespace Demo

/-- one listener lets another in and leaves, one only listens, and the rest refuse every change -/
def admitting : Behaviour where
  reaction := fun listener _ =>
    if listener = "usher" then .detach "usher" (.attach "critic" .done)
    else if listener = "watch" then .done
    else .fail (.raised "ValueError" (some "no changes, please"))
  className := id
  room := 0

theorem admitting_quiet : admitting.Quiet := by
  intro listener c
  unfold admitting
  dsimp only
  split_ifs <;> trivial

def watched : Store where
  entries := [(.text "draft", .text "first")]
  listeners := ["critic", "watch"]

/-- writes, an erasure of what is not there, and an emptying, with listeners that come and go -/
def editing : List Operation :=
  [.set "copy" (.text "first"), .attach "usher", .set "draft" (.text "second"), .detach "critic",
    .delete "note", .clear, .set "draft" (.text "third")]

theorem editing_heard :
    admitting.Quiet ∧ watched.Legible ∧
      watched.ListensOnce "watch" admitting editing ∧
      (heard "watch" (watched.performAll admitting editing).2).map Change.key =
        [.text "copy", .text "draft", .text "draft", .text "copy", .text "draft"] ∧
      (heard "watch" (watched.performAll admitting editing).2).foldl Change.replay watched.view =
        (watched.performAll admitting editing).1.view := by
  have hquiet := admitting_quiet
  have hspares : ∀ listener c, (admitting listener c).Spares "watch" := by
    intro listener c
    unfold admitting
    dsimp only
    split_ifs
    · exact ⟨by decide, by decide, trivial⟩
    · trivial
    · trivial
  have hops : ∀ op ∈ editing, op.Spares "watch" := by
    simp [editing, Operation.Spares]
  have hs : watched.Legible := ⟨by decide, by simp [watched, Store.keys, Table.keys, Scalar.isLong]⟩
  have honce := Store.listensOnce_of_spares hquiet hspares hops hs (by decide)
  exact ⟨hquiet, hs, honce, rfl, (Store.heard_reproduces_store hquiet editing hs honce).2⟩

end Demo

end LinkedCalls
