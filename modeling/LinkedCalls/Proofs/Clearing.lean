import LinkedCalls.Proofs.Delivery
import Mathlib.Data.List.Forall2
import Mathlib.Data.List.Perm.Basic

/-!
The emptying of a store, where listeners may delete in turn but set nothing. The keys are gone over
as they stand at the start, while listeners erase some of them further on, in rounds within rounds.
Every round takes one entry away, so all of them together take each entry away once; and as the
store gets smaller, rounds nest less deep than there are keys, whatever room there is for them.
-/
namespace LinkedCalls

/-- it sets nothing, whatever it finds -/
def Reaction.SetsNothing : Reaction → Prop
  | .done => True
  | .fail _ => True
  | .edit e next => e.leaves = none ∧ ∀ answer, (next answer).SetsNothing
  | .attach _ next => next.SetsNothing
  | .detach _ next => next.SetsNothing
  | .look next => ∀ s, (next s).SetsNothing
  | .keep _ next => next.SetsNothing

def Behaviour.SetsNothing (behaviour : Behaviour) : Prop :=
  ∀ listener change, (behaviour listener change).SetsNothing

theorem Reaction.SetsNothing.legible {reaction : Reaction} (h : reaction.SetsNothing) :
    reaction.Legible := by
  induction reaction with
  | done => trivial
  | fail failure => trivial
  | edit edit next ih => exact ⟨fun hsets => by simp [h.1] at hsets, fun r => ih r (h.2 r)⟩
  | attach listener next ih => exact ih h
  | detach listener next ih => exact ih h
  | look next ih => exact fun s _ => ih s (h s)
  | keep memory next ih => exact ih h

theorem Behaviour.SetsNothing.legible {behaviour : Behaviour} (h : behaviour.SetsNothing) :
    behaviour.Legible := fun listener change _ => (h listener change).legible

def Behaviour.withRoom (behaviour : Behaviour) (room : Nat) : Behaviour :=
  { behaviour with room := room }

mutual

/-- the round and all rounds within it, in the order in which their edits were made -/
def Round.unroll : Round → List Round
  | ⟨room, edit, before, edited, tellings, after, events⟩ =>
    ⟨room, edit, before, edited, tellings, after, events⟩ :: Telling.unrollAll tellings

def Telling.unroll : Telling → List Round
  | ⟨_, _, _, rounds, _, _⟩ => Round.unrollAll rounds

def Telling.unrollAll : List Telling → List Round
  | [] => []
  | t :: ts => t.unroll ++ Telling.unrollAll ts

def Round.unrollAll : List Round → List Round
  | [] => []
  | r :: rs => r.unroll ++ Round.unrollAll rs

end

theorem Round.unrollAll_eq (rs : List Round) : Round.unrollAll rs = rs.flatMap Round.unroll := by
  induction rs with
  | nil => rfl
  | cons r rs ih => rw [Round.unrollAll, ih, List.flatMap_cons]

theorem Telling.unroll_eq (t : Telling) : t.unroll = t.rounds.flatMap Round.unroll := by
  obtain ⟨listener, change, found, rounds, failure, left⟩ := t
  exact Round.unrollAll_eq rounds

theorem Telling.unrollAll_eq (ts : List Telling) :
    Telling.unrollAll ts = ts.flatMap Telling.unroll := by
  induction ts with
  | nil => rfl
  | cons t ts ih => rw [Telling.unrollAll, ih, List.flatMap_cons]

theorem Round.unroll_eq (r : Round) : r.unroll = r :: r.tellings.flatMap Telling.unroll := by
  obtain ⟨room, edit, before, edited, tellings, after, events⟩ := r
  rw [Round.unroll, Telling.unrollAll_eq]

namespace Round

theorem sizeOf_lt_of_mem {r r' : Round} {t : Telling} (ht : t ∈ r.tellings)
    (hr : r' ∈ t.rounds) : sizeOf r' < sizeOf r := by
  have htelling := List.sizeOf_lt_of_mem ht
  have hround := List.sizeOf_lt_of_mem hr
  obtain ⟨listener, change, found, rounds, failure, left⟩ := t
  obtain ⟨room, edit, before, edited, tellings, after, events⟩ := r
  simp only [Round.mk.sizeOf_spec, Telling.mk.sizeOf_spec] at *
  omega

/-- what a round has if those have it that its listeners make, every round has -/
theorem induct {P : Round → Prop}
    (h : ∀ r : Round, (∀ t ∈ r.tellings, ∀ r' ∈ t.rounds, P r') → P r) (r : Round) : P r := by
  induction hn : sizeOf r using Nat.strongRecOn generalizing r with
  | ind n ih =>
    subst hn
    exact h r fun t ht r' hr => ih _ (sizeOf_lt_of_mem ht hr) r' rfl

theorem mem_unroll_iff {q r : Round} : q ∈ r.unroll ↔ q.Within r := by
  constructor
  · intro hq
    induction r using Round.induct with
    | h r ih =>
      rw [unroll_eq, List.mem_cons] at hq
      rcases hq with rfl | hq
      · exact .self q
      · obtain ⟨t, ht, hq⟩ := List.mem_flatMap.1 hq
        rw [Telling.unroll_eq] at hq
        obtain ⟨r', hr, hq⟩ := List.mem_flatMap.1 hq
        exact .nested ht hr (ih t ht r' hr hq)
  · intro hq
    induction hq with
    | self =>
      rw [unroll_eq]
      exact List.mem_cons_self
    | nested ht hr _ ih =>
      rw [unroll_eq]
      refine List.mem_cons_of_mem _ (List.mem_flatMap.2 ⟨_, ht, ?_⟩)
      rw [Telling.unroll_eq]
      exact List.mem_flatMap.2 ⟨_, hr, ih⟩

/-- the round erases an entry: the one that is found under its key, of which the value is told -/
structure Erases (r : Round) (e : Scalar × Value) : Prop where
  leaves : r.edit.leaves = none
  key : e.1.same r.edit.key = true
  change : r.edit.change r.before = ⟨r.edit.key, e.2, .null⟩
  entries : r.before.entries.Perm (e :: r.edited.entries)

/-- what a round has to tell: its change, to each registration that it finds -/
def notices (r : Round) : List (String × Change) :=
  r.before.listeners.map fun listener => (listener, r.edit.change r.before)

end Round

/-- the entries of the first store are those that the rounds erase, one each, and those that are
left in the second -/
def Store.Loses (s : Store) (rounds : List Round) (s' : Store) : Prop :=
  ∃ gone, List.Forall₂ Round.Erases rounds gone ∧ s.entries.Perm (gone ++ s'.entries)

namespace Store.Loses

variable {s s' s'' : Store} {rounds rounds' : List Round}

theorem refl (s : Store) : s.Loses [] s := ⟨[], .nil, .refl _⟩

theorem trans (h : s.Loses rounds s') (h' : s'.Loses rounds' s'') :
    s.Loses (rounds ++ rounds') s'' := by
  obtain ⟨gone, herases, hperm⟩ := h
  obtain ⟨gone', herases', hperm'⟩ := h'
  refine ⟨gone ++ gone', List.rel_append herases herases', ?_⟩
  rw [List.append_assoc]
  exact hperm.trans (hperm'.append_left gone)

theorem subset (h : s.Loses rounds s') : s'.entries ⊆ s.entries := by
  obtain ⟨gone, -, hperm⟩ := h
  exact List.Subset.trans (List.subset_append_right gone _) hperm.symm.subset

theorem size_le (h : s.Loses rounds s') : s'.size ≤ s.size := by
  obtain ⟨gone, -, hperm⟩ := h
  simp only [size, keys, Table.keys, List.length_map, hperm.length_eq, List.length_append]
  exact Nat.le_add_left _ _

end Store.Loses

namespace Edit.Made

variable {key : Scalar} {before edited : Store}

theorem of_delete (h : (Edit.delete key).Made before edited) :
    before.has key = true ∧ edited.entries = Table.erase before.entries key := by
  have hhas : before.has key = true := h.present.resolve_left Bool.false_ne_true
  have happly := h.apply
  rw [Store.apply, if_pos hhas] at happly
  exact ⟨hhas, by rw [← (Prod.mk.inj (Option.some.inj happly)).1]⟩

theorem size_of_delete (h : (Edit.delete key).Made before edited) :
    edited.size + 1 = before.size := by
  obtain ⟨hhas, hedited⟩ := h.of_delete
  obtain ⟨e, -, -, hperm⟩ := Table.exists_erased hhas
  simp only [Store.size, Store.keys, Table.keys, List.length_map, hedited]
  exact hperm.length_eq.symm

end Edit.Made

section Tree

variable {behaviour : Behaviour}

theorem Reaction.Makes.loses {room : Nat} {reaction : Reaction} {s s' : Store}
    {rounds : List Round} {failure : Option Failure}
    (h : reaction.Makes room s rounds failure s') (hsets : reaction.SetsNothing)
    (hrounds : ∀ r ∈ rounds, r.edit.leaves = none → r.before.Loses r.unroll r.after) :
    s.Loses (rounds.flatMap Round.unroll) s' := by
  induction h with
  | done s => exact .refl s
  | fail failure s => exact .refl s
  | tooDeep h rest ih => exact ih (hsets.2 _) hrounds
  | idle h idle rest ih => exact ih (hsets.2 _) hrounds
  | made h rest ih =>
    obtain ⟨hfirst, hrest⟩ := List.forall_mem_cons.1 hrounds
    exact (hfirst hsets.1).trans (ih (hsets.2 _) hrest)
  -- listeners that come and go, and what they keep in mind, are no entries
  | attach rest ih => exact ih hsets hrounds
  | detach rest ih => exact ih hsets hrounds
  | look rest ih => exact ih (hsets _) hrounds
  | keep rest ih => exact ih hsets hrounds

theorem Telling.Follow.loses {s s' : Store} {ts : List Telling} (h : Telling.Follow s ts s')
    (hts : ∀ t ∈ ts, t.found.Loses t.unroll t.left) : s.Loses (ts.flatMap Telling.unroll) s' := by
  induction h with
  | nil s => exact .refl s
  | cons rest ih =>
    obtain ⟨hfirst, hrest⟩ := List.forall_mem_cons.1 hts
    exact hfirst.trans (ih hrest)

theorem Round.Follow.loses {s s' : Store} {edits : List Edit} {rounds : List Round}
    (h : Round.Follow s edits rounds s')
    (hrounds : ∀ r ∈ rounds, r.before.Loses r.unroll r.after) :
    s.Loses (rounds.flatMap Round.unroll) s' := by
  induction h with
  | nil s => exact .refl s
  | idle idle rest ih => exact ih hrounds
  | made rest ih =>
    obtain ⟨hfirst, hrest⟩ := List.forall_mem_cons.1 hrounds
    exact hfirst.trans (ih hrest)

namespace Round

variable {r : Round}

theorem Delivered.exists_erases (h : r.Delivered behaviour) (hleaves : r.edit.leaves = none) :
    ∃ e, r.Erases e := by
  have hmade := h.made
  rcases hedit : r.edit with ⟨key, value⟩ | key
  · rw [hedit] at hleaves
    cases hleaves
  · rw [hedit] at hmade
    obtain ⟨hhas, hedited⟩ := hmade.of_delete
    obtain ⟨e, hsame, hfound, hperm⟩ := Table.exists_erased hhas
    refine ⟨e, hleaves, by rwa [hedit], ?_, by rwa [hedited]⟩
    rw [hedit, Edit.change, Store.get, Edit.key, hfound]
    rfl

theorem Delivered.loses (h : r.Delivered behaviour) (hleaves : r.edit.leaves = none)
    (htold : r.edited.Loses (r.tellings.flatMap Telling.unroll) r.after) :
    r.before.Loses r.unroll r.after := by
  obtain ⟨e, he⟩ := h.exists_erases hleaves
  have hfirst : r.before.Loses [r] r.edited := ⟨[e], .cons he .nil, he.entries⟩
  rw [unroll_eq]
  exact hfirst.trans htold

namespace DeliveredThroughout

theorem nested (h : r.DeliveredThroughout behaviour) {t : Telling} (ht : t ∈ r.tellings)
    {r' : Round} (hr : r' ∈ t.rounds) : r'.DeliveredThroughout behaviour :=
  fun q hq => h q (.nested ht hr hq)

theorem loses_told (hsets : behaviour.SetsNothing) (h : r.DeliveredThroughout behaviour) :
    r.edited.Loses (r.tellings.flatMap Telling.unroll) r.after := by
  induction r using Round.induct with
  | h r ih =>
    have hr := h r (.self r)
    refine hr.follow.loses fun t ht => ?_
    rw [Telling.unroll_eq]
    refine (hr.reacts t ht).loses (hsets _ _) fun r' hr' hleaves => ?_
    have hnested := h.nested ht hr'
    exact (hnested r' (.self r')).loses hleaves (ih t ht r' hr' hnested)

/-- a deletion with all that it sets off loses an entry in each round, and no other -/
theorem loses (hsets : behaviour.SetsNothing) (h : r.DeliveredThroughout behaviour)
    (hleaves : r.edit.leaves = none) : r.before.Loses r.unroll r.after :=
  (h r (.self r)).loses hleaves (h.loses_told hsets)

end DeliveredThroughout

end Round

theorem told_warnings (listener : String) (key : Scalar) (failure : Option Failure) :
    (failure.toList.map (behaviour.warning listener key)).filterMap Event.told? = [] := by
  cases failure <;> rfl

theorem Telling.told_events (t : Telling) :
    (t.events behaviour).filterMap Event.told? =
      (t.listener, t.change) :: t.rounds.flatMap fun r => r.events.filterMap Event.told? := by
  rw [Telling.events, List.filterMap_append, told_warnings, List.append_nil]
  exact congrArg ((t.listener, t.change) :: ·) List.filterMap_flatMap

/-- all that listeners are told is what the rounds have to tell -/
theorem Round.DeliveredThroughout.told_perm {r : Round} (h : r.DeliveredThroughout behaviour) :
    (r.events.filterMap Event.told?).Perm (r.unroll.flatMap Round.notices) := by
  induction r using Round.induct with
  | h r ih =>
    have hr := h r (.self r)
    have hnotices : r.notices = r.tellings.map fun t => (t.listener, t.change) := by
      rw [Round.notices, ← hr.told, List.map_map]
      exact List.map_congr_left fun t ht => congrArg (Prod.mk t.listener) (hr.change t ht).symm
    have hnested : ∀ t ∈ r.tellings,
        (t.rounds.flatMap fun r' => r'.events.filterMap Event.told?).Perm
          (t.unroll.flatMap Round.notices) := by
      intro t ht
      rw [Telling.unroll_eq, List.flatMap_assoc]
      exact .flatMap_left _ fun r' hr' => ih t ht r' hr' (h.nested ht hr')
    rw [hr.events, List.filterMap_flatMap, Round.unroll_eq, List.flatMap_cons, hnotices,
      List.flatMap_assoc]
    simp only [Telling.told_events]
    -- a nested round may be told of between two listeners of its own round
    refine (List.map_append_flatMap_perm r.tellings _ _).symm.trans ?_
    exact (List.Perm.flatMap_left _ hnested).append_left _

end Tree

namespace Store

/-- The store is emptied by these rounds, made by deleting its keys one after another: each entry is
erased in just one of them, nested ones included, and all that listeners are told is that. -/
structure Cleared (behaviour : Behaviour) (s : Store) (ended : Store × List Event)
    (rounds : List Round) : Prop where
  empty : ended.1.entries = []
  follow : Round.Follow s (s.keys.map .delete) rounds ended.1
  delivered : ∀ q ∈ rounds.flatMap Round.unroll, q.Delivered behaviour
  once : ∃ gone, List.Forall₂ Round.Erases (rounds.flatMap Round.unroll) gone ∧
    gone.Perm s.entries
  told : (ended.2.filterMap Event.told?).Perm
    ((rounds.flatMap Round.unroll).flatMap Round.notices)

variable {behaviour : Behaviour} {room : Nat}

theorem notify_withRoom (change : Changer) (c : Change) (ls : List String) (s : Store) :
    notify change (behaviour.withRoom room) c ls s = notify change behaviour c ls s := by
  induction ls generalizing s with
  | nil => rfl
  | cons l ls ih =>
    simp only [notify, ih]
    rfl

/-- how deep changes may be nested in a given one does not depend on where the first was made -/
theorem changeWithin_withRoom (behaviour : Behaviour) (room depth : Nat) :
    changeWithin (behaviour.withRoom room) depth = changeWithin behaviour depth := by
  induction depth with
  | zero => rfl
  | succ depth ih =>
    funext edit s
    simp only [changeWithin, ih, notify_withRoom]

theorem leaves_of_follow {keys : List Scalar} {rounds : List Round} {s s' : Store}
    (h : Round.Follow s (keys.map .delete) rounds s') : ∀ r ∈ rounds, r.edit.leaves = none := by
  intro r hr
  obtain ⟨key, -, hedit⟩ := List.mem_map.1 (h.edit_mem r hr)
  rw [← hedit]
  rfl

section SetsNothing

variable (hsets : behaviour.SetsNothing)
include hsets

theorem deleteAll_entries {keys : List Scalar} {s : Store} (hs : s.Legible)
    (hkeys : ∀ e ∈ s.entries, e.1 ∈ keys) :
    (deleteAll behaviour keys s).2.1.entries = [] := by
  -- on the keys still to be erased, among which are all that are left in the store
  induction keys generalizing s with
  | nil =>
    refine List.eq_nil_iff_forall_not_mem.2 fun e he => ?_
    cases hkeys e he
  | cons key keys ih =>
    rw [deleteAll_cons hsets.legible key keys hs]
    rcases change_cases hsets.legible (Edit.legible_delete key) hs with
      ⟨hsame, -, hhas⟩ | ⟨r, -, hedit, rfl, hmade, hlegible, hall⟩
    · rw [hsame]
      refine ih hs fun e he => (List.mem_cons.1 (hkeys e he)).resolve_left ?_
      rintro rfl
      exact Bool.false_ne_true (hhas.symm.trans (Table.has_of_mem he))
    · rw [hmade]
      refine ih hlegible fun e he => ?_
      have herased := (hall r (.self r)).made
      rw [hedit] at herased
      have hleft : e ∈ Table.erase r.before.entries key :=
        herased.of_delete.2 ▸ (hall.loses_told hsets).subset he
      exact (List.mem_cons.1 (hkeys e (List.mem_of_mem_eraseP hleft))).resolve_left
        (hs.distinct.fst_ne_of_mem_erase hleft)

theorem changeWithin_shrinks (room : Nat) (key : Scalar) {s : Store} (hs : s.Legible) :
    (changeWithin behaviour room (.delete key) s).2.1.Legible ∧
      (changeWithin behaviour room (.delete key) s).2.1.size ≤ s.size := by
  cases room with
  | zero => exact ⟨hs, Nat.le_refl _⟩
  | succ room =>
    rcases changeWithin_delivering hsets.legible (room + 1) (.delete key) s
      (Edit.legible_delete key) hs with ⟨hsame, -⟩ | ⟨r, -, hedit, rfl, hmade, hlegible, hall⟩
    · rw [hsame]
      exact ⟨hs, Nat.le_refl _⟩
    · rw [hmade]
      exact ⟨hlegible, (hall.loses hsets (by rw [hedit]; rfl)).size_le⟩

section Alike

variable {size n m : Nat}
  (hsame : ∀ key (s : Store), s.Legible → s.size ≤ size →
    changeWithin behaviour n (.delete key) s = changeWithin behaviour m (.delete key) s)
include hsame

/-- where deletions come to the same in small stores, so does a reaction, and leaves a small one -/
theorem react_of_small {reaction : Reaction} (hreaction : reaction.SetsNothing) {s : Store}
    (hs : s.Legible) (hsize : s.size ≤ size) :
    let ended := react (changeWithin behaviour n) reaction s
    ended = react (changeWithin behaviour m) reaction s ∧
      ended.2.1.Legible ∧ ended.2.1.size ≤ size := by
  induction reaction generalizing s with
  | done => exact ⟨rfl, hs, hsize⟩
  | fail failure => exact ⟨rfl, hs, hsize⟩
  | edit edit next ih =>
    rcases edit with ⟨key, value⟩ | key
    · cases hreaction.1
    · obtain ⟨hs', hsize'⟩ := changeWithin_shrinks hsets n key hs
      obtain ⟨hrest, hlegible, hleft⟩ := ih (changeWithin behaviour n (.delete key) s).1
        (hreaction.2 _) hs' (Nat.le_trans hsize' hsize)
      simp only [react_edit, ← hsame key s hs hsize, ← hrest, true_and]
      exact ⟨hlegible, hleft⟩
  | attach listener next ih =>
    exact ih (s := s.addListener listener) hreaction ⟨hs.1, hs.2⟩ hsize
  | detach listener next ih =>
    exact ih (s := s.removeListener listener) hreaction ⟨hs.1, hs.2⟩ hsize
  | look next ih => exact ih s (hreaction s) hs hsize
  | keep memory next ih =>
    exact ih (s := { s with memory := memory }) hreaction ⟨hs.1, hs.2⟩ hsize

theorem notify_of_small (c : Change) (ls : List String) {s : Store} (hs : s.Legible)
    (hsize : s.size ≤ size) :
    notify (changeWithin behaviour n) behaviour c ls s =
      notify (changeWithin behaviour m) behaviour c ls s := by
  induction ls generalizing s with
  | nil => rfl
  | cons l ls ih =>
    obtain ⟨hreacts, hlegible, hleft⟩ := react_of_small hsets hsame (hsets l c) hs hsize
    simp only [notify, ← hreacts, ih hlegible hleft]

end Alike

/-- deletions nest less deep than there are keys, so further room makes no difference -/
theorem changeWithin_of_size_lt (key : Scalar) {n m : Nat} {s : Store} (hs : s.Legible)
    (hn : s.size < n) (hm : s.size < m) :
    changeWithin behaviour n (.delete key) s = changeWithin behaviour m (.delete key) s := by
  -- on the room: those who are told of a deletion find one key less
  induction n generalizing key m s with
  | zero => cases hn
  | succ n ih =>
    obtain ⟨m, rfl⟩ : ∃ k, m = k + 1 := ⟨m - 1, by omega⟩
    rcases apply_cases (Edit.legible_delete key) hs with
      ⟨hnone, -⟩ | ⟨edited, hsome, hmade, hedited, hkey⟩
    · rw [changeWithin_of_idle hnone, changeWithin_of_idle hnone]
    · have hsize := hmade.size_of_delete
      have hsame : ∀ key (t : Store), t.Legible → t.size ≤ edited.size →
          changeWithin behaviour n (.delete key) t = changeWithin behaviour m (.delete key) t :=
        fun key t ht hle => ih key ht (by omega) (by omega)
      rw [changeWithin_of_made hsome hkey, changeWithin_of_made hsome hkey,
        notify_of_small hsets hsame _ _ hedited (Nat.le_refl _)]

theorem deleteAll_of_size_le (keys : List Scalar) {n m : Nat} {s : Store} (hs : s.Legible)
    (hn : s.size ≤ n) (hm : s.size ≤ m) :
    deleteAll (behaviour.withRoom n) keys s = deleteAll (behaviour.withRoom m) keys s := by
  induction keys generalizing s with
  | nil => rfl
  | cons key keys ih =>
    have hsame : s.change (behaviour.withRoom n) (.delete key) =
        s.change (behaviour.withRoom m) (.delete key) := by
      simp only [change, changeWithin_withRoom]
      exact changeWithin_of_size_lt hsets key hs (Nat.lt_succ_of_le hn) (Nat.lt_succ_of_le hm)
    have hleft : (s.change (behaviour.withRoom n) (.delete key)).2.1.Legible ∧
        (s.change (behaviour.withRoom n) (.delete key)).2.1.size ≤ s.size := by
      simp only [change, changeWithin_withRoom]
      exact changeWithin_shrinks hsets (n + 1) key hs
    have hlegible : ∀ room, (behaviour.withRoom room).Legible := fun _ => hsets.legible
    rw [deleteAll_cons (hlegible n) key keys hs, deleteAll_cons (hlegible m) key keys hs, ← hsame,
      ih hleft.1 (Nat.le_trans hleft.2 hn) (Nat.le_trans hleft.2 hm)]

/-- A store that is cleared is empty in the end, where no listener sets anything; listeners may
fail, come and go, and delete whatever they like. It is cleared without failure, if its keys can be
written out, and each entry is erased in just one round, by the loop or by a listener; its value is
told to those registered then, and nobody is told of it again. This holds however deep changes may
be nested. It ends by itself: with as much room as there are keys no change is ever nested too deep,
and further room makes no difference. -/
theorem clear_clears {s : Store} (hs : s.Legible) :
    (s.clear behaviour).1 = .ok () ∧
    (∃ rounds, s.Cleared behaviour (s.clear behaviour).2 rounds) ∧
    ∀ room, s.size ≤ room →
      s.clear (behaviour.withRoom room) = s.clear (behaviour.withRoom s.size) := by
  obtain ⟨hanswer, rounds, hfollow, hevents, hrounds⟩ :=
    deleteAll_delivers hsets.legible s.keys hs
  refine ⟨hanswer, ?_, fun room hroom =>
    deleteAll_of_size_le hsets s.keys hs hroom (Nat.le_refl _)⟩
  have hempty : (deleteAll behaviour s.keys s).2.1.entries = [] :=
    deleteAll_entries hsets hs fun e he => List.mem_map_of_mem he
  have hleaves := leaves_of_follow hfollow
  obtain ⟨gone, herases, hperm⟩ :=
    hfollow.loses fun r hr => (hrounds r hr).2.loses hsets (hleaves r hr)
  rw [hempty, List.append_nil] at hperm
  refine ⟨rounds, hempty, hfollow, fun q hq => ?_, ⟨gone, herases, hperm.symm⟩, ?_⟩
  · obtain ⟨r, hr, hwithin⟩ := List.mem_flatMap.1 hq
    exact (hrounds r hr).2 q (Round.mem_unroll_iff.1 hwithin)
  · rw [clear, hevents, List.filterMap_flatMap, List.flatMap_assoc]
    exact .flatMap_left _ fun r hr => (hrounds r hr).2.told_perm

end SetsNothing

end Store

namespace Demo

/-- one listener deletes the copy with the draft and lets another in, one refuses every change -/
def tidying : Behaviour where
  reaction := fun listener c =>
    if listener = "cleaner" then
      if c.key = .text "draft" then
        .edit (.delete (.text "copy")) (.orFail fun _ => .attach "watch" .done)
      else .edit (.delete (.text "draft")) (.orFail fun _ => .done)
    else if listener = "watch" then .done
    else .fail (.raised "ValueError" (some "no changes, please"))
  className := id
  room := 2

def cluttered : Store where
  entries := [(.text "draft", .text "second"), (.text "copy", .text "first"), (.text "note", .null)]
  listeners := ["cleaner", "critic"]

/-- the copy goes within the round of the draft, and nobody is told of it again -/
theorem cluttered_cleared :
    tidying.SetsNothing ∧ cluttered.Legible ∧ (cluttered.clear tidying).1 = .ok () ∧
      (cluttered.clear tidying).2.1.entries = [] ∧
      ((cluttered.clear tidying).2.2.filterMap Event.told?).map
          (fun told => (told.1, told.2.key)) =
        [("cleaner", .text "draft"), ("cleaner", .text "copy"), ("critic", .text "copy"),
          ("critic", .text "draft"), ("cleaner", .text "note"), ("critic", .text "note"),
          ("watch", .text "note")] := by
  have hsets : tidying.SetsNothing := by
    intro listener c
    unfold tidying
    dsimp only
    split_ifs
    · exact ⟨rfl, fun answer => by cases answer <;> trivial⟩
    · exact ⟨rfl, fun answer => by cases answer <;> trivial⟩
    · trivial
    · trivial
  have hs : cluttered.Legible :=
    ⟨by decide, by simp [cluttered, Store.keys, Table.keys, Scalar.isLong]⟩
  obtain ⟨hanswer, ⟨rounds, hcleared⟩, -⟩ := Store.clear_clears hsets hs
  exact ⟨hsets, hs, hanswer, hcleared.empty, rfl⟩

end Demo

end LinkedCalls
