import LinkedCalls.Proofs.Notifications
import Mathlib.Data.List.DropRight

/-!
A store against the operations on it. Where listeners do not write, the store is the map that its
history makes: a key is there from its first write after it was last deleted, and stands in the
order of these writes, with the value that was written last, `null` or not. What is written at the
start counts as written first.
-/
namespace LinkedCalls

namespace Operation

def deletes (name : String) : Operation → Bool
  | .delete key => key == name
  | .clear => true
  | _ => false

/-- what the operation writes under a key -/
def written? (name : String) : Operation → Option Value
  | .set key value => if key = name then some value else none
  | _ => none

def on (t : Table Value) : Operation → Table Value
  | .set key value => t.insert (.text key) value
  | .delete key => t.erase (.text key)
  | .clear => []
  | .attach _ | .detach _ => t

end Operation

/-- the operations since a key was last deleted -/
def since (history : List Operation) (name : String) : List Operation :=
  history.rtakeWhile fun op => !op.deletes name

/-- the time of the first write since a key was last deleted: how many operations came before -/
def firstWrite? (history : List Operation) (name : String) : Option Nat :=
  ((since history name).findIdx? fun op => (op.written? name).isSome).map
    (history.length - (since history name).length + ·)

/-- the last of the values written since a key was last deleted -/
def lastValue? (history : List Operation) (name : String) : Option Value :=
  ((since history name).filterMap (Operation.written? name)).getLast?

/-- both keys are there, and one was written before the other -/
def Earlier (history : List Operation) (a b : String) : Prop :=
  ∃ i j, firstWrite? history a = some i ∧ firstWrite? history b = some j ∧ i < j

/-- the store is the map that a history makes, in the order of insertion -/
structure Store.Reflects (s : Store) (behaviour : Behaviour) (history : List Operation) :
    Prop where
  keys : ∃ names : List String, s.keys = names.map .text ∧ names.Nodup ∧
    (∀ name, name ∈ names ↔ (firstWrite? history name).isSome = true) ∧
    names.Pairwise (Earlier history)
  has : ∀ key, s.has key = true ↔ key ∈ s.keys
  get : ∀ name, s.get (.text name) = (lastValue? history name).getD .null
  delete : ∀ key, (s.delete behaviour key).1 = .ok (decide (key ∈ s.keys))
  size : s.size = s.keys.length
  snapshot : s.snapshot = s.readKeys
  /-- read key by key into a table, no pair is lost -/
  readKeys : Table.ofPairs s.readKeys = s.readKeys

section History

variable (history : List Operation) (op : Operation) (name : String)

theorem since_concat :
    since (history ++ [op]) name =
      if op.deletes name then [] else since history name ++ [op] := by
  rw [since, List.rtakeWhile_concat]
  cases op.deletes name <;> rfl

theorem length_since_le : (since history name).length ≤ history.length :=
  (List.rtakeWhile_suffix _ _).length_le

theorem lastValue?_concat :
    lastValue? (history ++ [op]) name =
      if op.deletes name then none else (op.written? name).or (lastValue? history name) := by
  rw [lastValue?, since_concat]
  split
  · rfl
  · rw [List.filterMap_append, List.getLast?_append, lastValue?]
    cases hwritten : op.written? name <;> simp [hwritten]

theorem firstWrite?_concat :
    firstWrite? (history ++ [op]) name =
      if op.deletes name then none
      else (firstWrite? history name).or
        (if (op.written? name).isSome then some history.length else none) := by
  have hle := length_since_le history name
  rw [firstWrite?, since_concat]
  split
  · rfl
  · rw [List.findIdx?_append, List.length_append, List.length_append, List.length_singleton,
      Nat.add_sub_add_right, firstWrite?]
    cases hfirst : (since history name).findIdx? fun op => (op.written? name).isSome with
    | some i => rfl
    | none =>
      cases hwritten : op.written? name with
      | none => simp [hwritten]
      | some v => simp [hwritten]; omega

theorem firstWrite?_isSome_iff :
    (firstWrite? history name).isSome = true ↔ (lastValue? history name).isSome = true := by
  rw [firstWrite?, Option.isSome_map, List.findIdx?_isSome, lastValue?, List.getLast?_isSome,
    List.any_eq_true]
  constructor
  · rintro ⟨op, hop, hwritten⟩
    obtain ⟨v, hv⟩ := Option.isSome_iff_exists.1 hwritten
    exact List.ne_nil_of_mem (List.mem_filterMap.2 ⟨op, hop, hv⟩)
  · intro hne
    obtain ⟨v, hv⟩ := List.exists_mem_of_ne_nil _ hne
    obtain ⟨op, hop, hwritten⟩ := List.mem_filterMap.1 hv
    exact ⟨op, hop, Option.isSome_iff_exists.2 ⟨v, hwritten⟩⟩

end History

theorem firstWrite?_lt {history : List Operation} {name : String} {i : Nat}
    (h : firstWrite? history name = some i) : i < history.length := by
  obtain ⟨j, hj, rfl⟩ := Option.map_eq_some_iff.1 h
  have hlt := (List.findIdx?_eq_some_iff_findIdx_eq.1 hj).1
  have hle := length_since_le history name
  omega

theorem firstWrite?_concat_of_some {history : List Operation} {op : Operation} {name : String}
    {i : Nat} (h : firstWrite? history name = some i) (hop : op.deletes name = false) :
    firstWrite? (history ++ [op]) name = some i := by
  rw [firstWrite?_concat, hop, h]
  rfl

namespace Earlier

variable {history : List Operation} {a b : String}

theorem ne (h : Earlier history a b) : a ≠ b := by
  rintro rfl
  obtain ⟨i, j, hi, hj, hlt⟩ := h
  rw [hi, Option.some.injEq] at hj
  exact hlt.ne hj

theorem concat (h : Earlier history a b) {op : Operation} (ha : op.deletes a = false)
    (hb : op.deletes b = false) : Earlier (history ++ [op]) a b := by
  obtain ⟨i, j, hi, hj, hlt⟩ := h
  exact ⟨i, j, firstWrite?_concat_of_some hi ha, firstWrite?_concat_of_some hj hb, hlt⟩

theorem nodup {names : List String} (h : names.Pairwise (Earlier history)) : names.Nodup :=
  h.imp ne

theorem of_fresh (ha : (firstWrite? history a).isSome = true)
    (hb : ¬(firstWrite? history b).isSome = true) (value : Value) :
    Earlier (history ++ [.set b value]) a b := by
  obtain ⟨i, hi⟩ := Option.isSome_iff_exists.1 ha
  refine ⟨i, history.length, firstWrite?_concat_of_some hi rfl, ?_, firstWrite?_lt hi⟩
  rw [firstWrite?_concat, Option.not_isSome_iff_eq_none.1 hb]
  simp [Operation.deletes, Operation.written?]

end Earlier

/-- a table with the keys of a history in their order, and the values written last -/
structure Table.Recalls (t : Table Value) (history : List Operation) : Prop where
  keys : ∃ names : List String, t.keys = names.map .text ∧ names.Pairwise (Earlier history)
  find? : ∀ name, t.find? (.text name) = lastValue? history name

namespace Table.Recalls

variable {t : Table Value} {history : List Operation}

theorem nil : Table.Recalls [] [] := ⟨⟨[], rfl, .nil⟩, fun _ => rfl⟩

theorem distinct (h : t.Recalls history) : t.Distinct := by
  obtain ⟨names, hkeys, horder⟩ := h.keys
  exact (distinct_iff_nodup hkeys).2 (Earlier.nodup horder)

theorem mem_iff (h : t.Recalls history) {names : List String} (hkeys : t.keys = names.map .text)
    (name : String) : name ∈ names ↔ (firstWrite? history name).isSome = true := by
  rw [firstWrite?_isSome_iff, ← h.find?, ← has, has_text_iff_mem hkeys]

theorem keys_set (h : t.Recalls history) (key : String) (value : Value) :
    ∃ names : List String, (t.insert (.text key) value).keys = names.map .text ∧
      names.Pairwise (Earlier (history ++ [.set key value])) := by
  obtain ⟨names, hkeys, horder⟩ := h.keys
  have hkept : names.Pairwise (Earlier (history ++ [.set key value])) :=
    horder.imp fun hab => hab.concat rfl rfl
  cases hhas : t.has (.text key) with
  | true => exact ⟨names, (keys_insert_of_has hhas value).trans hkeys, hkept⟩
  | false =>
    have hfresh : key ∉ names := by
      rw [← has_text_iff_mem hkeys, hhas]
      exact Bool.false_ne_true
    refine ⟨names ++ [key], ?_, List.pairwise_append.2 ⟨hkept, List.pairwise_singleton _ _, ?_⟩⟩
    · rw [List.map_append, ← hkeys]
      exact keys_insert_of_not_has hhas value
    · intro a ha b hb
      rw [List.mem_singleton.1 hb]
      exact .of_fresh ((h.mem_iff hkeys a).1 ha) (mt (h.mem_iff hkeys key).2 hfresh) value

theorem keys_delete (h : t.Recalls history) (key : String) :
    ∃ names : List String, (t.erase (.text key)).keys = names.map .text ∧
      names.Pairwise (Earlier (history ++ [.delete key])) := by
  obtain ⟨names, hkeys, horder⟩ := h.keys
  have hother : ∀ {name}, name ∈ names.filter (fun name => !name == key) →
      (Operation.delete key).deletes name = false := by
    intro name hname
    have hne : name ≠ key := by simpa using (List.mem_filter.1 hname).2
    exact beq_false_of_ne hne.symm
  refine ⟨_, h.distinct.keys_erase hkeys key, ?_⟩
  exact (horder.filter _).imp_of_mem fun ha hb hab => hab.concat (hother ha) (hother hb)

theorem on (h : t.Recalls history) (op : Operation) : (op.on t).Recalls (history ++ [op]) := by
  cases op with
  | set key value =>
    refine ⟨h.keys_set key value, fun name => ?_⟩
    show (t.insert (.text key) value).find? (.text name) = _
    rw [find?_insert_text, lastValue?_concat, h.find?]
    by_cases hname : key = name <;> simp [Operation.deletes, Operation.written?, hname]
  | delete key =>
    refine ⟨h.keys_delete key, fun name => ?_⟩
    show (t.erase (.text key)).find? (.text name) = _
    rw [h.distinct.find?_erase_text, lastValue?_concat, h.find?]
    by_cases hname : key = name <;> simp [Operation.deletes, Operation.written?, hname]
  | clear =>
    refine ⟨⟨[], rfl, .nil⟩, fun name => ?_⟩
    rw [lastValue?_concat]
    rfl
  | attach listener | detach listener =>
    obtain ⟨names, hkeys, horder⟩ := h.keys
    refine ⟨⟨names, hkeys, horder.imp fun hab => hab.concat rfl rfl⟩, fun name => ?_⟩
    rw [lastValue?_concat]
    exact h.find? name

theorem write (h : t.Recalls history) (writes : List (String × Value)) :
    (t.write writes).Recalls (history ++ writes.map fun e => .set e.1 e.2) := by
  induction writes generalizing t history with
  | nil => simpa using h
  | cons e writes ih =>
    rw [List.map_cons, List.append_cons]
    exact ih (h.on (.set e.1 e.2))

theorem of_nodup {initial : List (String × Value)} (h : (initial.map Prod.fst).Nodup)
    (ht : t = initial.map fun e => (.text e.1, e.2)) :
    t.Recalls (initial.map fun e => .set e.1 e.2) := by
  have hkeys : t.keys = (initial.map Prod.fst).map .text := by
    rw [ht, Table.keys, List.map_map, List.map_map]
    rfl
  have hwrite : Table.write [] initial = t := by
    rw [← ((distinct_iff_nodup hkeys).2 h).ofPairs_eq, ht, ofPairs, List.foldl_map]
    rfl
  rw [← hwrite]
  exact nil.write initial

end Table.Recalls

theorem Table.Recalls.legible {s : Store} {history : List Operation}
    (h : Table.Recalls s.entries history) : s.Legible where
  distinct := h.distinct
  written := by
    obtain ⟨names, hkeys, -⟩ := h.keys
    intro key hkey
    rw [Store.keys, hkeys] at hkey
    obtain ⟨name, -, rfl⟩ := List.mem_map.1 hkey
    rfl

namespace Store

variable {behaviour : Behaviour} {history : List Operation} {s : Store}

theorem readKeys_eq_snapshot (hs : Table.Distinct s.entries) : s.readKeys = s.snapshot := by
  rw [readKeys, keys, Table.keys, List.map_map]
  refine (List.map_congr_left fun e he => ?_).trans (List.map_id' _)
  rw [Function.comp_apply, get, hs.find?_of_mem he]
  rfl

section Quiet

variable (hquiet : behaviour.Quiet)
include hquiet

theorem deleteAll_keys_entries (hs : s.Legible) :
    (deleteAll behaviour s.keys s).2.1.entries = [] := by
  generalize ht : s.entries = t
  rw [keys, ht]
  induction t generalizing s with
  | nil => exact ht
  | cons e t ih =>
    have hdelete := Edit.legible_delete e.1
    show (deleteAll behaviour (e.1 :: Table.keys t) s).2.1.entries = []
    rw [deleteAll_cons hquiet.legible _ _ hs]
    refine ih (change_legible hquiet.legible hdelete hs) ?_
    rw [change_delete hquiet e.1 s, ht, Table.erase_cons, if_pos (Scalar.same_refl e.1)]

theorem perform_entries (op : Operation) (hs : s.Legible) :
    (perform behaviour op s).1.entries = op.on s.entries := by
  cases op with
  | set key value => exact change_set hquiet (.text key) value s
  | delete key => exact change_delete hquiet (.text key) s
  | clear => exact deleteAll_keys_entries hquiet hs
  | attach listener => rfl
  | detach listener => rfl

theorem performAll_recalls (ops : List Operation) (h : Table.Recalls s.entries history) :
    Table.Recalls (performAll behaviour ops s).1.entries (history ++ ops) := by
  induction ops generalizing s history with
  | nil =>
    rw [List.append_nil]
    exact h
  | cons op ops ih =>
    rw [List.append_cons]
    refine ih (s := (perform behaviour op s).1) ?_
    rw [perform_entries hquiet op h.legible]
    exact h.on op

/-- all that can be read of a store is in what its entries recall -/
theorem reflects_of_recalls (h : Table.Recalls s.entries history) :
    s.Reflects behaviour history := by
  obtain ⟨names, hkeys, horder⟩ := h.keys
  have hhas := Table.has_iff_mem_keys hkeys
  have hread := readKeys_eq_snapshot h.distinct
  refine
    { keys := ⟨names, hkeys, Earlier.nodup horder, h.mem_iff hkeys, horder⟩
      has := hhas
      get := fun name => ?_
      delete := fun key => ?_
      size := rfl
      snapshot := hread.symm
      readKeys := ?_ }
  · rw [get, h.find?]
  · rw [delete, change_fst hquiet.legible (Edit.legible_delete key) h.legible]
    exact congrArg Except.ok (Bool.eq_iff_iff.2 ((hhas key).trans decide_eq_true_iff.symm))
  · rw [hread]
    exact h.distinct.ofPairs_eq

/-- A store is an insertion-ordered map of its history. Where no listener writes (they may fail, come
and go), after any operations on a store with any content: its keys are listed without repetition
by the time of their first write since they were last deleted, so a key that is written again keeps
its place and one that comes back goes to the end; a key is present if it is listed, whatever its
value, and only then does its deletion tell so; its value is the one written last since it was last
deleted, or null; and both ways to read all contents give the same pairs in the same order. -/
theorem reflects_history {initial : List (String × Value)} (hnames : (initial.map Prod.fst).Nodup)
    (hs : s.entries = initial.map fun e => (.text e.1, e.2)) (ops : List Operation) :
    (performAll behaviour ops s).1.Reflects behaviour
      (initial.map (fun e => .set e.1 e.2) ++ ops) :=
  reflects_of_recalls hquiet (performAll_recalls hquiet ops (.of_nodup hnames hs))

end Quiet

end Store

namespace Demo

/-- the draft is written again, the note is left empty, erased and written again -/
def rewriting : List Operation :=
  [.set "note" .null, .set "copy" (.text "first"), .set "draft" (.text "second"), .attach "usher",
    .delete "note", .set "note" .null]

/-- the draft keeps its place, and the note has moved to the end and is there without a value -/
theorem rewriting_reflected :
    admitting.Quiet ∧ ([("draft", Value.text "first")].map Prod.fst).Nodup ∧
      (watched.performAll admitting rewriting).1.Reflects admitting
        (.set "draft" (.text "first") :: rewriting) ∧
      (watched.performAll admitting rewriting).1.keys =
        [.text "draft", .text "copy", .text "note"] ∧
      (watched.performAll admitting rewriting).1.has (.text "note") = true := by
  have hnames : ([("draft", Value.text "first")].map Prod.fst).Nodup := by decide
  have hreflects := Store.reflects_history admitting_quiet (s := watched) hnames rfl rewriting
  exact ⟨admitting_quiet, hnames, hreflects, rfl, rfl⟩

end Demo

end LinkedCalls
