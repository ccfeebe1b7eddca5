import LinkedCalls.Proofs.Yaml.Blocks
import LinkedCalls.Yaml.Graph.Grammar

/-!
The nodes of written values. The grammar makes one node for each scalar, list and record, and a
node holds the value whose tokens it was made from.
-/
namespace LinkedCalls.Yaml

def scalarTag (s : Scalar) : Tag := if isPlain s then .ofPlain (scalarText s) else .text

/-- a node of a graph holds a value, with nodes from `least` on -/
inductive Holds (g : Graph) (least : Nat) : NodeId → Value → Prop
  | scalar {i : NodeId} {s : Scalar} (le : least ≤ i)
      (node : g[i]? = some ⟨scalarTag s, .scalar (scalarText s)⟩) : Holds g least i (.scalar s)
  | list {i : NodeId} {items : List Value} (parts : List (NodeId × Value)) (le : least ≤ i)
      (node : g[i]? = some ⟨.list, .list (parts.map Prod.fst)⟩)
      (value : items = parts.map Prod.snd) (holds : ∀ p ∈ parts, Holds g least p.1 p.2) :
      Holds g least i (.list items)
  | map {i : NodeId} {entries : List (Scalar × Value)} (parts : List (Entry × String × Value))
      (le : least ≤ i) (node : g[i]? = some ⟨.map, .map (parts.map Prod.fst)⟩)
      (value : entries = Fields.entries (parts.map Prod.snd))
      (keys : ∀ p ∈ parts, Holds g least p.1.1 (.text p.2.1))
      (values : ∀ p ∈ parts, Holds g least p.1.2 p.2.2) : Holds g least i (.map entries)

theorem Holds.mono {g g' : Graph} {least least' : Nat} {i : NodeId} {v : Value}
    (h : Holds g least i v) (hleast : least' ≤ least)
    (hsame : ∀ j n, least ≤ j → g[j]? = some n → g'[j]? = some n) : Holds g' least' i v := by
  induction h with
  | scalar le node => exact .scalar (hleast.trans le) (hsame _ _ le node)
  | list parts le node value _ ih =>
    exact .list parts (hleast.trans le) (hsame _ _ le node) value ih
  | map parts le node value _ _ ihk ihv =>
    exact .map parts (hleast.trans le) (hsame _ _ le node) value ihk ihv

def Extends (g g' : Graph) : Prop := ∀ (j : NodeId) (n : Node), g[j]? = some n → g'[j]? = some n

theorem Extends.refl (g : Graph) : Extends g g := fun _ _ h => h

theorem Extends.trans {g g' g'' : Graph} (h : Extends g g') (h' : Extends g' g'') :
    Extends g g'' := fun j n hn => h' j n (h j n hn)

theorem Extends.size_le {g g' : Graph} (h : Extends g g') : g.size ≤ g'.size := by
  by_contra hlt
  have hlt : g'.size < g.size := by omega
  have hnode := h g'.size g[g'.size] (by simp [Array.getElem?_eq_getElem hlt])
  simp at hnode

theorem extends_push (g : Graph) (n : Node) : Extends g (g.push n) := fun j m hm => by
  obtain ⟨hlt, hget⟩ := Array.getElem?_eq_some_iff.1 hm
  rw [Array.getElem?_push_lt hlt, hget]

theorem getElem?_setBody (g : Graph) (i : Nat) (body : Body) (j : Nat) :
    (g.setBody i body)[j]? = if i = j then g[j]?.map ({ · with body := body }) else g[j]? := by
  rw [Graph.setBody, Array.getElem?_modify]

theorem extends_setBody {g g' : Graph} {n : Node} (body : Body) (h : Extends (g.push n) g') :
    Extends g (g'.setBody g.size body) := fun j m hm => by
  have hlt : j < g.size := (Array.getElem?_eq_some_iff.1 hm).1
  rw [getElem?_setBody, if_neg (Nat.ne_of_gt hlt)]
  exact h j m (extends_push g n j m hm)

theorem getElem?_setBody_self {g g' : Graph} {n : Node} (body : Body) (h : Extends (g.push n) g') :
    (g'.setBody g.size body)[g.size]? = some { n with body := body } := by
  rw [getElem?_setBody, if_pos rfl, h g.size n Array.getElem?_push_size]
  rfl

theorem Holds.setBody {g : Graph} {least i j : Nat} {v : Value} (body : Body)
    (h : Holds g (i + 1) j v) (hleast : least ≤ i) : Holds (g.setBody i body) least j v :=
  h.mono (Nat.le_succ_of_le hleast) fun k n hk hn => by
    rwa [getElem?_setBody, if_neg (Nat.ne_of_lt hk)]

namespace Grammar

section Read

variable {handles : Handles} {position : Position} {fuel : Nat} {ts : List Token} {g : Graph}

theorem read_scalar (text : List Char) (plain : Bool) (hposition : position ≠ .flow) :
    (read handles position (fuel + 1)).run ⟨.scalar text plain :: ts, g, []⟩ =
      .ok (g.size, ⟨ts, g.push ⟨if plain then .ofPlain text else .text, .scalar text⟩, []⟩) := by
  cases position <;> rfl

theorem read_list (hposition : position ≠ .flow) :
    (read handles position (fuel + 1)).run ⟨.flowSequence :: ts, g, []⟩ =
      (listOf {} (readFlowItems handles true fuel)).run ⟨ts, g, []⟩ := by
  cases position <;> rfl

theorem read_entries :
    (read handles .besideKey (fuel + 1)).run ⟨.entry :: ts, g, []⟩ =
      (listOf {} (readEntries handles fuel)).run ⟨.entry :: ts, g, []⟩ := rfl

theorem read_pairs (hposition : position ≠ .flow) :
    (read handles position (fuel + 1)).run ⟨.blockMapping :: ts, g, []⟩ =
      (mapOf {} (readPairs handles fuel)).run ⟨ts, g, []⟩ := by
  cases position <;> first | rfl | exact absurd rfl hposition

theorem run_listOf {items : Reader (List NodeId)} {ids : List NodeId} {ts' : List Token}
    {g' : Graph} (h : items.run ⟨ts, g.push ⟨.list, .list []⟩, []⟩ = .ok (ids, ⟨ts', g', []⟩)) :
    (listOf {} items).run ⟨ts, g, []⟩ =
      .ok (g.size, ⟨ts', g'.setBody g.size (.list ids), []⟩) := by
  have hrun : (listOf {} items).run ⟨ts, g, []⟩ =
      (items.run ⟨ts, g.push ⟨.list, .list []⟩, []⟩).map fun r =>
        (g.size, { r.2 with graph := r.2.graph.setBody g.size (.list r.1) }) := by
    show (items.run ⟨ts, g.push ⟨.list, .list []⟩, []⟩).bind _ = _
    cases items.run ⟨ts, g.push ⟨.list, .list []⟩, []⟩ <;> rfl
  rw [hrun, h]
  rfl

theorem run_mapOf {entries : Reader (List Entry)} {es : List Entry} {ts' : List Token}
    {g' : Graph} (h : entries.run ⟨ts, g.push ⟨.map, .map []⟩, []⟩ = .ok (es, ⟨ts', g', []⟩)) :
    (mapOf {} entries).run ⟨ts, g, []⟩ =
      .ok (g.size, ⟨ts', g'.setBody g.size (.map es), []⟩) := by
  have hrun : (mapOf {} entries).run ⟨ts, g, []⟩ =
      (entries.run ⟨ts, g.push ⟨.map, .map []⟩, []⟩).map fun r =>
        (g.size, { r.2 with graph := r.2.graph.setBody g.size (.map r.1) }) := by
    show (entries.run ⟨ts, g.push ⟨.map, .map []⟩, []⟩).bind _ = _
    cases entries.run ⟨ts, g.push ⟨.map, .map []⟩, []⟩ <;> rfl
  rw [hrun, h]
  rfl

def startsValue : Token → Bool
  | .scalar .. | .flowSequence | .entry | .blockMapping => true
  | _ => false

theorem readPairs_key {w : List Char} {t : Token} {v : NodeId} {es : List Entry} {d d' : Draft}
    (ht : startsValue t = true)
    (hvalue : (read handles .besideKey (fuel + 1)).run
      ⟨t :: ts, g.push ⟨.ofPlain w, .scalar w⟩, []⟩ = .ok (v, d))
    (hmore : (readPairs handles (fuel + 1)).run d = .ok (es, d')) :
    (readPairs handles (fuel + 2)).run ⟨.key :: .scalar w true :: .value :: t :: ts, g, []⟩ =
      .ok ((g.size, v) :: es, d') := by
  have hrun : (readPairs handles (fuel + 2)).run
      ⟨.key :: .scalar w true :: .value :: t :: ts, g, []⟩ =
        ((read handles .besideKey (fuel + 1)).run
          ⟨t :: ts, g.push ⟨.ofPlain w, .scalar w⟩, []⟩).bind fun r =>
            ((readPairs handles (fuel + 1)).run r.2).bind fun r' =>
              .ok ((g.size, r.1) :: r'.1, r'.2) := by
    cases t <;> first | rfl | cases ht
  rw [hrun, hvalue]
  simp only [Except.bind]
  rw [hmore]

theorem readPairs_end :
    (readPairs handles (fuel + 1)).run ⟨.blockEnd :: ts, g, []⟩ = .ok ([], ⟨ts, g, []⟩) := rfl

theorem readEntries_mark {t : Token} {i : NodeId} {ids : List NodeId} {d d' : Draft}
    (ht : startsValue t = true) (hitem : t ≠ .entry)
    (hvalue : (read handles .block fuel).run ⟨t :: ts, g, []⟩ = .ok (i, d))
    (hmore : (readEntries handles fuel).run d = .ok (ids, d')) :
    (readEntries handles (fuel + 1)).run ⟨.entry :: t :: ts, g, []⟩ = .ok (i :: ids, d') := by
  have hrun : (readEntries handles (fuel + 1)).run ⟨.entry :: t :: ts, g, []⟩ =
      ((read handles .block fuel).run ⟨t :: ts, g, []⟩).bind fun r =>
        ((readEntries handles fuel).run r.2).bind fun r' => .ok (r.1 :: r'.1, r'.2) := by
    cases t <;> first | rfl | exact absurd rfl hitem | cases ht
  rw [hrun, hvalue]
  simp only [Except.bind]
  rw [hmore]

/-- what may come after a value in a block -/
def Stops (ts : List Token) : Prop := ts.head? = some .key ∨ ts.head? = some .blockEnd

theorem readEntries_end (hts : Stops ts) :
    (readEntries handles (fuel + 1)).run ⟨ts, g, []⟩ = .ok ([], ⟨ts, g, []⟩) := by
  cases ts with
  | nil => rcases hts with h | h <;> cases h
  | cons t ts =>
    rcases hts with h | h <;>
    · obtain rfl := Option.some.inj h
      rfl

end Read

/-- the tokens of a value beside a key are read as a node that holds it -/
def Reads (v : Value) : Prop :=
  ∀ (handles : Handles) (fuel : Nat) (ts : List Token) (g : Graph),
    (blockTokens v).length + 2 ≤ fuel → Stops ts →
      ∃ g', (read handles .besideKey fuel).run ⟨blockTokens v ++ ts, g, []⟩ =
        .ok (g.size, ⟨ts, g', []⟩) ∧ Extends g g' ∧ Holds g' g.size g.size v

theorem Reads.scalar (s : Scalar) : Reads (.scalar s) := by
  intro handles fuel ts g hfuel hts
  obtain ⟨fuel, rfl⟩ := Nat.exists_eq_add_of_le' hfuel
  refine ⟨_, read_scalar _ _ (by decide), extends_push g _, .scalar le_rfl ?_⟩
  rw [Array.getElem?_push_size]
  rfl

section Entries

variable {fields : Fields} {rows : List Fields} (handles : Handles) (fuel : Nat) (ts : List Token)
  (g : Graph)

theorem exists_startsValue {n : Nat} {v : Value} (h : Fits n v) :
    ∃ t ts, blockTokens v = t :: ts ∧ startsValue t = true := by
  cases h with
  | scalar => exact ⟨_, _, rfl, rfl⟩
  | @list _ rows =>
    cases rows with
    | nil => exact ⟨_, _, rfl, rfl⟩
    | cons r rows => exact ⟨_, _, rfl, rfl⟩
  | record => exact ⟨_, _, rfl, rfl⟩

theorem entryTokens_cons (w : String) (v : Value) (fields : Fields) :
    entryTokens (Fields.entries ((w, v) :: fields)) =
      .key :: .scalar w.toList true :: .value ::
        (blockTokens v ++ entryTokens fields.entries) := rfl

theorem stops_entries (fields : Fields) (ts : List Token) :
    Stops (entryTokens fields.entries ++ .blockEnd :: ts) := by
  cases fields with
  | nil => exact .inr rfl
  | cons f fields => exact .inl rfl

theorem readPairs_entries {n : Nat} (hfits : ∀ f ∈ fields, Fits n f.2)
    (hkeys : ∀ f ∈ fields, Scan.IsKey f.1)
    (hvalues : ∀ f ∈ fields, Reads f.2) (hfuel : (entryTokens fields.entries).length + 1 ≤ fuel) :
    ∃ (g' : Graph) (parts : List (Entry × String × Value)), fields = parts.map Prod.snd ∧
      (readPairs handles fuel).run ⟨entryTokens fields.entries ++ .blockEnd :: ts, g, []⟩ =
        .ok (parts.map Prod.fst, ⟨ts, g', []⟩) ∧ Extends g g' ∧
      (∀ p ∈ parts, Holds g' g.size p.1.1 (.text p.2.1)) ∧
      ∀ p ∈ parts, Holds g' g.size p.1.2 p.2.2 := by
  induction fields generalizing fuel g with
  | nil =>
    obtain ⟨fuel, rfl⟩ := Nat.exists_eq_add_of_le' (Nat.le_of_add_left_le hfuel)
    exact ⟨g, [], rfl, readPairs_end, .refl g, by simp, by simp⟩
  | cons f fields ih =>
    obtain ⟨w, v⟩ := f
    have hw : Scan.IsKey w := hkeys (w, v) (by simp)
    rw [entryTokens_cons] at hfuel ⊢
    simp only [List.length_cons, List.length_append] at hfuel
    obtain ⟨fuel, rfl⟩ : ∃ k, fuel = k + 2 := Nat.exists_eq_add_of_le' (by omega)
    obtain ⟨t, more, hmore, ht⟩ := exists_startsValue (hfits (w, v) (by simp))
    let key : Node := ⟨.ofPlain w.toList, .scalar w.toList⟩
    obtain ⟨g₁, hread, hextends, hholds⟩ := hvalues (w, v) (by simp) handles (fuel + 1) _
      (g.push key) (by simp only; omega) (stops_entries fields ts)
    obtain ⟨g₂, parts, hparts, hrest, hextends', hkeysHold, hvaluesHold⟩ :=
      ih (fuel + 1) g₁ (fun f hf => hfits f (by simp [hf]))
        (fun f hf => hkeys f (by simp [hf])) (fun f hf => hvalues f (by simp [hf])) (by omega)
    have hpush : Extends g g₂ := (extends_push g key).trans (hextends.trans hextends')
    have hsize : g.size ≤ g₁.size := ((extends_push g key).trans hextends).size_le
    simp only [hmore, List.cons_append, List.append_assoc] at hread ⊢
    -- later nodes are put behind the earlier ones, so the first entry is held to the end
    refine ⟨g₂, ((g.size, (g.push key).size), w, v) :: parts, by simp [← hparts],
      readPairs_key ht hread hrest, hpush, ?_, ?_⟩
    · rintro p hp
      rcases List.mem_cons.1 hp with rfl | hp
      · refine .scalar le_rfl (hextends' _ _ (hextends _ _ ?_))
        rw [Array.getElem?_push_size]
        simp [key, scalarTag, hw.isPlain, scalarText]
      · exact (hkeysHold p hp).mono hsize fun _ _ _ => id
    · rintro p hp
      rcases List.mem_cons.1 hp with rfl | hp
      · exact hholds.mono (by simp) fun j n _ => hextends' j n
      · exact (hvaluesHold p hp).mono hsize fun _ _ _ => id

theorem read_record {n : Nat} {position : Position} (hposition : position ≠ .flow)
    (hfits : ∀ f ∈ fields, Fits n f.2) (hkeys : ∀ f ∈ fields, Scan.IsKey f.1)
    (hvalues : ∀ f ∈ fields, Reads f.2) (hfuel : (blockTokens (.record fields)).length ≤ fuel) :
    ∃ g', (read handles position fuel).run ⟨blockTokens (.record fields) ++ ts, g, []⟩ =
      .ok (g.size, ⟨ts, g', []⟩) ∧ Extends g g' ∧ Holds g' g.size g.size (.record fields) := by
  have htokens : blockTokens (.record fields) =
      .blockMapping :: (entryTokens fields.entries ++ [.blockEnd]) := rfl
  rw [htokens] at hfuel ⊢
  simp only [List.length_cons, List.length_append, List.length_nil] at hfuel
  obtain ⟨fuel, rfl⟩ : ∃ k, fuel = k + 1 := Nat.exists_eq_add_of_le' (by omega)
  obtain ⟨g', parts, hparts, hread, hextends, hkeysHold, hvaluesHold⟩ :=
    readPairs_entries handles fuel ts (g.push ⟨.map, .map []⟩) hfits hkeys hvalues (by omega)
  rw [Array.size_push] at hkeysHold hvaluesHold
  refine ⟨g'.setBody g.size (.map (parts.map Prod.fst)), ?_, extends_setBody _ hextends, ?_⟩
  · have happend : .blockMapping :: (entryTokens fields.entries ++ [.blockEnd]) ++ ts =
        .blockMapping :: (entryTokens fields.entries ++ .blockEnd :: ts) := by simp
    rw [happend, read_pairs hposition, run_mapOf hread]
  · exact .map parts le_rfl (getElem?_setBody_self _ hextends)
      (congrArg Fields.entries hparts) (fun p hp => (hkeysHold p hp).setBody _ le_rfl)
      (fun p hp => (hvaluesHold p hp).setBody _ le_rfl)

theorem itemTokens_cons (r : Fields) (rows : List Fields) :
    itemTokens ((r :: rows).map Value.record) =
      .entry :: (blockTokens (.record r) ++ itemTokens (rows.map Value.record)) := rfl

theorem readEntries_items {n : Nat} (hfits : ∀ r ∈ rows, ∀ f ∈ r, Fits n f.2)
    (hkeys : ∀ r ∈ rows, ∀ f ∈ r, Scan.IsKey f.1) (hvalues : ∀ r ∈ rows, ∀ f ∈ r, Reads f.2)
    (hfuel : (itemTokens (rows.map Value.record)).length + 1 ≤ fuel) (hts : Stops ts) :
    ∃ (g' : Graph) (parts : List (NodeId × Value)), rows.map Value.record = parts.map Prod.snd ∧
      (readEntries handles fuel).run ⟨itemTokens (rows.map Value.record) ++ ts, g, []⟩ =
        .ok (parts.map Prod.fst, ⟨ts, g', []⟩) ∧ Extends g g' ∧
      ∀ p ∈ parts, Holds g' g.size p.1 p.2 := by
  induction rows generalizing fuel g with
  | nil =>
    obtain ⟨fuel, rfl⟩ := Nat.exists_eq_add_of_le' (Nat.le_of_add_left_le hfuel)
    exact ⟨g, [], rfl, readEntries_end hts, .refl g, by simp⟩
  | cons r rows ih =>
    rw [itemTokens_cons] at hfuel ⊢
    simp only [List.length_cons, List.length_append] at hfuel
    obtain ⟨fuel, rfl⟩ : ∃ k, fuel = k + 1 := Nat.exists_eq_add_of_le' (by omega)
    obtain ⟨g₁, hread, hextends, hholds⟩ := read_record handles fuel
      (itemTokens (rows.map Value.record) ++ ts) g (by decide : Position.block ≠ .flow)
      (hfits r (by simp)) (hkeys r (by simp)) (hvalues r (by simp)) (by omega)
    obtain ⟨g₂, parts, hparts, hrest, hextends', hpartsHold⟩ :=
      ih fuel g₁ (fun r hr => hfits r (by simp [hr]))
        (fun r hr => hkeys r (by simp [hr])) (fun r hr => hvalues r (by simp [hr])) (by omega)
    refine ⟨g₂, (g.size, .record r) :: parts, by simp [← hparts], ?_, hextends.trans hextends', ?_⟩
    · rw [List.cons_append, List.append_assoc]
      exact readEntries_mark rfl (by decide) hread hrest
    · rintro p hp
      rcases List.mem_cons.1 hp with rfl | hp
      · exact hholds.mono le_rfl fun j n _ => hextends' j n
      · exact (hpartsHold p hp).mono hextends.size_le fun _ _ _ => id

end Entries

theorem Reads.nil : Reads (.list []) := by
  intro handles fuel ts g hfuel hts
  obtain ⟨fuel, rfl⟩ : ∃ k, fuel = k + 2 := Nat.exists_eq_add_of_le' (by omega)
  have hitems : (readFlowItems handles true (fuel + 1)).run
      ⟨.flowSequenceEnd :: ts, g.push ⟨.list, .list []⟩, []⟩ =
        .ok ([], ⟨ts, g.push ⟨.list, .list []⟩, []⟩) := rfl
  refine ⟨_, (read_list (by decide)).trans (run_listOf hitems), extends_setBody _ (.refl _),
    .list [] le_rfl (getElem?_setBody_self _ (.refl _)) rfl (by simp)⟩

theorem Reads.list {n : Nat} {rows : List Fields} (hfits : ∀ r ∈ rows, ∀ f ∈ r, Fits n f.2)
    (hkeys : ∀ r ∈ rows, ∀ f ∈ r, Scan.IsKey f.1) (hvalues : ∀ r ∈ rows, ∀ f ∈ r, Reads f.2) :
    Reads (.list (rows.map Value.record)) := by
  by_cases hrows : rows = []
  · subst hrows
    exact Reads.nil
  · intro handles fuel ts g hfuel hts
    have htokens : blockTokens (.list (rows.map Value.record)) =
        itemTokens (rows.map Value.record) := by
      rw [blockTokens, if_neg (by simpa using hrows)]
    rw [htokens] at hfuel ⊢
    obtain ⟨fuel, rfl⟩ : ∃ k, fuel = k + 1 := Nat.exists_eq_add_of_le' (by omega)
    obtain ⟨g', parts, hparts, hread, hextends, hpartsHold⟩ :=
      readEntries_items handles fuel ts (g.push ⟨.list, .list []⟩) hfits hkeys hvalues (by omega)
        hts
    rw [Array.size_push] at hpartsHold
    refine ⟨g'.setBody g.size (.list (parts.map Prod.fst)), ?_, extends_setBody _ hextends,
      .list parts le_rfl (getElem?_setBody_self _ hextends) hparts fun p hp =>
        (hpartsHold p hp).setBody _ le_rfl⟩
    obtain ⟨r, rows, rfl⟩ := List.exists_cons_of_ne_nil hrows
    exact read_entries.trans (run_listOf hread)

theorem Reads.record {n : Nat} {fields : Fields} (hfits : ∀ f ∈ fields, Fits n f.2)
    (hkeys : ∀ f ∈ fields, Scan.IsKey f.1) (hvalues : ∀ f ∈ fields, Reads f.2) :
    Reads (.record fields) := by
  intro handles fuel ts g hfuel hts
  exact read_record handles fuel ts g (by decide) hfits hkeys hvalues (by omega)

/-- a value that fits is read from its tokens -/
theorem reads_of_fits {n : Nat} {v : Value} (h : Fits n v) : Reads v := by
  induction h with
  | scalar => exact .scalar _
  | list _ keys _ values ih => exact .list values keys ih
  | record _ keys _ values ih => exact .record values keys ih

theorem parse_record {n : Nat} {fields : Fields} (h : Fits n (.record fields)) :
    ∃ g, parse (blockTokens (.record fields)) = .ok (g, some 0) ∧ Holds g 0 0 (.record fields) := by
  obtain ⟨-, hkeys, -, hvalues⟩ := h.of_record
  obtain ⟨g, hread, -, hholds⟩ := read_record defaultHandles
    (depth (blockTokens (.record fields))) [] #[] (by decide : Position.block ≠ .flow) hvalues hkeys
    (fun f hf => reads_of_fits (hvalues f hf)) (by simp only [depth]; omega)
  refine ⟨g, ?_, hholds⟩
  rw [List.append_nil] at hread
  have hdocument : (document (depth (blockTokens (.record fields)))).run
      { tokens := blockTokens (.record fields) } = .ok (some 0, ⟨[], g, []⟩) := by
    show ((read defaultHandles .block _).run ⟨blockTokens (.record fields), #[], []⟩).bind _ = _
    rw [hread]
    rfl
  rw [parse, hdocument]
  rfl

end Grammar

end LinkedCalls.Yaml
