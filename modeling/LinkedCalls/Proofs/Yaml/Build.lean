import LinkedCalls.Proofs.Format
import LinkedCalls.Proofs.Yaml.Nodes
import LinkedCalls.Yaml.Document
import Mathlib.Data.List.Perm.Subperm

/-!
The data of written values. What a node stands for depends on the graph alone; each collection is
made once and filled with what its parts stand for, so that in the end the document of a record is
that record.
-/
namespace LinkedCalls.Yaml

section Scalar

variable {g : Graph} {least : Nat} {i : NodeId} {s : Scalar} {mark : Nat} {tag : Tag}
  {text : List Char} {k : Key}

theorem isScalar_of_readKey (h : readKey mark tag text = .ok k) : tag.isScalar = true := by
  cases tag <;> first | rfl | cases h

theorem kind_of_isScalar (h : tag.isScalar = true) : Kind.ofTag? tag = none := by
  cases tag <;> first | rfl | cases h

theorem node_eq {node : Node} (h : g[i]? = some node) : g.node i = node := by
  rw [Graph.node, h]
  rfl

theorem Holds.node_scalar (h : Holds g least i (.scalar s)) :
    g.node i = ⟨scalarTag s, .scalar (scalarText s)⟩ := by
  cases h with
  | scalar _ node => exact node_eq node

theorem isScalar_scalarTag (hs : Exportable s) : (scalarTag s).isScalar = true :=
  isScalar_of_readKey (denotes_scalar hs 0)

theorem Holds.key_scalar (h : Holds g least i (.scalar s)) (hs : Exportable s) :
    g.key i = .ok (.scalar s) := by
  have hnode := h.node_scalar
  have hbody : g.body i = .scalar (scalarText s) := by rw [Graph.body, hnode]
  have htag : g.tag i = scalarTag s := by rw [Graph.tag, hnode]
  have htext : g.text (g.size + 1) i = .ok (scalarText s) := by rw [Graph.text, hbody]
  have htime : g.timestampText i (scalarText s) = .ok (scalarText s) := by
    rw [Graph.timestampText, hbody]
  have hread : readKey (i + 1) (scalarTag s) (scalarText s) = .ok (.scalar s) :=
    denotes_scalar hs (i + 1)
  rw [Graph.key, htag, isScalar_scalarTag hs, htext]
  simp only [demand, if_true, bind, Except.bind, htime]
  split_ifs <;> exact hread

end Scalar

/-- what a node stands for -/
def datumOf (i : NodeId) : Value → Datum
  | .scalar s => .scalar s
  | _ => .collection i

/-- the tag of a value's node as a kind of collection -/
def kindOf? : Value → Option Kind
  | .scalar _ => none
  | .list _ => some .list
  | .map _ => some .map

/-- a node that holds a value which can be written -/
def Carries (g : Graph) (i : NodeId) (v : Value) : Prop := (∃ n, Fits n v) ∧ Holds g 0 i v

namespace Carries

variable {g : Graph} {i : NodeId} {v w : Value}

theorem kind (h : Carries g i v) : Kind.ofTag? (g.tag i) = kindOf? v := by
  obtain ⟨⟨n, hfits⟩, hholds⟩ := h
  cases hholds with
  | scalar le node =>
    cases hfits with
    | scalar exportable room =>
      rw [Graph.tag, (Holds.scalar le node).node_scalar]
      exact kind_of_isScalar (isScalar_scalarTag exportable)
  | list parts le node => rw [Graph.tag, node_eq node]; rfl
  | map parts le node => rw [Graph.tag, node_eq node]; rfl

theorem key {s : Scalar} (h : Carries g i (.scalar s)) : g.key i = .ok (.scalar s) := by
  obtain ⟨⟨n, hfits⟩, hholds⟩ := h
  cases hfits with
  | scalar exportable room => exact hholds.key_scalar exportable

theorem datumOf_eq (h : Carries g i v) (h' : Carries g i w) : datumOf i v = datumOf i w := by
  have hkind := h.kind.symm.trans h'.kind
  cases v with
  | scalar s =>
    cases w with
    | scalar t =>
      cases h.key.symm.trans h'.key
      rfl
    | list items => cases hkind
    | map entries => cases hkind
  | list items => cases w <;> first | rfl | cases hkind
  | map entries => cases w <;> first | rfl | cases hkind

theorem of_items {parts : List (NodeId × Value)}
    (hfits : ∃ n, Fits n (.list (parts.map Prod.snd))) (holds : ∀ p ∈ parts, Holds g 0 p.1 p.2) :
    ∀ p ∈ parts, Carries g p.1 p.2 := fun p hp =>
  ⟨hfits.imp fun _ h => h.of_mem_list (List.mem_map_of_mem hp), holds p hp⟩

theorem of_entries {parts : List (Entry × String × Value)}
    (hfits : ∃ n, Fits n (.map (Fields.entries (parts.map Prod.snd))))
    (keys : ∀ p ∈ parts, Holds g 0 p.1.1 (.text p.2.1))
    (values : ∀ p ∈ parts, Holds g 0 p.1.2 p.2.2) :
    ∀ p ∈ parts, Carries g p.1.1 (.text p.2.1) ∧ Carries g p.1.2 p.2.2 := by
  intro p hp
  obtain ⟨n, hn⟩ := hfits
  obtain ⟨-, -, -, hentries⟩ := hn.of_record
  exact ⟨⟨⟨0, .scalar (Scan.IsKey.exportable _) (by decide)⟩, keys p hp⟩,
    ⟨n + 2, hentries p.2 (List.mem_map_of_mem hp)⟩, values p hp⟩

theorem list {items : List Value} (h : Carries g i (.list items)) :
    ∃ parts : List (NodeId × Value), items = parts.map Prod.snd ∧
      g.body i = .list (parts.map Prod.fst) ∧ ∀ p ∈ parts, Carries g p.1 p.2 := by
  obtain ⟨hfits, hholds⟩ := h
  cases hholds with
  | list parts _ node value holds =>
    subst value
    exact ⟨parts, rfl, by rw [Graph.body, node_eq node], of_items hfits holds⟩

theorem map {entries : List (Scalar × Value)} (h : Carries g i (.map entries)) :
    ∃ parts : List (Entry × String × Value), entries = Fields.entries (parts.map Prod.snd) ∧
      g.body i = .map (parts.map Prod.fst) ∧ (parts.map fun p => p.2.1).Nodup ∧
      ∀ p ∈ parts, Carries g p.1.1 (.text p.2.1) ∧ Carries g p.1.2 p.2.2 := by
  obtain ⟨hfits, hholds⟩ := h
  cases hholds with
  | map parts _ node value keys values =>
    subst value
    have hnodup : (parts.map fun p => p.2.1).Nodup := by
      obtain ⟨n, hn⟩ := hfits
      obtain ⟨-, -, hnodup, -⟩ := hn.of_record
      rwa [List.map_map] at hnodup
    exact ⟨parts, rfl, by rw [Graph.body, node_eq node], hnodup, of_entries hfits keys values⟩

theorem lt_size (h : Carries g i v) : i < g.size := by
  obtain ⟨-, hholds⟩ := h
  cases hholds with
  | scalar _ node => exact (Array.getElem?_eq_some_iff.1 node).1
  | list _ _ node => exact (Array.getElem?_eq_some_iff.1 node).1
  | map _ _ node => exact (Array.getElem?_eq_some_iff.1 node).1

theorem tag_text {w : String} (h : Carries g i (.text w)) :
    g.tag i ≠ .merge ∧ g.tag i ≠ .value := by
  obtain ⟨⟨n, hfits⟩, hholds⟩ := h
  cases hfits with
  | scalar exportable room =>
    have hscalar := isScalar_scalarTag exportable
    rw [Graph.tag, hholds.node_scalar]
    constructor <;>
    · intro heq
      rw [show scalarTag (.text w) = _ from heq] at hscalar
      cases hscalar

end Carries

namespace Construction

/-- the construction knows what a node stands for, and makes it if it is a collection -/
def Known (g : Graph) (c : Construction) (i : NodeId) (d : Datum) : Prop :=
  ∃ v, Carries g i v ∧ d = datumOf i v ∧ ∀ kind, kindOf? v = some kind → (i, kind) ∈ c.made.toList

/-- a collection with what the parts of a node stand for -/
inductive Content (g : Graph) (c : Construction) (i : NodeId) : Collection → Prop
  | list {ids : List NodeId} {ds : List Datum} (body : g.body i = .list ids)
      (known : List.Forall₂ (Known g c) ids ds) : Content g c i (.list ds)
  | map {es : List Entry} {entries : List (Key × Datum)} (body : g.body i = .map es)
      (known : List.Forall₂ (fun e p => Known g c e.1 (.key p.1) ∧ Known g c e.2 p.2) es entries) :
      Content g c i (.map entries)

/-- the collection of a node has its content -/
def Filled (g : Graph) (c : Construction) (i : NodeId) : Prop :=
  ∃ content, c.collections[i]? = some content ∧ Content g c i content

/-- what was made stays made, in the same order -/
def Grows (c c' : Construction) : Prop := c.made.toList <+: c'.made.toList

theorem Known.mono {g : Graph} {c c' : Construction} {i : NodeId} {d : Datum}
    (h : Known g c i d) (hgrows : Grows c c') : Known g c' i d := by
  obtain ⟨v, hv, hd, hmade⟩ := h
  exact ⟨v, hv, hd, fun kind hkind => hgrows.subset (hmade kind hkind)⟩

theorem Content.mono {g : Graph} {c c' : Construction} {i : NodeId} {content : Collection}
    (h : Content g c i content) (hgrows : Grows c c') : Content g c' i content := by
  cases h with
  | list body known => exact .list body (known.imp fun _ _ h => h.mono hgrows)
  | map body known =>
    exact .map body (known.imp fun _ _ h => ⟨h.1.mono hgrows, h.2.mono hgrows⟩)

theorem Filled.mono {g : Graph} {c c' : Construction} {i : NodeId} (h : Filled g c i)
    (hgrows : Grows c c') (hsame : c'.collections[i]? = c.collections[i]?) : Filled g c' i := by
  obtain ⟨content, hcontent, hholds⟩ := h
  exact ⟨content, hsame.trans hcontent, hholds.mono hgrows⟩

/-- a construction on a graph of written values, after `filled` collections were filled -/
structure Sound (g : Graph) (filled : Nat) (c : Construction) : Prop where
  graph : c.graph = g
  data_size : c.data.size = g.size
  collections_size : c.collections.size = g.size
  data : ∀ i d, c.data[i]? = some (some d) → Known g c i d
  made : ∀ p ∈ c.made.toList, Kind.ofTag? (g.tag p.1) = some p.2 ∧ (∃ v, Carries g p.1 v) ∧
    c.data[p.1]? = some (some (.collection p.1))
  nodup : (c.made.toList.map Prod.fst).Nodup
  bound : filled ≤ c.made.size
  filled : ∀ k p, k < filled → c.made[k]? = some p → Filled g c p.1

def keeping (c : Construction) (i : NodeId) (k : Key) : Construction :=
  { c with data := c.data.setIfInBounds i (some (.key k)) }

def making (c : Construction) (i : NodeId) (kind : Kind) : Construction :=
  { c with
    collections := c.collections.setIfInBounds i kind.empty
    made := c.made.push (i, kind)
    data := c.data.setIfInBounds i (some (.collection i)) }

theorem toList_making (c : Construction) (i : NodeId) (kind : Kind) :
    (c.making i kind).made.toList = c.made.toList ++ [(i, kind)] := Array.toList_push

theorem grows_making (c : Construction) (i : NodeId) (kind : Kind) : Grows c (c.making i kind) :=
  ⟨[(i, kind)], (toList_making c i kind).symm⟩

section Datum

variable {g : Graph} {n : Nat} {c : Construction} {i : NodeId} {v : Value}

theorem eq_or_getElem?_of_set {data : Array (Option Datum)} {i j : Nat} {d e : Datum}
    (h : (data.setIfInBounds i (some d))[j]? = some (some e)) :
    (i = j ∧ d = e) ∨ data[j]? = some (some e) := by
  by_cases hij : i = j
  · subst hij
    rw [Array.getElem?_setIfInBounds_self] at h
    split_ifs at h
    exact .inl ⟨rfl, Option.some.inj (Option.some.inj h)⟩
  · rw [Array.getElem?_setIfInBounds_ne hij] at h
    exact .inr h

theorem Sound.ne_of_none (h : Sound g n c) (hnone : c.data[i]? = some none) :
    ∀ p ∈ c.made.toList, i ≠ p.1 := by
  rintro p hp rfl
  have hdata := (h.made p hp).2.2
  rw [hnone] at hdata
  cases hdata

theorem Sound.keep {s : Scalar} (h : Sound g n c) (hi : Carries g i (.scalar s))
    (hnone : c.data[i]? = some none) : Sound g n (c.keeping i (.scalar s)) where
  graph := h.graph
  data_size := by simp [keeping, h.data_size]
  collections_size := h.collections_size
  data j d hd := by
    rcases eq_or_getElem?_of_set hd with ⟨rfl, rfl⟩ | hold
    · exact ⟨_, hi, rfl, fun kind hkind => by cases hkind⟩
    · exact h.data j d hold
  made p hp := by
    obtain ⟨hkind, hcarries, hdata⟩ := h.made p hp
    exact ⟨hkind, hcarries,
      (Array.getElem?_setIfInBounds_ne (h.ne_of_none hnone p hp)).trans hdata⟩
  nodup := h.nodup
  bound := h.bound
  filled k p hk hp := (h.filled k p hk hp).mono (List.prefix_refl _) rfl

theorem known_making {kind : Kind} (hi : Carries g i v) (hkind : kindOf? v = some kind) :
    Known g (c.making i kind) i (.collection i) := by
  refine ⟨v, hi, ?_, fun kind' hkind' => ?_⟩
  · cases v <;> first | rfl | cases hkind
  · obtain rfl := Option.some.inj (hkind.symm.trans hkind')
    simp [toList_making]

theorem Sound.make {kind : Kind} (h : Sound g n c) (hi : Carries g i v)
    (hkind : kindOf? v = some kind) (hnone : c.data[i]? = some none) :
    Sound g n (c.making i kind) where
  graph := h.graph
  data_size := by simp [making, h.data_size]
  collections_size := by simp [making, h.collections_size]
  data j d hd := by
    rcases eq_or_getElem?_of_set hd with ⟨rfl, rfl⟩ | hold
    · exact known_making hi hkind
    · exact (h.data j d hold).mono (grows_making c i kind)
  made p hp := by
    rw [toList_making, List.mem_append, List.mem_singleton] at hp
    rcases hp with hp | rfl
    · obtain ⟨hkind, hcarries, hdata⟩ := h.made p hp
      exact ⟨hkind, hcarries,
        (Array.getElem?_setIfInBounds_ne (h.ne_of_none hnone p hp)).trans hdata⟩
    · have hlt : i < c.data.size := h.data_size ▸ hi.lt_size
      exact ⟨hi.kind.trans hkind, ⟨v, hi⟩, by simp [making, hlt]⟩
  nodup := by
    rw [toList_making, List.map_append, List.nodup_append]
    refine ⟨h.nodup, by simp, fun a ha b hb => ?_⟩
    obtain ⟨p, hp, rfl⟩ := List.mem_map.1 ha
    obtain rfl : b = i := by simpa using hb
    exact (h.ne_of_none hnone p hp).symm
  bound := by
    rw [making, Array.size_push]
    exact Nat.le_succ_of_le h.bound
  filled k p hk hp := by
    have hlt : k < c.made.size := lt_of_lt_of_le hk h.bound
    rw [making, Array.getElem?_push, if_neg (Nat.ne_of_lt hlt)] at hp
    have hmem : p ∈ c.made.toList := Array.mem_toList_iff.2 (Array.mem_of_getElem? hp)
    exact (h.filled k p hk hp).mono (grows_making c i kind)
      (Array.getElem?_setIfInBounds_ne (h.ne_of_none hnone p hmem))

theorem run_bind_ok {α β : Type} {m : Builder α} {f : α → Builder β} {a : α} {c c' : Construction}
    (h : m.run c = .ok (a, c')) : (m >>= f).run c = (f a).run c' := by
  rw [StateT.run_bind, h]
  rfl

theorem run_datum_known {d : Datum} (h : c.data[i]? = some (some d)) :
    (datum i).run c = .ok (d, c) := by
  simp only [datum, StateT.run_bind, StateT.run_get, pure_bind, h, Option.join_some]
  rfl

theorem run_datum_made {kind : Kind} (h : c.data[i]? = some none)
    (hkind : Kind.ofTag? (c.graph.tag i) = some kind) :
    (datum i).run c = .ok (.collection i, c.making i kind) := by
  simp only [datum, StateT.run_bind, StateT.run_get, pure_bind, h, Option.join_some, hkind]
  rfl

theorem run_datum_key {k : Key} (h : c.data[i]? = some none)
    (hkind : Kind.ofTag? (c.graph.tag i) = none) (hkey : c.graph.key i = .ok k) :
    (datum i).run c = .ok (.key k, c.keeping i k) := by
  simp only [datum, StateT.run_bind, StateT.run_get, pure_bind, h, Option.join_some, hkind, hkey]
  rfl

/-- a step that keeps a construction sound, gives `b` and makes `P` true -/
def Makes {β : Type} (g : Graph) (n : Nat) (m : Builder β) (b : β) (P : Construction → Prop) :
    Prop :=
  ∀ c, Sound g n c → ∃ c', m.run c = .ok (b, c') ∧ Sound g n c' ∧ Grows c c' ∧ P c'

theorem makes_datum (hi : Carries g i v) :
    Makes g n (datum i) (datumOf i v) fun c => Known g c i (datumOf i v) := by
  intro c h
  have hlt : i < c.data.size := h.data_size ▸ hi.lt_size
  have hget : c.data[i]? = some c.data[i] := Array.getElem?_eq_getElem hlt
  cases hdata : c.data[i] with
  | some d =>
    rw [hdata] at hget
    obtain ⟨w, hw, rfl, hmade⟩ := h.data i d hget
    rw [hi.datumOf_eq hw]
    exact ⟨c, run_datum_known hget, h, List.prefix_refl _, w, hw, rfl, hmade⟩
  | none =>
    rw [hdata] at hget
    have hkind := hi.kind
    rw [← h.graph] at hkind
    cases v with
    | scalar s =>
      exact ⟨_, run_datum_key hget hkind (h.graph ▸ hi.key), h.keep hi hget, List.prefix_refl _,
        _, hi, rfl, fun kind hkind => by cases hkind⟩
    | list items =>
      exact ⟨_, run_datum_made hget hkind, h.make hi rfl hget, grows_making .., known_making hi rfl⟩
    | map entries =>
      exact ⟨_, run_datum_made hget hkind, h.make hi rfl hget, grows_making .., known_making hi rfl⟩

theorem makes_mapM {α β γ : Type} {f : α → Builder β} {a : γ → α} {b : γ → β}
    {P : γ → Construction → Prop} {xs : List γ}
    (hmono : ∀ x c c', P x c → Grows c c' → P x c')
    (hxs : ∀ x ∈ xs, Makes g n (f (a x)) (b x) (P x)) :
    Makes g n ((xs.map a).mapM f) (xs.map b) fun c => ∀ x ∈ xs, P x c := by
  induction xs with
  | nil =>
    intro c h
    exact ⟨c, rfl, h, List.prefix_refl _, by simp⟩
  | cons x xs ih =>
    intro c h
    obtain ⟨c₁, hrun, hsound, hgrows, hP⟩ := hxs x (by simp) c h
    obtain ⟨c₂, hrun', hsound', hgrows', hP'⟩ := ih (fun y hy => hxs y (by simp [hy])) c₁ hsound
    refine ⟨c₂, ?_, hsound', hgrows.trans hgrows', List.forall_mem_cons.2
      ⟨hmono x c₁ c₂ hP hgrows', hP'⟩⟩
    rw [List.map_cons, List.mapM_cons, run_bind_ok hrun, run_bind_ok hrun']
    rfl

end Datum

section Content

variable {g : Graph} {n : Nat} {c : Construction} {i : NodeId} {v : Value} {es : List Entry}
  {ids : List NodeId}

theorem takeMerge_eq_none (h : ∀ e ∈ es, g.tag e.1 ≠ .merge) : g.takeMerge es = none := by
  induction es with
  | nil => rfl
  | cons e es ih =>
    rw [Graph.takeMerge, if_neg (h e (by simp)), ih fun e he => h e (by simp [he])]
    rfl

theorem foldl_settleKey (h : ∀ e ∈ es, g.tag e.1 ≠ .value) : es.foldl Graph.settleKey g = g := by
  induction es with
  | nil => rfl
  | cons e es ih =>
    rw [List.foldl_cons, Graph.settleKey, if_neg (h e (by simp))]
    exact ih fun e he => h e (by simp [he])

/-- a mapping without the sign of a merge keeps its entries -/
theorem mergeWithin_eq (hbody : g.body i = .map es)
    (h : ∀ e ∈ es, g.tag e.1 ≠ .merge ∧ g.tag e.1 ≠ .value) (fuel : Nat) :
    Graph.mergeWithin (fuel + 1) [] i g = .ok g := by
  have hentries : g.entries i = es := by rw [Graph.entries, hbody]
  have hsettle : g.settle i [] = g := by
    simp only [Graph.settle, hentries, foldl_settleKey fun e he => (h e he).2]
    rfl
  rw [Graph.mergeWithin, hentries, takeMerge_eq_none fun e he => (h e he).1]
  simp only [hsettle]

theorem run_listItems (hbody : c.graph.body i = .list ids) :
    (listItems i).run c = .ok (ids, c) := by
  simp only [listItems, StateT.run_bind, StateT.run_get, pure_bind, hbody]
  rfl

theorem run_mapEntries (hbody : c.graph.body i = .map es)
    (h : ∀ e ∈ es, c.graph.tag e.1 ≠ .merge ∧ c.graph.tag e.1 ≠ .value) :
    (mapEntries i).run c = .ok (es, c) := by
  have hmerge := mergeWithin_eq hbody h c.merges
  have hentries : c.graph.entries i = es := by rw [Graph.entries, hbody]
  simp only [mapEntries, StateT.run_bind, StateT.run_get, pure_bind, hbody, hmerge]
  show Except.ok (c.graph.entries i, c) = _
  rw [hentries]

theorem putEntry_of_new {k : Key} {d : Datum} {entries : List (Key × Datum)}
    (h : ∀ e ∈ entries, e.1.same k = false) : putEntry k d entries = entries ++ [(k, d)] := by
  induction entries with
  | nil => rfl
  | cons e entries ih =>
    rw [putEntry, h e (by simp), ih fun e he => h e (by simp [he])]
    rfl

theorem foldl_putEntry {fields : List (String × Datum)} (h : (fields.map Prod.fst).Nodup)
    (before : List (Key × Datum))
    (hbefore : ∀ e ∈ before, ∀ f ∈ fields, e.1.same (.scalar (.text f.1)) = false) :
    (fields.map fun f => (Key.scalar (.text f.1), f.2)).foldl (fun es e => putEntry e.1 e.2 es)
      before = before ++ fields.map fun f => (.scalar (.text f.1), f.2) := by
  induction fields generalizing before with
  | nil => simp
  | cons f fields ih =>
    rw [List.map_cons, List.nodup_cons] at h
    rw [List.map_cons, List.foldl_cons, putEntry_of_new fun e he => hbefore e he f (by simp),
      ih h.2]
    · simp
    · intro e he f' hf'
      rcases List.mem_append.1 he with he | he
      · exact hbefore e he f' (by simp [hf'])
      · obtain rfl := List.mem_singleton.1 he
        have hne : f.1 ≠ f'.1 := fun heq => h.1 (heq ▸ List.mem_map_of_mem hf')
        simpa [Key.same, Scalar.same] using hne

end Content

section Fill

variable {g : Graph} {n : Nat} {c : Construction} {i : NodeId} {v : Value}

theorem makes_entry {e : Entry} {w : String} (hkey : Carries g e.1 (.text w))
    (hvalue : Carries g e.2 v) : Makes g n (entry e) (.scalar (.text w), datumOf e.2 v)
      fun c => Known g c e.1 (.scalar (.text w)) ∧ Known g c e.2 (datumOf e.2 v) := by
  intro c h
  obtain ⟨c₁, hrun, hsound, hgrows, hknown⟩ := makes_datum (n := n) hkey c h
  obtain ⟨c₂, hrun', hsound', hgrows', hknown'⟩ := makes_datum (n := n) hvalue c₁ hsound
  refine ⟨c₂, ?_, hsound', hgrows.trans hgrows', hknown.mono hgrows', hknown'⟩
  rw [entry, run_bind_ok hrun]
  show (datum e.2 >>= _).run c₁ = _
  rw [run_bind_ok hrun']
  rfl

theorem makes_items {parts : List (NodeId × Value)} (hbody : g.body i = .list (parts.map Prod.fst))
    (hcarries : ∀ p ∈ parts, Carries g p.1 p.2) :
    Makes g n (Construction.content i .list) (.list (parts.map fun p => datumOf p.1 p.2))
      fun c => Content g c i (.list (parts.map fun p => datumOf p.1 p.2)) := by
  intro c h
  have hmakes : Makes g n ((parts.map Prod.fst).mapM datum) (parts.map fun p => datumOf p.1 p.2)
      fun c => ∀ p ∈ parts, Known g c p.1 (datumOf p.1 p.2) :=
    makes_mapM (fun _ _ _ h => h.mono) fun p hp => makes_datum (hcarries p hp)
  obtain ⟨c', hrun, hsound, hgrows, hknown⟩ := hmakes c h
  refine ⟨c', ?_, hsound, hgrows, .list hbody ?_⟩
  · show (listItems i >>= _).run c = _
    rw [run_bind_ok (run_listItems (h.graph ▸ hbody)), run_bind_ok hrun]
    rfl
  · rw [List.forall₂_map_left_iff, List.forall₂_map_right_iff, List.forall₂_same]
    exact hknown

theorem makes_entries {parts : List (Entry × String × Value)}
    (hbody : g.body i = .map (parts.map Prod.fst)) (hnodup : (parts.map fun p => p.2.1).Nodup)
    (hcarries : ∀ p ∈ parts, Carries g p.1.1 (.text p.2.1) ∧ Carries g p.1.2 p.2.2) :
    Makes g n (Construction.content i .map)
      (.map (parts.map fun p => (.scalar (.text p.2.1), datumOf p.1.2 p.2.2)))
      fun c => Content g c i
        (.map (parts.map fun p => (.scalar (.text p.2.1), datumOf p.1.2 p.2.2))) := by
  intro c h
  have hmakes : Makes g n ((parts.map Prod.fst).mapM entry)
      (parts.map fun p => (.scalar (.text p.2.1), datumOf p.1.2 p.2.2))
      fun c => ∀ p ∈ parts, Known g c p.1.1 (.scalar (.text p.2.1)) ∧
        Known g c p.1.2 (datumOf p.1.2 p.2.2) :=
    makes_mapM (fun _ _ _ h hgrows => ⟨h.1.mono hgrows, h.2.mono hgrows⟩)
      fun p hp => makes_entry (hcarries p hp).1 (hcarries p hp).2
  obtain ⟨c', hrun, hsound, hgrows, hknown⟩ := hmakes c h
  have htags : ∀ e ∈ parts.map Prod.fst, c.graph.tag e.1 ≠ .merge ∧ c.graph.tag e.1 ≠ .value := by
    intro e he
    obtain ⟨p, hp, rfl⟩ := List.mem_map.1 he
    exact h.graph ▸ (hcarries p hp).1.tag_text
  have hnames : ((parts.map fun p => (p.2.1, datumOf p.1.2 p.2.2)).map Prod.fst).Nodup := by
    rwa [List.map_map]
  have hfold : (parts.map fun p => (Key.scalar (.text p.2.1), datumOf p.1.2 p.2.2)).foldl
      (fun es e => putEntry e.1 e.2 es) [] =
        parts.map fun p => (.scalar (.text p.2.1), datumOf p.1.2 p.2.2) := by
    simpa [Function.comp_def] using foldl_putEntry hnames [] (by simp)
  have hmapping : (mapping i).run c =
      .ok (parts.map fun p => (.scalar (.text p.2.1), datumOf p.1.2 p.2.2), c') := by
    rw [mapping, run_bind_ok (run_mapEntries (h.graph ▸ hbody) htags), run_bind_ok hrun, hfold]
    rfl
  refine ⟨c', ?_, hsound, hgrows, .map hbody ?_⟩
  · show (mapping i >>= _).run c = _
    rw [run_bind_ok hmapping]
    rfl
  · rw [List.forall₂_map_left_iff, List.forall₂_map_right_iff, List.forall₂_same]
    exact hknown

theorem content_run {kind : Kind} (h : Sound g n c) (hi : Carries g i v)
    (hkind : kindOf? v = some kind) :
    ∃ content c', (Construction.content i kind).run c = .ok (content, c') ∧ Sound g n c' ∧
      Grows c c' ∧ Content g c' i content := by
  cases v with
  | scalar s => cases hkind
  | list items =>
    obtain rfl := Option.some.inj hkind
    obtain ⟨parts, -, hbody, hcarries⟩ := hi.list
    exact ⟨_, makes_items hbody hcarries c h⟩
  | map entries =>
    obtain rfl := Option.some.inj hkind
    obtain ⟨parts, -, hbody, hnodup, hcarries⟩ := hi.map
    exact ⟨_, makes_entries hbody hnodup hcarries c h⟩

theorem Grows.getElem? {c' : Construction} {p : NodeId × Kind} (h : Grows c c')
    (hp : c.made[n]? = some p) : c'.made[n]? = some p := by
  obtain ⟨more, hmore⟩ := h
  rw [← Array.getElem?_toList] at hp ⊢
  rw [← hmore, List.getElem?_append_left (List.getElem?_eq_some_iff.1 hp).1, hp]

/-- putting a content in its place fills one more collection -/
theorem Sound.fill {p : NodeId × Kind} {content : Collection} (h : Sound g n c)
    (hp : c.made[n]? = some p) (hcontent : Content g c p.1 content) :
    Sound g (n + 1) { c with collections := c.collections.setIfInBounds p.1 content } where
  graph := h.graph
  data_size := h.data_size
  collections_size := by simp [h.collections_size]
  data := h.data
  made := h.made
  nodup := h.nodup
  bound := (Array.getElem?_eq_some_iff.1 hp).1
  filled k q hk hq := by
    have hmem : p ∈ c.made.toList := Array.mem_toList_iff.2 (Array.mem_of_getElem? hp)
    obtain ⟨v, hv⟩ := (h.made p hmem).2.1
    have hlt : p.1 < c.collections.size := h.collections_size ▸ hv.lt_size
    by_cases hsame : p.1 = q.1
    · refine ⟨content, ?_, hsame ▸ hcontent.mono (List.prefix_refl _)⟩
      show (c.collections.setIfInBounds p.1 content)[q.1]? = _
      rw [← hsame, Array.getElem?_setIfInBounds_self, if_pos hlt]
    · have hne : k ≠ n := by
        rintro rfl
        exact hsame (congrArg Prod.fst (Option.some.inj (hp.symm.trans hq)))
      exact (h.filled k q (by omega) hq).mono (List.prefix_refl _)
        (Array.getElem?_setIfInBounds_ne hsame)

/-- all collections are filled unless the fuel runs out -/
theorem fillFrom_run (h : Sound g n c) (fuel : Nat) :
    ∃ c' m, (fillFrom n fuel).run c = .ok ((), c') ∧ Sound g m c' ∧ Grows c c' ∧
      (c'.made.size ≤ m ∨ n + fuel ≤ m) := by
  -- each turn fills the next collection, which may make more of them behind it
  induction fuel generalizing n c with
  | zero => exact ⟨c, n, rfl, h, List.prefix_refl _, .inr le_rfl⟩
  | succ fuel ih =>
    cases hp : c.made[n]? with
    | none =>
      have hrun : (fillFrom n (fuel + 1)).run c = .ok ((), c) := by
        simp only [fillFrom, StateT.run_bind, StateT.run_get, pure_bind, hp]
        rfl
      exact ⟨c, n, hrun, h, List.prefix_refl _, .inl (Array.getElem?_eq_none_iff.1 hp)⟩
    | some p =>
      obtain ⟨i, kind⟩ := p
      have hmem : (i, kind) ∈ c.made.toList := Array.mem_toList_iff.2 (Array.mem_of_getElem? hp)
      obtain ⟨hkind, ⟨v, hv⟩, -⟩ := h.made _ hmem
      obtain ⟨content, c₁, hcontent, hsound, hgrows, hholds⟩ :=
        content_run h hv (hv.kind.symm.trans hkind)
      obtain ⟨c₂, m, hrest, hsound', hgrows', hm⟩ := ih (hsound.fill (hgrows.getElem? hp) hholds)
      refine ⟨c₂, m, ?_, hsound', hgrows.trans hgrows', hm.imp_right (by omega)⟩
      rw [← hrest]
      simp only [fillFrom, StateT.run_bind, StateT.run_get, pure_bind, hp, hcontent]
      rfl

theorem Known.eq {d : Datum} (h : Known g c i d) (hi : Carries g i v) : d = datumOf i v := by
  obtain ⟨w, hw, rfl, -⟩ := h
  exact hw.datumOf_eq hi

theorem Known.made {kind : Kind} (h : Known g c i (datumOf i v)) (hi : Carries g i v)
    (hkind : kindOf? v = some kind) : (i, kind) ∈ c.made.toList := by
  obtain ⟨w, hw, -, hmade⟩ := h
  exact hmade kind (hw.kind.symm.trans (hi.kind.trans hkind))

theorem Sound.filled_of_known {kind : Kind} (h : Sound g n c) (hall : c.made.size ≤ n)
    (hknown : Known g c i (datumOf i v)) (hi : Carries g i v) (hkind : kindOf? v = some kind) :
    Filled g c i := by
  obtain ⟨k, hk, hget⟩ := List.getElem_of_mem (hknown.made hi hkind)
  rw [Array.length_toList] at hk
  exact h.filled k (i, kind) (by omega) (by rw [← hget]; simp [hk])

theorem size_made_le (h : Sound g n c) : c.made.size ≤ g.size := by
  have hsubset : c.made.toList.map Prod.fst ⊆ List.range g.size := by
    intro j hj
    obtain ⟨p, hp, rfl⟩ := List.mem_map.1 hj
    obtain ⟨v, hv⟩ := (h.made p hp).2.1
    exact List.mem_range.2 hv.lt_size
  simpa using (List.Nodup.subperm h.nodup hsubset).length_le

theorem sound_start (g : Graph) : Sound g 0 (.start g) where
  graph := rfl
  data_size := by simp [start]
  collections_size := by simp [start]
  data i d hd := by
    simp only [start, Array.getElem?_replicate] at hd
    split_ifs at hd
    cases hd
  made p hp := by cases hp
  nodup := List.nodup_nil
  bound := le_rfl
  filled k p hk := absurd hk (Nat.not_lt_zero k)

/-- everything that the root consists of is made and filled -/
theorem build_run (hi : Carries g i v) : ∃ c m, (build i).run (.start g) = .ok (datumOf i v, c) ∧
    Sound g m c ∧ c.made.size ≤ m ∧ Known g c i (datumOf i v) := by
  obtain ⟨c₁, hdatum, hsound, -, hknown⟩ := makes_datum (n := 0) hi (.start g) (sound_start g)
  -- a node is made at most once, so the fuel outlasts the collections
  obtain ⟨c₂, m, hfill, hsound', hgrows, hm⟩ := fillFrom_run hsound (g.size + 1)
  refine ⟨c₂, m, ?_, hsound', ?_, hknown.mono hgrows⟩
  · have hget : (get : Builder Construction).run c₁ = .ok (c₁, c₁) := rfl
    rw [build, run_bind_ok hdatum, run_bind_ok hget, hsound.graph, run_bind_ok hfill]
    rfl
  · have hsize := size_made_le hsound'
    omega

end Fill

end Construction

/-- a datum of a document is a value, part by part -/
inductive Mirrors (doc : Document) : Datum → Value → Prop
  | scalar (s : Scalar) : Mirrors doc (.scalar s) (.scalar s)
  | list {i : NodeId} {items : List Value} (parts : List (Datum × Value))
      (content : doc.collection i = .list (parts.map Prod.fst)) (value : items = parts.map Prod.snd)
      (mirrors : ∀ p ∈ parts, Mirrors doc p.1 p.2) : Mirrors doc (.collection i) (.list items)
  | map {i : NodeId} {entries : List (Scalar × Value)} (parts : List (Datum × String × Value))
      (content : doc.collection i = .map (parts.map fun p => (.scalar (.text p.2.1), p.1)))
      (value : entries = Fields.entries (parts.map Prod.snd))
      (mirrors : ∀ p ∈ parts, Mirrors doc p.1 p.2.2) : Mirrors doc (.collection i) (.map entries)

section Mirrors

open Construction

variable {g : Graph} {n : Nat} {c : Construction} {i : NodeId} {v : Value}

theorem known_items {parts : List (NodeId × Value)} (hcarries : ∀ p ∈ parts, Carries g p.1 p.2)
    {ds : List Datum} (h : List.Forall₂ (Known g c) (parts.map Prod.fst) ds) :
    ds = (parts.map fun p => datumOf p.1 p.2) ∧ ∀ p ∈ parts, Known g c p.1 (datumOf p.1 p.2) := by
  induction parts generalizing ds with
  | nil =>
    cases h
    exact ⟨rfl, by simp⟩
  | cons p parts ih =>
    obtain ⟨d, ds, hd, hds, rfl⟩ := List.forall₂_cons_left_iff.1 h
    obtain rfl := hd.eq (hcarries p (by simp))
    obtain ⟨rfl, hknown⟩ := ih (fun q hq => hcarries q (by simp [hq])) hds
    exact ⟨rfl, List.forall_mem_cons.2 ⟨hd, hknown⟩⟩

theorem known_entries {parts : List (Entry × String × Value)}
    (hcarries : ∀ p ∈ parts, Carries g p.1.1 (.text p.2.1) ∧ Carries g p.1.2 p.2.2)
    {entries : List (Key × Datum)} (h : List.Forall₂ (fun e p => Known g c e.1 (.key p.1) ∧
      Known g c e.2 p.2) (parts.map Prod.fst) entries) :
    entries = (parts.map fun p => (.scalar (.text p.2.1), datumOf p.1.2 p.2.2)) ∧
      ∀ p ∈ parts, Known g c p.1.2 (datumOf p.1.2 p.2.2) := by
  induction parts generalizing entries with
  | nil =>
    cases h
    exact ⟨rfl, by simp⟩
  | cons p parts ih =>
    obtain ⟨⟨k, d⟩, entries, ⟨hk, hd⟩, hentries, rfl⟩ := List.forall₂_cons_left_iff.1 h
    obtain ⟨hkey, hvalue⟩ := hcarries p (by simp)
    obtain rfl := hd.eq hvalue
    obtain rfl : k = .scalar (.text p.2.1) := by simpa [datumOf, Datum.scalar] using hk.eq hkey
    obtain ⟨rfl, hknown⟩ := ih (fun q hq => hcarries q (by simp [hq])) hentries
    exact ⟨rfl, List.forall_mem_cons.2 ⟨hd, hknown⟩⟩

theorem mirrors_of_known (h : Sound g n c) (hall : c.made.size ≤ n) (hholds : Holds g 0 i v)
    (hfits : ∃ n, Fits n v) (hknown : Known g c i (datumOf i v)) (root : Datum) :
    Mirrors ⟨root, c.collections⟩ (datumOf i v) v := by
  -- along the tree that the graph holds: what is known of a collection is known of its parts
  induction hholds with
  | scalar => exact .scalar _
  | @list i items parts le node value holds ih =>
    subst value
    have hi : Carries g i (.list (parts.map Prod.snd)) := ⟨hfits, .list parts le node rfl holds⟩
    have hbody : g.body i = .list (parts.map Prod.fst) := by rw [Graph.body, node_eq node]
    have hcarries := Carries.of_items hfits holds
    obtain ⟨content, hcontent, hfilled⟩ := h.filled_of_known hall hknown hi rfl
    cases hfilled with
    | list body known =>
      obtain rfl := Body.list.inj (hbody.symm.trans body)
      obtain ⟨rfl, hparts⟩ := known_items hcarries known
      refine .list (parts.map fun p => (datumOf p.1 p.2, p.2)) ?_ (by simp) fun q hq => ?_
      · simp [Document.collection, hcontent]
      · obtain ⟨p, hp, rfl⟩ := List.mem_map.1 hq
        exact ih p hp (hcarries p hp).1 (hparts p hp)
    | map body known => cases hbody.symm.trans body
  | @map i entries parts le node value keys values ihk ihv =>
    subst value
    have hi : Carries g i (.map (Fields.entries (parts.map Prod.snd))) :=
      ⟨hfits, .map parts le node rfl keys values⟩
    have hbody : g.body i = .map (parts.map Prod.fst) := by rw [Graph.body, node_eq node]
    have hcarries := Carries.of_entries hfits keys values
    obtain ⟨content, hcontent, hfilled⟩ := h.filled_of_known hall hknown hi rfl
    cases hfilled with
    | list body known => cases hbody.symm.trans body
    | map body known =>
      obtain rfl := Body.map.inj (hbody.symm.trans body)
      obtain ⟨rfl, hparts⟩ := known_entries hcarries known
      refine .map (parts.map fun p => (datumOf p.1.2 p.2.2, p.2)) ?_ ?_ fun q hq => ?_
      · simp [Document.collection, hcontent]
      · rw [List.map_map]
        rfl
      · obtain ⟨p, hp, rfl⟩ := List.mem_map.1 hq
        exact ihv p hp (hcarries p hp).2.1 (hparts p hp)

theorem ofGraph_mirrors (hi : Carries g i v) :
    ∃ doc, Document.ofGraph g i = .ok doc ∧ Mirrors doc doc.root v := by
  obtain ⟨c, m, hrun, hsound, hall, hknown⟩ := build_run hi
  refine ⟨⟨datumOf i v, c.collections⟩, ?_, mirrors_of_known hsound hall hi.2 hi.1 hknown _⟩
  rw [Document.ofGraph, hrun]
  rfl

/-- the document of the tokens of a record is that record -/
theorem ofTokens_mirrors {fields : Fields} (h : Fits n (.record fields)) :
    ∃ doc, Document.ofTokens (blockTokens (.record fields)) = .ok doc ∧
      Mirrors doc doc.root (.record fields) := by
  obtain ⟨g, hparse, hholds⟩ := Grammar.parse_record h
  obtain ⟨doc, hdoc, hmirrors⟩ := ofGraph_mirrors ⟨⟨n, h⟩, hholds⟩
  refine ⟨doc, ?_, hmirrors⟩
  rw [Document.ofTokens, hparse]
  exact hdoc

end Mirrors

end LinkedCalls.Yaml
