import LinkedCalls.Proofs.Yaml.Keys

/-!
The tokens of written values. Lists and mappings are scanned part by part, so that a document with
room for its keys gives the tokens of its record.
-/
namespace LinkedCalls.Yaml

mutual

/-- the tokens of a value that stands in a block -/
def blockTokens : Value → List Token
  | .scalar s => [.scalar (scalarText s) (isPlain s)]
  | .list items =>
    if items.isEmpty then [.flowSequence, .flowSequenceEnd] else itemTokens items
  | .map entries => .blockMapping :: (entryTokens entries ++ [.blockEnd])

def itemTokens : List Value → List Token
  | [] => []
  | v :: vs => .entry :: (blockTokens v ++ itemTokens vs)

def entryTokens : List (Scalar × Value) → List Token
  | [] => []
  | (k, v) :: es =>
    .key :: .scalar (scalarText k) true :: .value :: (blockTokens v ++ entryTokens es)

end

abbrev Fields := List (String × Value)

def Fields.entries (fields : Fields) : List (Scalar × Value) := fields.map fun f => (.text f.1, f.2)

namespace Scan

/-- a value beside a key in column `n` is read up to the next line -/
def Scans (n : Nat) (v : Value) : Prop :=
  ∀ (c : Cursor) (ts : List Token) (blocks : List Nat) (column m : Nat) (rest : List Char),
    c.At (besideKey n column v ++ (newLine m ++ rest)) → n < c.column → m ≤ n → Follows m rest →
      (idle c ts (n :: blocks) false).Leads m rest ((blockTokens v).reverse ++ ts) (n :: blocks)

theorem Scans.scalar {n : Nat} {s : Scalar} (hs : Exportable s) (hwidth : n + 2 < width) :
    Scans n (.scalar s) := by
  intro c ts blocks column m rest h hcolumn hm hrest
  exact leads_scalar hs (by simpa [besideKey] using h) hcolumn.le hwidth hm hrest

theorem endsWord_besideKey (n column : Nat) (v : Value) (tail : List Char) :
    endsWord (besideKey n column v ++ tail) = true := by
  cases v with
  | scalar s => rfl
  | list items => unfold besideKey; split_ifs <;> rfl
  | map entries => unfold besideKey; split_ifs <;> rfl

theorem lines_cons {n : Nat} (x : List Char) (xs : List (List Char)) (tail : List Char) :
    lines n (x :: xs) ++ tail =
      x ++ if xs = [] then tail else newLine n ++ (lines n xs ++ tail) := by
  cases xs with
  | nil => simp [lines, List.intercalate]
  | cons y ys => simp [lines, List.intercalate]

section Mapping

variable {s : Scan} {fields : Fields} {w : String} {v : Value} {n m : Nat} {ts : List Token}
  {blocks : List Nat} {rest : List Char}

variable (fields v n) in
theorem lines_entries (hw : IsKey w) (tail : List Char) : ∃ column,
    lines n (entryLayouts n (Fields.entries ((w, v) :: fields))) ++ tail =
      w.toList ++ ':' :: (besideKey n column v ++
        if fields = [] then tail
        else newLine n ++ (lines n (entryLayouts n fields.entries) ++ tail)) := by
  have hnil : entryLayouts n fields.entries = [] ↔ fields = [] := by
    cases fields <;> simp [Fields.entries, entryLayouts]
  refine ⟨n + (keyLayout n (.text w)).length, ?_⟩
  rw [show Fields.entries ((w, v) :: fields) = (.text w, v) :: Fields.entries fields from rfl,
    entryLayouts, lines_cons]
  simp only [hnil, hw.layout.2.1, List.append_assoc, List.cons_append, List.nil_append]

theorem exists_key (hne : fields ≠ []) (hkeys : ∀ f ∈ fields, IsKey f.1) (n : Nat)
    (tail : List Char) : ∃ w rest, IsKey w ∧
      lines n (entryLayouts n fields.entries) ++ tail = w.toList ++ rest := by
  obtain ⟨⟨w, v⟩, fields, rfl⟩ := List.exists_cons_of_ne_nil hne
  have hw : IsKey w := hkeys (w, v) (by simp)
  obtain ⟨column, hlines⟩ := lines_entries fields v n hw tail
  exact ⟨w, _, hw, hlines⟩

theorem follows_entries (hne : fields ≠ []) (hkeys : ∀ f ∈ fields, IsKey f.1) (k : Nat)
    (tail : List Char) : Follows k (lines n (entryLayouts n fields.entries) ++ tail) := by
  obtain ⟨w, rest, hw, hlines⟩ := exists_key hne hkeys n tail
  rw [hlines]
  exact hw.follows k rest

theorem withMapping_of_head (n : Nat) (ts : List Token) (outer : List Nat) :
    withMapping n ts (n :: outer) = (ts, n :: outer) := by
  simp [withMapping]

theorem withMapping_snd (n : Nat) (ts : List Token) (blocks : List Nat) :
    ∃ outer, (withMapping n ts blocks).2 = n :: outer := by
  unfold withMapping
  split_ifs with hhead
  · cases blocks with
    | nil => cases hhead
    | cons b bs => exact ⟨bs, by simpa using hhead⟩
  · exact ⟨blocks, rfl⟩

theorem Arrives.leads_entries (hne : fields ≠ []) (hkeys : ∀ f ∈ fields, IsKey f.1)
    (hvalues : ∀ f ∈ fields, Scans n f.2)
    (h : s.Arrives n (lines n (entryLayouts n fields.entries) ++ (newLine m ++ rest)) ts blocks)
    (hblocks : ∀ b ∈ blocks.head?, b ≤ n) (hm : m ≤ n) (hrest : Follows m rest) :
    s.Leads m rest ((entryTokens fields.entries).reverse ++ (withMapping n ts blocks).1)
      (withMapping n ts blocks).2 := by
  induction fields generalizing s ts blocks with
  | nil => exact absurd rfl hne
  | cons f fields ih =>
    obtain ⟨w, v⟩ := f
    have hw : IsKey w := hkeys (w, v) (by simp)
    have hv : Scans n v := hvalues (w, v) (by simp)
    obtain ⟨column, hlines⟩ := lines_entries fields v n hw
      (newLine m ++ rest)
    rw [hlines] at h
    obtain ⟨c, hat, hcolumn, hyields⟩ := h.yields_key hw (endsWord_besideKey ..) hblocks
    obtain ⟨outer, houter⟩ := withMapping_snd n ts blocks
    rw [houter] at hyields ⊢
    have hreads : ∀ k tail, c.At (besideKey n column v ++ (newLine k ++ tail)) → k ≤ n →
        Follows k tail → s.Leads k tail ((blockTokens v).reverse ++
          .value :: .scalar w.toList true :: .key :: (withMapping n ts blocks).1) (n :: outer) :=
      fun k tail hk hle hfollows =>
        (hv c _ outer column k tail hk hcolumn hle hfollows).of_yields hyields
    by_cases hnil : fields = []
    · subst hnil
      rw [if_pos rfl] at hat
      simpa [Fields.entries, entryTokens, scalarText] using hreads m rest hat hm hrest
    · rw [if_neg hnil] at hat
      have hkeys' : ∀ f ∈ fields, IsKey f.1 := fun f hf => hkeys f (by simp [hf])
      obtain ⟨t, harrives, hout⟩ := hreads n _ hat le_rfl (follows_entries hnil hkeys' n _)
      -- only the first key opens the mapping: the others find it open in their column
      have hrec := ih hnil hkeys' (fun f hf => hvalues f (by simp [hf])) harrives (by simp)
      rw [withMapping_of_head] at hrec
      simpa [Fields.entries, entryTokens, scalarText] using hrec.of_yields hout

theorem Arrives.leads_record (hne : fields ≠ []) (hkeys : ∀ f ∈ fields, IsKey f.1)
    (hvalues : ∀ f ∈ fields, Scans n f.2)
    (h : s.Arrives n (lines n (entryLayouts n fields.entries) ++ (newLine m ++ rest)) ts blocks)
    (hblocks : ∀ b ∈ blocks.head?, b < n) (hm : m < n) (hrest : Follows m rest) :
    s.Leads m rest ((blockTokens (.record fields)).reverse ++ ts) blocks := by
  have hlead := h.leads_entries hne hkeys hvalues (fun b hb => (hblocks b hb).le) hm.le hrest
  have hopen : withMapping n ts blocks = (.blockMapping :: ts, n :: blocks) := by
    rw [withMapping, if_neg]
    exact fun hhead => absurd (hblocks n hhead) (lt_irrefl n)
  rw [hopen] at hlead
  obtain ⟨t, harrives, hout⟩ := hlead
  refine ⟨t, ?_, hout⟩
  simpa [Value.record, blockTokens, Fields.entries] using harrives.close hm

end Mapping

theorem Scans.record {n : Nat} {fields : Fields} (hne : fields ≠ [])
    (hkeys : ∀ f ∈ fields, IsKey f.1) (hvalues : ∀ f ∈ fields, Scans (n + 2) f.2) :
    Scans n (.record fields) := by
  intro c ts blocks column m rest h hcolumn hm hrest
  have hnil : fields.entries.isEmpty = false := by
    cases fields with
    | nil => exact absurd rfl hne
    | cons f fields => rfl
  have hlayout : besideKey n column (.record fields) =
      newLine (n + 2) ++ lines (n + 2) (entryLayouts (n + 2) fields.entries) := by
    show besideKey n column (.map fields.entries) = _
    rw [besideKey, hnil, if_neg (by simp)]
  rw [hlayout, List.append_assoc] at h
  have hfollows := follows_entries (n := n + 2) hne hkeys 0 (newLine m ++ rest)
  have harrives := arrives_newLine ts (n :: blocks) false h
    (starts_of_follows hfollows)
  exact harrives.leads_record hne hkeys hvalues (by simp) (by omega) hrest

section Rows

variable {s : Scan} {rows : List Fields} {fields : Fields} {n m : Nat} {ts : List Token}
  {blocks : List Nat} {rest tail : List Char}

theorem lines_items (hne : fields ≠ []) (tail : List Char) :
    lines n (itemLayouts n ((fields :: rows).map Value.record)) ++ tail =
      '-' :: ' ' :: (lines (n + 2) (entryLayouts (n + 2) fields.entries) ++
        if rows = [] then tail
        else newLine n ++ (lines n (itemLayouts n (rows.map Value.record)) ++ tail)) := by
  have hnil : itemLayouts n (rows.map Value.record) = [] ↔ rows = [] := by
    cases rows <;> simp [itemLayouts]
  have hmark : afterMark n (.record fields) =
      lines (n + 2) (entryLayouts (n + 2) fields.entries) := by
    show afterMark n (.map fields.entries) = _
    rw [afterMark, if_neg (by simpa [Fields.entries] using hne)]
  rw [List.map_cons, itemLayouts, lines_cons, hmark]
  simp only [hnil, List.cons_append]

theorem follows_mark (k : Nat) (tail : List Char) : Follows k ('-' :: ' ' :: tail) where
  solid c hc := by
    obtain rfl := Option.some.inj hc
    decide
  comment := by simp
  mark := by
    cases k with
    | zero => rfl
    | succ k => exact documentMark_blanks (by omega) _

theorem Arrives.yields_mark (h : s.Arrives n ('-' :: ' ' :: tail) ts (n :: blocks))
    (htail : Starts tail) : ∃ t : Scan, t.Arrives (n + 2) tail (.entry :: ts) (n :: blocks) ∧
      ∀ out, t.Yields out → s.Yields out := by
  obtain ⟨c, hat, rfl, hleft, hnext⟩ := h.next_eq (by simp)
  have hcolumn := Cursor.step_column hat.ahead (by decide) (by decide)
  have hstep : c.step.At (blanks 1 ++ tail) := hat.step
  have harrives := arrives_blanks (.entry :: ts) (c.column :: blocks) hstep htail
  rw [hcolumn] at harrives
  refine ⟨idle c.step (.entry :: ts) (c.column :: blocks) true, harrives, fun out hout => ?_⟩
  have hentry : (idle c ts (c.column :: blocks) true).blockEntry =
      .ok (idle c.step (.entry :: ts) (c.column :: blocks) true) := by
    have hopen : (idle c ts (c.column :: blocks) true).openAt .blockSequence =
        .ok (idle c ts (c.column :: blocks) true) := by
      simp [openAt, inFlow, openBlock, deeper, idle]
    rw [blockEntry, hopen]
    rfl
  refine hout.of_next (hnext.trans (here_of_token (by simp [idle, hat.ahead])
    ((token_entry (s := idle c ts (c.column :: blocks) true) hat.ahead).trans hentry))) ?_
  show c.step.left < s.cursor.left
  have := hat.left
  rw [hat.step.left]
  simp only [List.length_cons] at this ⊢
  omega

theorem Arrives.leads_items (hne : ∀ r ∈ rows, r ≠ []) (hkeys : ∀ r ∈ rows, ∀ f ∈ r, IsKey f.1)
    (hvalues : ∀ r ∈ rows, ∀ f ∈ r, Scans (n + 2) f.2) (hrows : rows ≠ [])
    (h : s.Arrives n (lines n (itemLayouts n (rows.map Value.record)) ++ (newLine m ++ rest)) ts
      (n :: blocks)) (hm : m ≤ n) (hrest : Follows m rest) :
    s.Leads m rest ((itemTokens (rows.map Value.record)).reverse ++ ts) (n :: blocks) := by
  induction rows generalizing s ts with
  | nil => exact absurd rfl hrows
  | cons fields rows ih =>
    have hfields : fields ≠ [] := hne fields (by simp)
    have hkeys' : ∀ f ∈ fields, IsKey f.1 := hkeys fields (by simp)
    rw [lines_items hfields] at h
    have hfollows := fun tail => follows_entries (n := n + 2) hfields hkeys' 0 tail
    obtain ⟨t, harrives, hyields⟩ := h.yields_mark (starts_of_follows (hfollows _))
    have hreads : ∀ k tail, t.Arrives (n + 2) (lines (n + 2)
        (entryLayouts (n + 2) fields.entries) ++ (newLine k ++ tail)) (.entry :: ts)
        (n :: blocks) → k ≤ n → Follows k tail → s.Leads k tail
          ((blockTokens (.record fields)).reverse ++ .entry :: ts) (n :: blocks) :=
      fun k tail hk hle hfollows =>
        (hk.leads_record hfields hkeys' (hvalues fields (by simp)) (by simp) (by omega)
          hfollows).of_yields hyields
    by_cases hnil : rows = []
    · subst hnil
      rw [if_pos rfl] at harrives
      simpa [itemTokens] using hreads m rest harrives hm hrest
    · rw [if_neg hnil] at harrives
      have hnext : Follows n (lines n (itemLayouts n (rows.map Value.record)) ++
          (newLine m ++ rest)) := by
        obtain ⟨r, rows, rfl⟩ := List.exists_cons_of_ne_nil hnil
        rw [lines_items (hne r (by simp))]
        exact follows_mark n _
      obtain ⟨u, hu, hout⟩ := hreads n _ harrives le_rfl hnext
      have hrec := ih (fun r hr => hne r (by simp [hr])) (fun r hr => hkeys r (by simp [hr]))
        (fun r hr => hvalues r (by simp [hr])) hnil hu
      simpa [itemTokens] using hrec.of_yields hout

end Rows

section Brackets

variable {c : Cursor} {n : Nat} {ts : List Token} {blocks : List Nat} {rest : List Char}

/-- within brackets no key is remembered, neither inside nor for the list itself -/
def inBrackets (c : Cursor) (ts : List Token) (blocks : List Nat) : Scan :=
  { idle c ts blocks true with outerKeys := [none] }

theorem next_openBracket (h : c.At (' ' :: '[' :: rest)) (hcolumn : n < c.column) :
    (idle c ts (n :: blocks) false).next =
      .ok (inBrackets c.step.step (.flowSequence :: ts) (n :: blocks), true) := by
  have hstep : c.step.At ('[' :: rest) := h.step
  have hblank := next_blank ts blocks false h (.of_cons (by decide) (by decide)) hcolumn.le
  exact hblank.trans (here_of_token (by simp [idle, hstep.ahead])
    (token_openBracket (s := idle c.step ts (n :: blocks) false) hstep.ahead))

theorem next_closeBracket (h : c.At (']' :: rest)) :
    (inBrackets c ts blocks).next =
      .ok (idle c.step (.flowSequenceEnd :: ts) blocks false, true) := by
  have hinside : (inBrackets c ts blocks).cursor.At (blanks 0 ++ ']' :: rest) := h
  have hskip : (inBrackets c ts blocks).toNextToken ((inBrackets c ts blocks).cursor.left + 1) =
      inBrackets c ts blocks :=
    toNextToken_blanks hinside (.of_cons (by decide) (by decide)) _
  have hclose : (inBrackets c ts blocks).closeFlow .flowSequenceEnd =
      .ok (idle c.step (.flowSequenceEnd :: ts) blocks false) := rfl
  have htoken := (token_closeBracket (s := inBrackets c ts blocks) h.ahead).trans hclose
  rw [next, hskip]
  show (inBrackets c ts blocks).here = _
  exact here_of_token (by simp [inBrackets, idle, h.ahead]) htoken

end Brackets

theorem Scans.nil (n : Nat) : Scans n (.list []) := by
  intro c ts blocks column m rest h hcolumn hm hrest
  have hat : c.At (' ' :: '[' :: ']' :: (newLine m ++ rest)) := by simpa [besideKey] using h
  have hclose : c.step.step.At (']' :: (newLine m ++ rest)) := hat.step.step
  have harrives := arrives_newLine (.flowSequenceEnd :: .flowSequence :: ts) (n :: blocks) false
    hclose.step (starts_of_follows hrest)
  have hlead := (harrives.leads.of_next (next_closeBracket hclose) ?_).of_next
    (next_openBracket hat hcolumn) ?_
  · simpa [blockTokens] using hlead
  · show c.step.step.step.left < c.step.step.left
    rw [hclose.step.left, hclose.left]
    simp
  · show c.step.step.left < c.left
    rw [hclose.left, hat.left]
    simp only [List.length_cons]
    omega

theorem Scans.list {n : Nat} {rows : List Fields} (hne : ∀ r ∈ rows, r ≠ [])
    (hkeys : ∀ r ∈ rows, ∀ f ∈ r, IsKey f.1) (hvalues : ∀ r ∈ rows, ∀ f ∈ r, Scans (n + 2) f.2) :
    Scans n (.list (rows.map Value.record)) := by
  by_cases hrows : rows = []
  · subst hrows
    exact Scans.nil n
  · intro c ts blocks column m rest h hcolumn hm hrest
    have hnil : (rows.map Value.record).isEmpty = false := by simpa using hrows
    rw [besideKey, hnil, if_neg (by simp), List.append_assoc] at h
    obtain ⟨r, rows, rfl⟩ := List.exists_cons_of_ne_nil hrows
    have hfollows := follows_mark 0
    have harrives := arrives_newLine ts (n :: blocks) false h ?_
    · rw [blockTokens, hnil, if_neg (by simp)]
      exact harrives.leads_items hne hkeys hvalues (by simp) hm hrest
    · rw [lines_items (hne r (by simp))]
      exact starts_of_follows (hfollows _)

end Scan

/-- values that can be written beside a key in column `n`: their scalars can be written and equal
themselves, their lists hold records, and their records have names that are read as such -/
inductive Fits : Nat → Value → Prop
  | scalar {n : Nat} {s : Scalar} (exportable : Exportable s) (room : n + 2 < width) :
      Fits n (.scalar s)
  | list {n : Nat} {rows : List Fields} (ne : ∀ r ∈ rows, r ≠ [])
      (keys : ∀ r ∈ rows, ∀ f ∈ r, Scan.IsKey f.1)
      (nodup : ∀ r ∈ rows, (r.map Prod.fst).Nodup)
      (values : ∀ r ∈ rows, ∀ f ∈ r, Fits (n + 2) f.2) : Fits n (.list (rows.map Value.record))
  | record {n : Nat} {fields : Fields} (ne : fields ≠ []) (keys : ∀ f ∈ fields, Scan.IsKey f.1)
      (nodup : (fields.map Prod.fst).Nodup)
      (values : ∀ f ∈ fields, Fits (n + 2) f.2) : Fits n (.record fields)

theorem Fits.mono {n m : Nat} {v : Value} (h : Fits m v) (hnm : n ≤ m) : Fits n v := by
  induction h generalizing n with
  | scalar exportable room => exact .scalar exportable (by omega)
  | list ne keys nodup _ ih => exact .list ne keys nodup fun r hr f hf => ih r hr f hf (by omega)
  | record ne keys nodup _ ih => exact .record ne keys nodup fun f hf => ih f hf (by omega)

theorem Fits.of_mem_list {n : Nat} {items : List Value} {v : Value} (h : Fits n (.list items))
    (hv : v ∈ items) : Fits n v := by
  cases h with
  | list ne keys nodup values =>
    obtain ⟨r, hr, rfl⟩ := List.mem_map.1 hv
    exact .record (ne r hr) (keys r hr) (nodup r hr) (values r hr)

theorem Fits.of_record {n : Nat} {fields : Fields} (h : Fits n (.record fields)) :
    fields ≠ [] ∧ (∀ f ∈ fields, Scan.IsKey f.1) ∧ (fields.map Prod.fst).Nodup ∧
      ∀ f ∈ fields, Fits (n + 2) f.2 := by
  generalize hv : Value.record fields = v at h
  cases h with
  | scalar => cases hv
  | list => cases hv
  | @record _ fields' ne keys nodup values =>
    have hentries : fields.entries = Fields.entries fields' := Value.map.inj hv
    have hsame : fields = fields' :=
      List.map_injective_iff.2 (fun f f' hf => by simpa [Prod.ext_iff] using hf) hentries
    rw [hsame]
    exact ⟨ne, keys, nodup, values⟩

theorem Fits.scans {n : Nat} {v : Value} (h : Fits n v) : Scan.Scans n v := by
  induction h with
  | scalar exportable room => exact .scalar exportable room
  | list ne keys _ _ ih => exact .list ne keys ih
  | record ne keys _ _ ih => exact .record ne keys ih

namespace Scan

theorem Arrives.yields_end {s : Scan} {ts : List Token} (h : s.Arrives 0 [] ts [0]) :
    s.Yields (Token.blockEnd :: ts).reverse := by
  obtain ⟨c, hat, -, -, hnext⟩ := h.next_eq (by simp)
  have hend : (idle c ts [0] true).here = .ok ({ (idle c ts [0] true).closeAll with
      key := none }, false) := by
    rw [here, show (idle c ts [0] true).cursor.ahead = [] from hat.ahead]
    rfl
  exact Yields.of_end (hnext.trans hend)

end Scan

theorem start_at {cs : List Char} (h : cs.head? ≠ some '\uFEFF') :
    (Cursor.start cs).At cs ∧ (Cursor.start cs).column = 0 := by
  unfold Cursor.start
  split
  · exact absurd rfl h
  · exact ⟨⟨rfl, rfl⟩, rfl⟩

/-- the tokens of a written record are those of its value -/
theorem tokens_document {fields : Fields} (h : Fits 0 (.record fields)) :
    tokens (document fields.entries) none = blockTokens (.record fields) := by
  obtain ⟨hne, hkeys, -, hvalues⟩ := h.of_record
  have hlayout : document fields.entries =
      lines 0 (entryLayouts 0 fields.entries) ++ (newLine 0 ++ []) := by
    rw [document, if_neg (by simpa [Fields.entries] using hne)]
    rfl
  obtain ⟨w, rest, hw, hlines⟩ := Scan.exists_key hne hkeys 0 (newLine 0 ++ [])
  obtain ⟨hstart, hcolumn⟩ := start_at (hw.head_ne_mark rest)
  have harrives : (Scan.idle (.start (w.toList ++ rest)) [] [] true).Arrives 0
      (w.toList ++ rest) [] [] := by
    have hzero : (Cursor.start (w.toList ++ rest)).At (blanks 0 ++ (w.toList ++ rest)) := hstart
    have hblanks := Scan.arrives_blanks [] [] hzero (hw.starts rest)
    rwa [Nat.add_zero, hcolumn] at hblanks
  rw [← hlines] at harrives hstart
  obtain ⟨t, hend, hyields⟩ := harrives.leads_entries hne hkeys
    (fun f hf => ((hvalues f hf).mono (Nat.zero_le _)).scans) (by simp) le_rfl
    ⟨by simp [IsSolid], by simp, rfl⟩
  have htokens := hyields _ hend.yields_end _
    (show (Cursor.start _).left < _ by rw [hstart.left]; exact Nat.lt_succ_self _)
  rw [hlayout]
  refine htokens.trans ?_
  simp [Scan.withMapping, Value.record, blockTokens, Fields.entries]

end LinkedCalls.Yaml
