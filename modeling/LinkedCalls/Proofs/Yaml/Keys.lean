import LinkedCalls.Proofs.Yaml.Scan
import LinkedCalls.Yaml.Layout

/-!
Scalars and keys among the tokens. A scalar beside a key is scanned from its layout up to the next
line, whatever quotes it is written in. A name that is written as it is and followed by a colon gives
its mapping first, then the key.
-/
namespace LinkedCalls.Yaml

namespace Scan

/-- a scan that arrives at `rest` in column `m` yields what `s` yields -/
def Leads (s : Scan) (m : Nat) (rest : List Char) (ts : List Token) (blocks : List Nat) : Prop :=
  ∃ t : Scan, t.Arrives m rest ts blocks ∧ ∀ out, t.Yields out → s.Yields out

section Leads

variable {s t : Scan} {m : Nat} {rest : List Char} {ts : List Token} {blocks : List Nat}

theorem Arrives.leads (h : s.Arrives m rest ts blocks) : s.Leads m rest ts blocks :=
  ⟨s, h, fun _ => id⟩

theorem Leads.of_yields (h : t.Leads m rest ts blocks)
    (hyields : ∀ out, t.Yields out → s.Yields out) : s.Leads m rest ts blocks := by
  obtain ⟨u, hu, hout⟩ := h
  exact ⟨u, hu, fun out h => hyields out (hout out h)⟩

theorem Leads.of_next (h : t.Leads m rest ts blocks) (hnext : s.next = .ok (t, true))
    (hleft : t.cursor.left < s.cursor.left) : s.Leads m rest ts blocks :=
  h.of_yields fun _ hout => hout.of_next hnext hleft

end Leads

theorem starts_of_startsPlain {cs : List Char} (h : startsPlain false cs = true) : Starts cs := by
  cases cs with
  | nil => cases h
  | cons x xs =>
    have hhead : (isSpace x = false ∧ isBreak x = false ∧ x ∉ signs) ∨
        x = '-' ∨ x = '?' ∨ x = ':' := by
      simp only [startsPlain, Bool.or_eq_true, Bool.and_eq_true, Bool.not_eq_true',
        Bool.or_eq_false_iff, beq_iff_eq, Bool.not_false, Bool.true_and] at h
      rcases h with ⟨⟨hspace, hbreak⟩, hsigns⟩ | ⟨-, hsign⟩
      · exact .inl ⟨hspace, hbreak, by simpa using hsigns⟩
      · exact .inr hsign
    refine ⟨fun c hc => ?_, fun hmark => ?_⟩
    · obtain rfl : x = c := by simpa using hc
      rcases hhead with ⟨hspace, hbreak, -⟩ | rfl | rfl | rfl
      · exact ⟨hspace, hbreak⟩
      all_goals decide
    · obtain rfl : x = '#' := by simpa using hmark
      rcases hhead with ⟨-, -, hsigns⟩ | h | h | h
      · exact hsigns (by decide)
      all_goals exact absurd h (by decide)

section Scalar

variable {c : Cursor} {ts : List Token} {blocks : List Nat} {n m indent column : Nat} {s : Scalar}
  {rest : List Char}

variable (ts blocks) in
theorem token_plain (hs : Exportable s) (hplain : isPlain s = true)
    (h : c.At (scalarLayout indent column s ++ (newLine m ++ rest))) (hcolumn : n < c.column)
    (hindent : n < indent) (hm : m ≤ n) (hrest : Follows m rest) :
    ∃ d : Cursor, (idle c ts (n :: blocks) false).token =
        .ok (idle d (.scalar (scalarText s) true :: ts) (n :: blocks) true) ∧
      d.At rest ∧ d.column = m := by
  obtain ⟨rs, hline, htexts, hlayout⟩ := exists_plainLine hs hplain
  obtain ⟨hwritten, hstarts⟩ := hlayout indent column
  rw [hwritten] at h
  obtain ⟨d, hd, hat, hdcolumn⟩ : ∃ d, plainScalar false (n + 1) c = ⟨Run.texts rs, d, true⟩ ∧
      d.At rest ∧ d.column = m :=
    hline.plainScalar_layout hindent (by omega) hcolumn hrest (.inr (by omega)) h
  refine ⟨d, ?_, hat, hdcolumn⟩
  have hstarts := hstarts (newLine m ++ rest)
  obtain ⟨x, xs, hcons⟩ : ∃ x xs, Run.layout id indent column true rs ++ (newLine m ++ rest) =
      x :: xs := List.exists_cons_of_ne_nil (by simp [newLine])
  rw [hcons] at hstarts
  have hahead : (idle c ts (n :: blocks) false).cursor.ahead = x :: xs := h.ahead.trans hcons
  rw [token_of_startsPlain hahead rfl hstarts (fun hzero => absurd hzero (by simp [idle]; omega))]
  have hread : plainScalar false (n + 1) c = ⟨scalarText s, d, true⟩ := htexts ▸ hd
  have hmark : (idle c ts (n :: blocks) false).markKey = .ok (idle c ts (n :: blocks) false) := rfl
  have hleast : (idle c ts (n :: blocks) false).least = n + 1 := rfl
  have hflow : (idle c ts (n :: blocks) false).inFlow = false := rfl
  have hcursor : (idle c ts (n :: blocks) false).cursor = c := rfl
  simp only [plain, hmark, bind, Except.bind, hleast, hflow, hcursor, hread]
  rfl

theorem isSingleText_of_style {cs : List Char} (h : Style.ofText cs = .single) :
    IsSingleText cs := by
  have hallows : Style.allowsSingle cs = true := by
    unfold Style.ofText at h
    split_ifs at h with hplain hsingle
    exact hsingle
  simp only [Style.allowsSingle, Style.hasRaggedLine, Bool.and_eq_true, List.all_eq_true,
    Bool.or_eq_true, beq_iff_eq, Bool.not_eq_true', Bool.or_eq_false_iff] at hallows
  exact ⟨hallows.1, hallows.2.1, hallows.2.2⟩

theorem exists_text_of_not_plain (h : isPlain s = false) :
    ∃ t, s = .text t ∧ Style.ofText t.toList ≠ .plain := by
  cases s with
  | text t => exact ⟨t, rfl, by simpa [isPlain] using h⟩
  | _ => cases h

variable (column) in
theorem exists_quoted {t : String} (hstyle : Style.ofText t.toList ≠ .plain) (hindent : 0 < indent)
    (hwidth : indent < width) (rest : List Char) (hrest : rest.head? ≠ some '\'') :
    ∃ double text, scalarLayout indent column (.text t) ++ rest =
        (if double then '"' else '\'') :: text ∧
      ReadsQuoted double text t.toList rest := by
  cases h : Style.ofText t.toList with
  | plain => exact absurd h hstyle
  | single =>
    have hsingle : IsSingleText t.toList := isSingleText_of_style h
    have hreads := ReadsQuoted.layout_single hindent hrest (Run.cut_ofText t.toList)
      ((Run.texts_ofText t.toList).symm ▸ hsingle) (column + 1) true
    rw [Run.texts_ofText] at hreads
    exact ⟨false, _, by simp [scalarLayout, textLayout, h], hreads⟩
  | double =>
    have hreads := ReadsQuoted.layout_double hindent hwidth t.toList rest (column + 1)
    exact ⟨true, _, by simp [scalarLayout, textLayout, h], hreads⟩

theorem starts_scalar (hs : Exportable s) (hindent : 0 < indent) (hwidth : indent < width) :
    Starts (scalarLayout indent column s ++ (newLine m ++ rest)) := by
  cases hplain : isPlain s with
  | true =>
    obtain ⟨rs, -, -, hlayout⟩ := exists_plainLine hs hplain
    obtain ⟨hwritten, hstarts⟩ := hlayout indent column
    rw [hwritten]
    exact starts_of_startsPlain (hstarts _)
  | false =>
    obtain ⟨t, rfl, hstyle⟩ := exists_text_of_not_plain hplain
    obtain ⟨double, text, htext, -⟩ := exists_quoted column hstyle hindent hwidth
      (newLine m ++ rest) (by simp [newLine])
    rw [htext]
    exact .of_cons (by cases double <;> decide) (by cases double <;> decide)

variable (ts blocks) in
theorem token_quoted (hs : isPlain s = false)
    (h : c.At (scalarLayout indent column s ++ (newLine m ++ rest))) (hindent : 0 < indent)
    (hwidth : indent < width) :
    ∃ d : Cursor, (idle c ts blocks false).token =
        .ok (idle d (.scalar (scalarText s) false :: ts) blocks false) ∧
      d.At (newLine m ++ rest) := by
  obtain ⟨t, rfl, hstyle⟩ := exists_text_of_not_plain hs
  obtain ⟨double, text, htext, hreads⟩ := exists_quoted column hstyle hindent hwidth
    (newLine m ++ rest) (by simp [newLine])
  rw [htext] at h
  obtain ⟨d, hat, hread⟩ := hreads c.step h.step
  refine ⟨d, ?_, hat⟩
  have hscalar : quotedToken double c = .ok (.scalar t.toList false, d) := by
    have hleft := h.left
    rw [List.length_cons] at hleft
    rw [quotedToken, quotedScalar, hread (c.left + 1) (by omega)]
    rfl
  have hleaf : (idle c ts blocks false).leaf (quotedToken double) =
      .ok (idle d (.scalar t.toList false :: ts) blocks false) := by
    have hmark : (idle c ts blocks false).markKey = .ok (idle c ts blocks false) := rfl
    have hcursor : (idle c ts blocks false).cursor = c := rfl
    simp only [leaf, hmark, bind, Except.bind, hcursor, hscalar]
    rfl
  cases double with
  | false => rw [token_quote (s := idle c ts blocks false) h.ahead, hleaf]; rfl
  | true => rw [token_doubleQuote (s := idle c ts blocks false) h.ahead, hleaf]; rfl

variable (ts blocks) in
theorem next_blank (b : Bool) (h : c.At (' ' :: rest)) (hrest : Starts rest) (hn : n ≤ c.column) :
    (idle c ts (n :: blocks) b).next = (idle c.step ts (n :: blocks) b).here := by
  have hstep := Cursor.step_column h.ahead (by decide) (by decide)
  have hblanks : (idle c ts (n :: blocks) b).next =
      ((idle c.step ts (n :: blocks) b).closeTo c.step.column).here :=
    next_blanks (k := 1) h hrest
  rwa [closeTo_of_le (s := idle c.step ts (n :: blocks) b)
    (by simp only [idle, List.head?_cons, Option.mem_some_iff, forall_eq']; omega)] at hblanks

/-- a scalar beside a key is read up to the next line -/
theorem leads_scalar (hs : Exportable s)
    (h : c.At (' ' :: scalarLayout (n + 2) column s ++ (newLine m ++ rest)))
    (hcolumn : n ≤ c.column) (hwidth : n + 2 < width) (hm : m ≤ n) (hrest : Follows m rest) :
    (idle c ts (n :: blocks) false).Leads m rest (.scalar (scalarText s) (isPlain s) :: ts)
      (n :: blocks) := by
  have hstep : c.step.column = c.column + 1 := Cursor.step_column h.ahead (by decide) (by decide)
  have hat : c.step.At (scalarLayout (n + 2) column s ++ (newLine m ++ rest)) := h.step
  have hnext := next_blank ts blocks false h
    (starts_scalar hs (by omega) hwidth) hcolumn
  have hahead : c.step.ahead ≠ [] := by simp [hat.ahead, newLine]
  have hleft := h.left
  simp only [List.cons_append, List.length_cons, List.length_append] at hleft
  cases hplain : isPlain s with
  | true =>
    obtain ⟨d, htoken, hd, hdcolumn⟩ := token_plain ts blocks hs hplain hat
      (show n < c.step.column by omega) (by omega) hm hrest
    have hzero : d.At (blanks 0 ++ rest) := hd
    have harrives := arrives_blanks (.scalar (scalarText s) true :: ts) (n :: blocks) hzero
      (starts_of_follows hrest)
    rw [hdcolumn] at harrives
    refine harrives.leads.of_next (hnext.trans (here_of_token hahead htoken)) ?_
    show d.left < c.left
    rw [hd.left]
    omega
  | false =>
    obtain ⟨d, htoken, hd⟩ := token_quoted ts (n :: blocks) hplain hat
      (by omega) hwidth
    have harrives := arrives_newLine (.scalar (scalarText s) false :: ts) (n :: blocks) false hd
      (starts_of_follows hrest)
    refine harrives.leads.of_next (hnext.trans (here_of_token hahead htoken)) ?_
    show d.left < c.left
    rw [hd.left, List.length_append]
    omega

end Scalar

/-- names that are written as they are and read as one word, whatever comes after -/
structure IsKey (w : String) : Prop where
  plain : Style.ofText w.toList = .plain
  word : ' ' ∉ w.toList
  head : w.toList.head? ≠ some '-' ∧ w.toList.head? ≠ some '.'
  short : w.toList.length ≤ longestKey

instance (w : String) : Decidable (IsKey w) :=
  decidable_of_iff (Style.ofText w.toList = .plain ∧ ' ' ∉ w.toList ∧
      (w.toList.head? ≠ some '-' ∧ w.toList.head? ≠ some '.') ∧ w.toList.length ≤ longestKey)
    ⟨fun ⟨plain, word, head, short⟩ => ⟨plain, word, head, short⟩,
      fun h => ⟨h.plain, h.word, h.head, h.short⟩⟩

namespace IsKey

variable {w : String}

theorem exportable (w : String) : Exportable (.text w) :=
  ⟨rfl, fun _ h => by cases h⟩

theorem isPlain (h : IsKey w) : isPlain (.text w) = true := by simp [Yaml.isPlain, h.plain]

theorem line_eq {rs : List Run} (h : IsPlainLine rs) (hword : ' ' ∉ Run.texts rs) :
    rs = [.word (Run.texts rs)] ∧ IsPlainWord (Run.texts rs) := by
  cases h with
  | last word ne => simpa [Run.text] using word
  | @goOn w n rs word ne hn mark rest =>
    obtain ⟨k, rfl⟩ := Nat.exists_eq_succ_of_ne_zero hn
    exact absurd (by simp [Run.text, blanks]) hword

theorem layout (h : IsKey w) : IsPlainWord w.toList ∧
    (∀ indent, keyLayout indent (.text w) = w.toList ++ [':']) ∧
      ∀ tail, startsPlain false (w.toList ++ tail) = true := by
  obtain ⟨rs, hline, htexts, hlayout⟩ := exists_plainLine (exportable w) h.isPlain
  have htexts : Run.texts rs = w.toList := htexts
  obtain ⟨hrs, hword⟩ := line_eq hline (htexts ▸ h.word)
  rw [htexts] at hrs hword
  refine ⟨hword, fun indent => ?_, fun tail => ?_⟩
  · rw [keyLayout, (hlayout indent indent).1, hrs]
    simp [Run.layout]
  · have hstarts := (hlayout 0 0).2 tail
    rw [hrs] at hstarts
    simpa [Run.layout] using hstarts

theorem ne_nil (h : IsKey w) : w.toList ≠ [] := by
  intro hnil
  have hstarts := h.layout.2.2 []
  rw [hnil] at hstarts
  cases hstarts

theorem documentMark (h : IsKey w) (tail : List Char) :
    documentMark (w.toList ++ tail) = false := by
  obtain ⟨x, xs, hx⟩ := List.exists_cons_of_ne_nil h.ne_nil
  obtain ⟨hminus, hpoint⟩ := h.head
  rw [hx] at hminus hpoint
  rw [hx, List.cons_append]
  unfold Yaml.documentMark
  split
  · next heq => exact absurd (congrArg List.head? heq) (by simpa using hminus)
  · next heq => exact absurd (congrArg List.head? heq) (by simpa using hpoint)
  · rfl

theorem starts (h : IsKey w) (tail : List Char) : Starts (w.toList ++ tail) :=
  starts_of_startsPlain (h.layout.2.2 tail)

theorem follows (h : IsKey w) (m : Nat) (tail : List Char) : Follows m (w.toList ++ tail) where
  solid := (h.starts tail).solid
  comment := (h.starts tail).comment
  mark := by
    rcases Nat.eq_zero_or_pos m with rfl | hm
    · exact h.documentMark tail
    · exact documentMark_blanks hm _

theorem head_ne_mark (h : IsKey w) (tail : List Char) :
    (w.toList ++ tail).head? ≠ some '\uFEFF' := by
  obtain ⟨x, xs, hx⟩ := List.exists_cons_of_ne_nil h.ne_nil
  have hinline := (h.layout.1.isInline x (by simp [hx])).2
  simpa [hx] using hinline

end IsKey

def withMapping (n : Nat) (ts : List Token) (blocks : List Nat) : List Token × List Nat :=
  if blocks.head? = some n then (ts, blocks) else (.blockMapping :: ts, n :: blocks)

section Key

variable {s : Scan} {w : String} {n : Nat} {xs : List Char} {ts : List Token} {blocks : List Nat}

def remembering (c : Cursor) (w : List Char) (ts : List Token) (blocks : List Nat) : Scan where
  cursor := c.steps w.length
  tokens := .scalar w true :: ts
  count := ts.length + 1
  blocks := blocks
  keyAllowed := false
  key := some ⟨ts.length, blocks.head? == some c.column, c.index, c.line, c.column⟩
  outerKeys := []

theorem token_key {c : Cursor} (hw : IsKey w) (hxs : endsWord xs = true)
    (h : c.At (w.toList ++ ':' :: xs)) :
    (idle c ts blocks true).token = .ok (remembering c w.toList ts blocks) := by
  obtain ⟨hword, -, hstarts⟩ := hw.layout
  have hstarts := hstarts (':' :: xs)
  have hmark := hw.documentMark (':' :: xs)
  have hread : ∀ least, plainScalar false least c = ⟨w.toList, c.steps w.toList.length, false⟩ :=
    fun least => plainScalar_word hword hxs h
  obtain ⟨x, ys, hcons⟩ : ∃ x ys, w.toList ++ ':' :: xs = x :: ys :=
    List.exists_cons_of_ne_nil (by simp)
  rw [hcons] at hstarts hmark
  rw [token_of_startsPlain (s := idle c ts blocks true) (h.ahead.trans hcons) rfl hstarts
    fun _ => hmark]
  have hmarked : (idle c ts blocks true).markKey = .ok { idle c ts blocks true with
      key := some ⟨ts.length, blocks.head? == some c.column, c.index, c.line, c.column⟩ } := rfl
  have hflow : (idle c ts blocks true).inFlow = false := rfl
  simp only [plain, hmarked, bind, Except.bind]
  rw [show (idle c ts blocks true).cursor = c from rfl]
  simp only [inFlow, idle, List.isEmpty_nil, Bool.not_true, hread]
  rfl

theorem stale_remembering {c : Cursor} (hw : IsKey w) (h : c.At (w.toList ++ ':' :: xs)) :
    (remembering c w.toList ts blocks).stale
      ⟨ts.length, blocks.head? == some c.column, c.index, c.line, c.column⟩ = false := by
  have hline := Cursor.steps_line h.ahead hw.layout.1.isInline
  have hindex := Cursor.steps_index h.ahead
  have hshort := hw.short
  simp only [stale, remembering, hline, hindex, bne_self_eq_false, Bool.false_or,
    decide_eq_false_iff_not, not_lt]
  omega

theorem deeper_eq (hblocks : ∀ b ∈ s.blocks.head?, b ≤ n) :
    s.deeper n = !decide (s.blocks.head? = some n) := by
  unfold deeper
  cases h : s.blocks with
  | nil => rfl
  | cons b bs =>
    rcases Nat.lt_or_eq_of_le (hblocks b (by simp [h])) with hlt | rfl
    · simp [hlt, Nat.ne_of_lt hlt]
    · simp

theorem mappingValue_remembering {c : Cursor} (w : List Char)
    (hblocks : ∀ b ∈ blocks.head?, b ≤ c.column) :
    (remembering c w ts blocks).mappingValue = .ok (idle (c.steps w.length).step
      (.value :: .scalar w true :: .key :: (withMapping c.column ts blocks).1)
      (withMapping c.column ts blocks).2 false) := by
  have hfirst : ts.length + 1 - ts.length = 1 := by omega
  have hsecond : ts.length + 1 + 1 - ts.length = 2 := by omega
  simp only [mappingValue, remembering, settleKey, insertAfter, inFlow, hfirst, hsecond]
  -- the key goes before its word, and the start of the mapping before the key
  rw [deeper_eq hblocks]
  by_cases hhead : blocks.head? = some c.column <;>
    simp [hhead, withMapping, push, skip, idle, Cursor.steps]

theorem next_colon {t : Scan} {k : KeyPlace} (h : s.cursor.At (':' :: xs))
    (hkey : s.key = some k) (houter : s.outerKeys = []) (hstale : s.stale k = false)
    (hblocks : ∀ b ∈ s.blocks.head?, b ≤ s.cursor.column) (hxs : endsWord xs = true)
    (ht : s.mappingValue = .ok t) : s.next = .ok (t, true) := by
  have hstarts : Starts (':' :: xs) := .of_cons (by decide) (by decide)
  have hblanks : s.toNextToken (s.cursor.left + 1) = s :=
    toNextToken_blanks (k := 0) h hstarts s.cursor.left
  have hforget : s.forgetStale = .ok s := by
    have hsame : s.forget s.key = .ok s.key := by simp [forget, hkey, hstale]
    have hnone : s.outerKeys.mapM s.forget = .ok s.outerKeys := by
      rw [houter]
      rfl
    rw [forgetStale, hsame, hnone]
    rfl
  have hclose : s.closeBlocks = s := by
    rw [closeBlocks, closeTo_of_le hblocks]
    split_ifs <;> rfl
  have htoken : s.token = .ok t := (token_colon h.ahead hxs).trans ht
  rw [next, hblanks, hforget]
  show s.closeBlocks.here = _
  rw [hclose]
  exact here_of_token (by simp [h.ahead]) htoken

/-- a key with the colon behind it opens a mapping unless one is open in its column -/
theorem Arrives.yields_key (hw : IsKey w) (hxs : endsWord xs = true)
    (h : s.Arrives n (w.toList ++ ':' :: xs) ts blocks) (hblocks : ∀ b ∈ blocks.head?, b ≤ n) :
    ∃ c : Cursor, c.At xs ∧ n < c.column ∧ ∀ out,
      (idle c (.value :: .scalar w.toList true :: .key :: (withMapping n ts blocks).1)
        (withMapping n ts blocks).2 false).Yields out → s.Yields out := by
  obtain ⟨c, hat, rfl, hleft, hnext⟩ := h.next_eq hblocks
  have hword : IsInline w.toList := hw.layout.1.isInline
  have hafter : (c.steps w.toList.length).At (':' :: xs) := hat.steps
  have hcolumn := Cursor.steps_column hat.ahead hword
  have hstep := Cursor.step_column hafter.ahead (by decide) (by decide)
  refine ⟨(c.steps w.toList.length).step, hafter.step, by omega, fun out hout => ?_⟩
  have hfirst : s.next = .ok (remembering c w.toList ts blocks, true) :=
    hnext.trans (here_of_token (by simp [idle, hat.ahead]) (token_key hw hxs hat))
  have hsecond : (remembering c w.toList ts blocks).next = .ok (_, true) :=
    next_colon hafter rfl rfl (stale_remembering hw hat)
      (fun b hb => (hblocks b hb).trans (hcolumn ▸ Nat.le_add_right _ _)) hxs
      (mappingValue_remembering w.toList hblocks)
  have hlength := hat.left
  rw [List.length_append] at hlength
  refine (hout.of_next hsecond ?_).of_next hfirst ?_
  · show (c.steps w.toList.length).step.left < (c.steps w.toList.length).left
    rw [hafter.left, hafter.step.left]
    simp
  · show (c.steps w.toList.length).left < s.cursor.left
    have hpos := List.length_pos_iff.2 hw.ne_nil
    rw [hafter.left]
    omega

end Key

end Scan

end LinkedCalls.Yaml
