import LinkedCalls.Proofs.Yaml.Cursor
import LinkedCalls.Yaml.Style
import LinkedCalls.Yaml.Token.Plain

/-!
Plain scalars read back. A text that may stand without quotes is read from its own layout, with the
lines it was folded over joined again, up to the line end or the colon behind it.
-/
namespace LinkedCalls.Yaml

@[simp] theorem length_blanks (n : Nat) : (blanks n).length = n := List.length_replicate

theorem eq_blank_of_mem {n : Nat} {x : Char} (h : x ∈ blanks n) : x = ' ' :=
  List.eq_of_mem_replicate h

theorem isInline_blanks (n : Nat) : IsInline (blanks n) := fun x hx => by
  simp [eq_blank_of_mem hx]

theorem not_blank_of_isVisible {c : Char} (h : Style.isVisible c = true) (hc : c ≠ ' ') :
    isSpace c = false ∧ isBreak c = false ∧ c ≠ '\uFEFF' := by
  refine ⟨?_, ?_, ?_⟩
  · by_contra hspace
    simp only [isSpace, Bool.not_eq_false, Bool.or_eq_true, beq_iff_eq] at hspace
    rcases hspace with rfl | rfl
    · exact hc rfl
    · exact absurd h (by decide)
  · by_contra hbreak
    simp only [isBreak, Bool.not_eq_false, Bool.or_eq_true, beq_iff_eq] at hbreak
    rcases hbreak with ((rfl | rfl) | rfl) | rfl <;> exact absurd h (by decide)
  · rintro rfl
    exact absurd h (by decide)

namespace Run

def text : Run → List Char
  | .word cs => cs
  | .blanks n => Yaml.blanks n
  | .breaks n => List.replicate n '\n'

def texts (rs : List Run) : List Char := rs.flatMap text

def takes : Run → Char → Bool
  | .word _, c => c != ' ' && c != '\n'
  | .blanks _, c => c == ' '
  | .breaks _, c => c == '\n'

/-- each run takes all it can -/
def Cut : List Run → Prop
  | [] => True
  | r :: rs => r.text ≠ [] ∧ (∀ c ∈ r.text, r.takes c = true) ∧
      (∀ c ∈ (texts rs).head?, r.takes c = false) ∧ Cut rs

@[simp] theorem texts_nil : texts [] = [] := rfl

@[simp] theorem texts_cons (r : Run) (rs : List Run) : texts (r :: rs) = r.text ++ texts rs := rfl

theorem texts_add (c : Char) (rs : List Run) : texts (add c rs) = c :: texts rs := by
  unfold add
  split_ifs with hblank hbreak
  · subst hblank
    split
    · simp [text, Yaml.blanks, List.replicate_succ]
    · simp [text, Yaml.blanks]
  · subst hbreak
    split <;> simp [text, List.replicate_succ]
  · split <;> simp [text]

theorem Cut.takes_head {r : Run} {rs : List Run} (h : Cut (r :: rs)) :
    ∀ c ∈ (texts (r :: rs)).head?, r.takes c = true := by
  obtain ⟨hne, htakes, -⟩ := h
  obtain ⟨x, xs, hx⟩ := List.exists_cons_of_ne_nil hne
  intro c hc
  rw [texts_cons, hx, List.cons_append, List.head?_cons, Option.mem_some_iff] at hc
  exact htakes c (by rw [hx, hc]; simp)

theorem Cut.blanks_ne_zero {n : Nat} {rs : List Run} (h : Cut (.blanks n :: rs)) : n ≠ 0 := by
  rintro rfl
  exact absurd rfl h.1

theorem Cut.breaks_ne_zero {n : Nat} {rs : List Run} (h : Cut (.breaks n :: rs)) : n ≠ 0 := by
  rintro rfl
  exact absurd rfl h.1

theorem Cut.neighbours {r s : Run} {rs : List Run} (h : Cut (r :: s :: rs)) :
    ∃ x, (texts (s :: rs)).head? = some x ∧ s.takes x = true ∧ r.takes x = false := by
  obtain ⟨-, -, hnext, hrest⟩ := h
  obtain ⟨x, xs, hx⟩ := List.exists_cons_of_ne_nil hrest.1
  have hhead : (texts (s :: rs)).head? = some x := by simp [hx]
  exact ⟨x, hhead, hrest.takes_head x hhead, hnext x hhead⟩

theorem Cut.cons {r : Run} {rs : List Run} {c : Char} (h : Cut rs) (htext : r.text = [c])
    (htakes : r.takes c = true)
    (hnext : ∀ s ∈ rs.head?, ∀ d, s.takes d = true → r.takes d = false) : Cut (r :: rs) := by
  refine ⟨by simp [htext], by simpa [htext] using htakes, fun d hd => ?_, h⟩
  cases rs with
  | nil => simp at hd
  | cons s rs => exact hnext s rfl d (h.takes_head d hd)

theorem Cut.add {rs : List Run} (h : Cut rs) (c : Char) : Cut (add c rs) := by
  unfold Run.add
  split_ifs with hblank hbreak
  · subst hblank
    split
    · exact ⟨by simp [text, Yaml.blanks], by simp [text, takes, Yaml.blanks], h.2.2.1, h.2.2.2⟩
    · next hne =>
      refine h.cons rfl rfl fun s hs d hd => ?_
      cases s <;> simp_all [takes, List.head?_eq_some_iff]
  · subst hbreak
    split
    · exact ⟨by simp [text], by simp [text, takes], h.2.2.1, h.2.2.2⟩
    · next hne =>
      refine h.cons rfl rfl fun s hs d hd => ?_
      cases s <;> simp_all [takes, List.head?_eq_some_iff]
  · split
    · next cs rs =>
      refine ⟨by simp [text], fun d hd => ?_, h.2.2.1, h.2.2.2⟩
      rcases List.mem_cons.1 hd with rfl | hd
      · simp [takes, hblank, hbreak]
      · exact h.2.1 d hd
    · next hne =>
      refine h.cons rfl (by simp [takes, hblank, hbreak]) fun s hs d hd => ?_
      cases s <;> simp_all [takes, List.head?_eq_some_iff]

theorem texts_ofText (cs : List Char) : texts (ofText cs) = cs := by
  induction cs with
  | nil => rfl
  | cons c cs ih => rw [ofText, List.foldr_cons, texts_add, ← ofText, ih]

theorem cut_ofText (cs : List Char) : Cut (ofText cs) := by
  induction cs with
  | nil => exact trivial
  | cons c cs ih => exact ih.add c

end Run

/-- a word that a plain scalar may hold -/
structure IsPlainWord (w : List Char) : Prop where
  visible : ∀ c ∈ w, Style.isVisible c = true ∧ c ≠ ' '
  last : w.getLast? ≠ some ':'

namespace IsPlainWord

variable {w tail : List Char} {x : Char}

theorem of_all (h : w.all (fun c => Style.isVisible c && c != ' ') = true)
    (last : w.getLast? ≠ some ':') : IsPlainWord w where
  visible c hc := by simpa using List.all_eq_true.1 h c hc
  last := last

theorem of_cons (h : IsPlainWord (x :: w)) : IsPlainWord w where
  visible c hc := h.visible c (by simp [hc])
  last := by
    cases w with
    | nil => simp
    | cons y w => simpa using h.last

theorem isSolid (h : IsPlainWord (x :: w)) (tail : List Char) : IsSolid (x :: w ++ tail) := by
  intro c hc
  obtain rfl : x = c := by simpa using hc
  obtain ⟨hspace, hbreak, -⟩ :=
    not_blank_of_isVisible (h.visible x (by simp)).1 (h.visible x (by simp)).2
  exact ⟨hspace, hbreak⟩

theorem isInline (h : IsPlainWord w) : IsInline w := fun x hx =>
  (not_blank_of_isVisible (h.visible x hx).1 (h.visible x hx).2).2

theorem not_endsPlain (h : IsPlainWord (x :: w)) (tail : List Char) :
    endsPlain false (x :: w ++ tail) = false := by
  obtain ⟨hspace, hbreak⟩ := h.isSolid tail x rfl
  cases w with
  | nil =>
    have hcolon : x ≠ ':' := by simpa using h.last
    simp [endsPlain, hspace, hbreak, hcolon]
  | cons y w =>
    obtain ⟨hspace', hbreak'⟩ := h.of_cons.isSolid tail y rfl
    simp [endsPlain, endsWord, hspace, hbreak, hspace', hbreak']

theorem plainRun (h : IsPlainWord w) (htail : endsPlain false tail = true) :
    plainRun false (w ++ tail) = w := by
  induction w with
  | nil => cases tail <;> simp_all [Yaml.plainRun]
  | cons x w ih =>
    have hgoes := h.not_endsPlain tail
    simp only [List.cons_append] at hgoes ⊢
    rw [Yaml.plainRun, hgoes, if_neg (by simp), ih h.of_cons]

end IsPlainWord

section Gap

variable {c : Cursor} {m : Nat} {rest : List Char}

theorem gap_blanks (h : c.At (blanks m ++ rest)) (hrest : IsSolid rest) :
    gap c = ⟨blanks m, c.steps m, false⟩ := by
  have hspan := h.span (p := (· == ' ')) (fun x hx => by simp [eq_blank_of_mem hx]) fun y hy => ?_
  · have hafter : (c.steps m).At rest := by simpa using h.steps
    rw [gap, hspan]
    simp [hafter.lineBreak?_none hrest]
  · by_contra hblank
    simp only [Bool.not_eq_false, beq_iff_eq] at hblank
    exact absurd (hrest y hy).1 (by simp [hblank])

theorem gapBreaks_blanks (h : c.At (blanks m ++ rest)) (hrest : IsSolid rest)
    (hmark : documentMark (blanks m ++ rest) = false) :
    gapBreaks c.left c = (some [], c.steps m) := by
  cases hleft : c.left with
  | zero =>
    obtain rfl : m = 0 := by
      have := h.left
      simp at this
      omega
    rfl
  | succ fuel =>
    have hafter : (c.steps m).At rest := by simpa using h.steps
    have hskip : c.skipBlanks = c.steps m := h.skipBlanks hrest
    simp [gapBreaks, h.ahead, hmark, hskip, hafter.lineBreak?_none hrest]

theorem gap_newLine (h : c.At (newLine m ++ rest)) (hrest : IsSolid rest)
    (hmark : documentMark (blanks m ++ rest) = false) :
    ∃ d, gap c = ⟨[' '], d, true⟩ ∧ d.At rest ∧ d.column = m := by
  have hnext : c.At ('\n' :: (blanks m ++ rest)) := by simpa [newLine] using h
  have hafter : (c.step.steps m).At rest := by simpa using hnext.step.steps
  have hspan : c.span (· == ' ') = ([], c) := hnext.span_none (by simp)
  refine ⟨c.step.steps m, ?_, hafter, ?_⟩
  · rw [gap, hspan]
    simp [hnext.lineBreak?_newline, gapBreaks_blanks hnext.step hrest hmark, foldedBreaks]
  · have hcolumn := Cursor.steps_column hnext.step.ahead (isInline_blanks m)
    simpa [Cursor.step_column_newline hnext.ahead] using hcolumn

end Gap

/-- a plain scalar whose lines start at `least` or deeper does not go on after a gap -/
def Gap.Ends (least : Nat) (g : Gap) : Prop :=
  g.text = [] ∨ g.after.column < least ∨ endsPlain false g.after.ahead = true

section Parts

variable {c d : Cursor} {least fuel : Nat} {w tail : List Char}

theorem plainParts_last (h : c.At (w ++ tail)) (hw : IsPlainWord w)
    (htail : endsPlain false tail = true) (hends : (gap (c.steps w.length)).Ends least) :
    plainParts false least (fuel + 1) c =
      ⟨w, (gap (c.steps w.length)).after, (gap (c.steps w.length)).broken⟩ := by
  rw [plainParts, h.ahead, hw.plainRun htail]
  rcases hends with hempty | hcolumn | hplain
  · simp [hempty]
  · simp [hcolumn]
  · simp [hplain]

theorem plainParts_goOn (h : c.At (w ++ tail)) (hw : IsPlainWord w)
    (htail : endsPlain false tail = true) {sep : List Char} {broken : Bool}
    (hgap : gap (c.steps w.length) = ⟨sep, d, broken⟩) (hsep : sep ≠ [])
    (hmark : d.ahead.head? ≠ some '#') (hcolumn : least ≤ d.column)
    (hnext : endsPlain false d.ahead = false) :
    plainParts false least (fuel + 1) c =
      ⟨w ++ sep ++ (plainParts false least fuel d).text, (plainParts false least fuel d).after,
        (plainParts false least fuel d).newLine⟩ := by
  rw [plainParts, h.ahead, hw.plainRun htail]
  simp [hgap, hsep, hmark, hnext, hcolumn]

end Parts

namespace Style

theorem hasSign_of_append {xs ys : List Char} (h : hasSign (xs ++ ys) = false) :
    hasSign ys = false := by
  induction xs with
  | nil => exact h
  | cons x xs ih =>
    rw [List.cons_append, hasSign, Bool.or_eq_false_iff] at h
    exact ih h.2

theorem last_ne_colon {xs ys : List Char} (h : hasSign (xs ++ ys) = false)
    (hys : endsWord ys = true) : xs.getLast? ≠ some ':' := by
  intro hlast
  obtain ⟨zs, rfl⟩ := List.getLast?_eq_some_iff.1 hlast
  rw [List.append_assoc] at h
  exact absurd (hasSign_of_append h) (by simp [hasSign, hys])

theorem head_ne_mark {n : Nat} {ys : List Char} (hn : n ≠ 0)
    (h : hasSign (blanks n ++ ys) = false) :
    ys.head? ≠ some '#' := by
  obtain ⟨m, rfl⟩ := Nat.exists_eq_succ_of_ne_zero hn
  rw [blanks, List.replicate_succ', List.append_assoc] at h
  intro hmark
  exact absurd (hasSign_of_append h) (by simp [hasSign, hmark])

end Style

/-- what makes a text plain, its ends and its tag apart -/
structure IsPlainText (cs : List Char) : Prop where
  visible : ∀ c ∈ cs, Style.isVisible c = true
  last : cs.getLast? ≠ some ' '
  signs : Style.hasSign cs = false

namespace IsPlainText

variable {w xs ys : List Char} {rs : List Run}

theorem of_append (h : IsPlainText (xs ++ ys)) (hys : ys ≠ []) : IsPlainText ys where
  visible c hc := h.visible c (by simp [hc])
  last := by simpa [List.getLast?_append_of_ne_nil, hys] using h.last
  signs := Style.hasSign_of_append h.signs

theorem word (h : IsPlainText (w ++ xs)) (hw : ∀ c ∈ w, (Run.word w).takes c = true)
    (hxs : endsWord xs = true) : IsPlainWord w where
  visible c hc := ⟨h.visible c (by simp [hc]), by simpa using (Bool.and_eq_true_iff.1 (hw c hc)).1⟩
  last := Style.last_ne_colon h.signs hxs

theorem ne_newLine (h : IsPlainText xs) : '\n' ∉ xs := fun hmem =>
  absurd (h.visible _ hmem) (by decide)

end IsPlainText

/-- the runs of a plain text: words with blanks between them, no sign of a comment among them -/
inductive IsPlainLine : List Run → Prop
  | last {w : List Char} (word : IsPlainWord w) (ne : w ≠ []) : IsPlainLine [.word w]
  | goOn {w : List Char} {n : Nat} {rs : List Run} (word : IsPlainWord w) (ne : w ≠ [])
      (gap : n ≠ 0) (mark : (Run.texts rs).head? ≠ some '#') (rest : IsPlainLine rs) :
      IsPlainLine (.word w :: .blanks n :: rs)

theorem IsPlainText.isPlainLine : ∀ {rs : List Run}, Run.Cut rs → IsPlainText (Run.texts rs) →
    Run.texts rs ≠ [] → (Run.texts rs).head? ≠ some ' ' → IsPlainLine rs
  | [], _, _, hne, _ => absurd rfl hne
  | .blanks 0 :: rs, hcut, _, _, _ => absurd rfl hcut.1
  | .blanks (n + 1) :: rs, _, _, _, hhead => absurd rfl hhead
  | .breaks 0 :: rs, hcut, _, _, _ => absurd rfl hcut.1
  | .breaks (n + 1) :: rs, _, htext, _, _ => absurd (List.mem_cons_self ..) htext.ne_newLine
  | [.word w], hcut, htext, _, _ => .last (htext.word hcut.2.1 rfl) hcut.1
  | .word w :: .word v :: rs, hcut, _, _, _ => by
    obtain ⟨x, -, htakes, hleaves⟩ := hcut.neighbours
    exact absurd htakes (by simpa [Run.takes] using hleaves)
  | .word w :: .breaks n :: rs, hcut, htext, _, _ => by
    obtain ⟨x, hhead, htakes, -⟩ := hcut.neighbours
    obtain rfl : x = '\n' := by simpa [Run.takes] using htakes
    exact absurd (List.mem_append_right w (List.mem_of_mem_head? hhead)) htext.ne_newLine
  | .word w :: .blanks n :: rs, hcut, htext, _, _ => by
    have hn : n ≠ 0 := hcut.2.2.2.blanks_ne_zero
    obtain ⟨hw, htakes, -, -, -, hhead, hrest⟩ := hcut
    have hrs : Run.texts rs ≠ [] := fun hnil =>
      htext.last (by simp [hnil, Run.text, blanks, List.getLast?_replicate, hn])
    have htext : IsPlainText (w ++ (blanks n ++ Run.texts rs)) := htext
    have htext' := htext.of_append (by simp [hrs])
    have hword : IsPlainWord w := IsPlainText.word htext htakes (by
      obtain ⟨m, rfl⟩ := Nat.exists_eq_succ_of_ne_zero hn
      rfl)
    refine .goOn hword hw hn (Style.head_ne_mark hn htext'.signs)
      (isPlainLine hrest (htext'.of_append hrs) hrs fun hblank => ?_)
    exact absurd (hhead ' ' hblank) (by simp [Run.takes])

theorem documentMark_blanks {m : Nat} (hm : 0 < m) (rest : List Char) :
    documentMark (blanks m ++ rest) = false := by
  obtain ⟨k, rfl⟩ := Nat.exists_eq_succ_of_ne_zero (Nat.ne_of_gt hm)
  rfl

section Layout

variable {c : Cursor} {least indent column : Nat} {first : Bool} {rs : List Run} {tail : List Char}

theorem IsPlainLine.isSolid (h : IsPlainLine rs) (indent column : Nat) (first : Bool)
    (tail : List Char) : IsSolid (Run.layout id indent column first rs ++ tail) ∧
      endsPlain false (Run.layout id indent column first rs ++ tail) = false ∧
        (Run.layout id indent column first rs ++ tail).head? = (Run.texts rs).head? := by
  cases h with
  | last word ne =>
    obtain ⟨x, w, rfl⟩ := List.exists_cons_of_ne_nil ne
    simp only [Run.layout, id, List.append_nil]
    exact ⟨word.isSolid _, word.not_endsPlain _, rfl⟩
  | goOn word ne =>
    obtain ⟨x, w, rfl⟩ := List.exists_cons_of_ne_nil ne
    simp only [Run.layout, id, List.append_assoc]
    exact ⟨word.isSolid _, word.not_endsPlain _, rfl⟩

/-- between two words of a plain scalar stands a gap, a line end or not -/
theorem gap_layout {n : Nat} (hrs : IsPlainLine rs) (hindent : least ≤ indent) (hpos : 0 < indent)
    (hcolumn : least ≤ c.column)
    (hc : c.At (Run.layout id indent column first (.blanks n :: rs) ++ tail)) :
    ∃ d broken column', gap c = ⟨blanks n, d, broken⟩ ∧ least ≤ d.column ∧
      d.At (Run.layout id indent column' false rs ++ tail) := by
  simp only [Run.layout] at hc
  split_ifs at hc with hfold
  · obtain ⟨rfl, -⟩ := hfold
    rw [List.append_assoc] at hc
    obtain ⟨d, hgap, hd, hcol⟩ := gap_newLine hc (hrs.isSolid ..).1 (documentMark_blanks hpos _)
    exact ⟨d, true, indent, hgap, hcol ▸ hindent, hd⟩
  · rw [List.append_assoc] at hc
    have hcol := Cursor.steps_column hc.ahead (isInline_blanks n)
    refine ⟨c.steps n, false, column + n, gap_blanks hc (hrs.isSolid ..).1, ?_,
      by simpa using hc.steps⟩
    rw [length_blanks] at hcol
    omega

theorem endsPlain_layout_blanks {n : Nat} (hn : n ≠ 0) :
    endsPlain false (Run.layout id indent column first (.blanks n :: rs) ++ tail) = true := by
  obtain ⟨m, rfl⟩ := Nat.exists_eq_succ_of_ne_zero hn
  simp only [Run.layout]
  split_ifs <;> simp [newLine, blanks, List.replicate_succ, endsPlain]

theorem plainParts_layout (hrs : IsPlainLine rs) (hindent : least ≤ indent) (hpos : 0 < indent)
    (htail : endsPlain false tail = true) (hends : ∀ d : Cursor, d.At tail → (gap d).Ends least)
    {fuel : Nat} (hc : c.At (Run.layout id indent column first rs ++ tail))
    (hcolumn : least ≤ c.column) (hfuel : rs.length ≤ fuel) :
    ∃ d : Cursor, d.At tail ∧ plainParts false least fuel c =
      ⟨Run.texts rs, (gap d).after, (gap d).broken⟩ := by
  -- word by word; of the column no more is known than that it is not left of the block
  induction hrs generalizing fuel c column first with
  | last word ne =>
    cases fuel with
    | zero => simp at hfuel
    | succ fuel =>
      simp only [Run.layout, id, List.append_nil] at hc
      refine ⟨_, hc.steps, ?_⟩
      rw [plainParts_last hc word htail (hends _ hc.steps)]
      simp [Run.text]
  | @goOn w n rs word ne hn hmark rest ih =>
    cases fuel with
    | zero => simp at hfuel
    | succ fuel =>
      have hc : c.At (w ++ (Run.layout id indent (column + w.length) false (.blanks n :: rs) ++
          tail)) := by simpa only [Run.layout, id, List.append_assoc] using hc
      have hcol := Cursor.steps_column hc.ahead word.isInline
      obtain ⟨d, broken, column', hgap, hd, hat⟩ :=
        gap_layout rest hindent hpos (by rw [hcol]; omega) hc.steps
      obtain ⟨-, hgoes, hhead⟩ := rest.isSolid indent column' false tail
      have hfuel : rs.length ≤ fuel := by
        simp only [List.length_cons] at hfuel
        omega
      obtain ⟨e, he, hparts⟩ := ih hat hd hfuel
      refine ⟨e, he, ?_⟩
      rw [plainParts_goOn hc word (endsPlain_layout_blanks hn) hgap (by simpa [blanks] using hn)
        (by rwa [hat.ahead, hhead]) hd (by rw [hat.ahead, hgoes]), hparts]
      simp [Run.text]

theorem IsPlainLine.length_le (h : IsPlainLine rs) (indent column : Nat) (first : Bool) :
    rs.length ≤ (Run.layout id indent column first rs).length := by
  induction h generalizing column first with
  | last word ne =>
    have := List.length_pos_iff.2 ne
    simp only [Run.layout, id, List.append_nil, List.length_cons, List.length_nil]
    omega
  | @goOn w n rs word ne hn hmark rest ih =>
    have := List.length_pos_iff.2 ne
    have := ih indent false
    have := ih (column + w.length + n) false
    simp only [Run.layout, id, List.length_cons, List.length_append]
    split_ifs <;> simp only [List.length_append, length_blanks, newLine, List.length_cons] <;> omega

end Layout

/-- what comes after the next line end, at column `m` -/
structure Follows (m : Nat) (rest : List Char) : Prop where
  solid : IsSolid rest
  comment : rest.head? ≠ some '#'
  mark : documentMark (blanks m ++ rest) = false

section Scalar

variable {c : Cursor} {least indent column m : Nat} {rs : List Run} {w rest : List Char}

/-- a plain line is read from its layout, with the line end behind it -/
theorem IsPlainLine.plainScalar_layout (hline : IsPlainLine rs) (hindent : least ≤ indent)
    (hpos : 0 < indent) (hcolumn : least ≤ c.column) (hrest : Follows m rest)
    (hm : rest = [] ∨ m < least)
    (hc : c.At (Run.layout id indent column true rs ++ (newLine m ++ rest))) :
    ∃ d, plainScalar false least c = ⟨Run.texts rs, d, true⟩ ∧ d.At rest ∧ d.column = m := by
  have hgap : ∀ d : Cursor, d.At (newLine m ++ rest) →
      ∃ e, gap d = ⟨[' '], e, true⟩ ∧ e.At rest ∧ e.column = m :=
    fun d hd => gap_newLine hd hrest.solid hrest.mark
  have hends : ∀ d : Cursor, d.At (newLine m ++ rest) → (gap d).Ends least := fun d hd => by
    obtain ⟨e, he, hat, rfl⟩ := hgap d hd
    rw [he]
    rcases hm with rfl | hm
    · exact .inr (.inr (by simp [hat.ahead, endsPlain]))
    · exact .inr (.inl hm)
  have hfuel : rs.length ≤ c.left := by
    rw [hc.left, List.length_append]
    exact Nat.le_add_right_of_le (hline.length_le indent column true)
  obtain ⟨d, hd, hparts⟩ :=
    plainParts_layout hline hindent hpos (by simp [newLine, endsPlain]) hends hc hcolumn hfuel
  obtain ⟨e, he, hat⟩ := hgap d hd
  refine ⟨e, ?_, hat⟩
  rw [plainScalar, hparts, he]

theorem plainScalar_word (hw : IsPlainWord w) (hrest : endsWord rest = true)
    (hc : c.At (w ++ ':' :: rest)) : plainScalar false least c = ⟨w, c.steps w.length, false⟩ := by
  have hafter : (c.steps w.length).At (blanks 0 ++ ':' :: rest) := hc.steps
  have hsolid : IsSolid (':' :: rest) := fun x hx => by
    obtain rfl : ':' = x := by simpa using hx
    decide
  have hgap : gap (c.steps w.length) = ⟨[], c.steps w.length, false⟩ := gap_blanks hafter hsolid
  obtain ⟨fuel, hfuel⟩ : ∃ fuel, c.left = fuel + 1 :=
    Nat.exists_eq_succ_of_ne_zero (by simp [hc.left])
  rw [plainScalar, hfuel, plainParts_last hc hw (by simp [endsPlain, hrest]) (.inl (by rw [hgap])),
    hgap]

end Scalar

end LinkedCalls.Yaml
