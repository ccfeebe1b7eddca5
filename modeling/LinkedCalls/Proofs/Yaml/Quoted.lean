import LinkedCalls.Proofs.Yaml.Plain
import LinkedCalls.Yaml.Token.Quoted
import Mathlib.Data.List.TakeWhile

/-!
Quoted scalars read back. Within single quotes every line end of the layout is one more than in the
text, and a single one is a blank that was folded; within double quotes the escapes give the code
points of the text, and a backslash at the end of a line gives nothing.
-/
namespace LinkedCalls.Yaml

/-- between quotes, a text ahead is read as `text` up to the closing quote before `rest` -/
def ReadsQuoted (double : Bool) (ahead text rest : List Char) : Prop :=
  ∀ c : Cursor, c.At ahead → ∃ d : Cursor, d.At rest ∧
    ∀ fuel, ahead.length < fuel → quotedFrom double fuel c = .ok (text, d)

section Breaks

variable {c : Cursor} {m : Nat} {xs : List Char}

theorem quotedBreaks_blanks (h : c.At (blanks m ++ xs)) (hm : 0 < m) (hxs : IsSolid xs)
    (fuel : Nat) : quotedBreaks (fuel + 1) c = .ok ([], c.steps m) := by
  have hspan := h.skip (p := isSpace) (fun x hx => by simp [eq_blank_of_mem hx])
    fun y hy => (hxs y hy).1
  have hafter : (c.steps m).At xs := by simpa using h.steps
  rw [length_blanks] at hspan
  rw [quotedBreaks, h.ahead, documentMark_blanks hm, hspan]
  simp only [hafter.lineBreak?_none hxs]
  rfl

theorem quotedBreaks_newLine {n : Nat} (hm : 0 < m) (hxs : IsSolid xs) {fuel : Nat}
    (h : c.At (List.replicate n '\n' ++ (blanks m ++ xs))) (hfuel : n < fuel) :
    ∃ d : Cursor, d.At xs ∧ quotedBreaks fuel c = .ok (List.replicate n '\n', d) := by
  induction n generalizing c fuel with
  | zero =>
    obtain ⟨fuel, rfl⟩ := Nat.exists_eq_succ_of_ne_zero (Nat.ne_of_gt hfuel)
    have h : c.At (blanks m ++ xs) := by simpa using h
    exact ⟨_, by simpa using h.steps, quotedBreaks_blanks h hm hxs fuel⟩
  | succ n ih =>
    obtain ⟨fuel, rfl⟩ := Nat.exists_eq_succ_of_ne_zero (Nat.ne_of_gt (Nat.zero_lt_of_lt hfuel))
    have h : c.At ('\n' :: (List.replicate n '\n' ++ (blanks m ++ xs))) := h
    obtain ⟨d, hd, hbreaks⟩ := ih h.step (Nat.lt_of_succ_lt_succ hfuel)
    refine ⟨d, hd, ?_⟩
    have hskip : c.skip isSpace = c := by rw [Cursor.skip, h.span_none (by simp)]
    rw [quotedBreaks, h.ahead, hskip]
    simp only [h.lineBreak?_newline, hbreaks]
    rfl

end Breaks

namespace ReadsQuoted

variable {double : Bool} {x : Char} {xs ys text rest : List Char}

theorem closes (h : ∀ c : Cursor, c.At (x :: rest) →
      ∀ fuel, quotedFrom double (fuel + 1) c = .ok ([], c.step)) :
    ReadsQuoted double (x :: rest) [] rest := by
  intro c hc
  refine ⟨c.step, hc.step, fun fuel hfuel => ?_⟩
  obtain ⟨fuel, rfl⟩ := Nat.exists_eq_succ_of_ne_zero (Nat.ne_of_gt (Nat.zero_lt_of_lt hfuel))
  exact h c hc fuel

theorem close_single (hrest : rest.head? ≠ some '\'') : ReadsQuoted false ('\'' :: rest) [] rest :=
  closes fun c hc fuel => by simp [quotedFrom, hc.ahead, hrest, isSpace, isBreak]

theorem close_double : ReadsQuoted true ('"' :: rest) [] rest :=
  closes fun c hc fuel => by simp [quotedFrom, hc.ahead, isSpace, isBreak]

theorem goOn (part : List Char) (h : ReadsQuoted double ys text rest)
    (hlength : ys.length < xs.length)
    (hstep : ∀ c : Cursor, c.At xs → ∃ d : Cursor, d.At ys ∧ ∀ fuel,
      quotedFrom double (fuel + 1) c =
        (do let (more, e) ← quotedFrom double fuel d; return (part ++ more, e))) :
    ReadsQuoted double xs (part ++ text) rest := by
  intro c hc
  obtain ⟨d, hd, hquoted⟩ := hstep c hc
  obtain ⟨e, he, hreads⟩ := h d hd
  refine ⟨e, he, fun fuel hfuel => ?_⟩
  obtain ⟨fuel, rfl⟩ := Nat.exists_eq_succ_of_ne_zero (Nat.ne_of_gt (Nat.zero_lt_of_lt hfuel))
  rw [hquoted, hreads fuel (by omega)]
  rfl

theorem char_single (hx : isSpace x = false ∧ isBreak x = false) (hquote : x ≠ '\'')
    (h : ReadsQuoted false xs text rest) : ReadsQuoted false (x :: xs) (x :: text) rest :=
  h.goOn [x] (by simp) fun c hc => ⟨c.step, hc.step, fun fuel => by
    simp [quotedFrom, hc.ahead, hx, hquote]⟩

theorem quote_single (h : ReadsQuoted false xs text rest) :
    ReadsQuoted false ('\'' :: '\'' :: xs) ('\'' :: text) rest :=
  h.goOn ['\''] (by simp only [List.length_cons]; omega) fun c hc =>
    ⟨c.steps 2, hc.steps_two, fun fuel => by simp [quotedFrom, hc.ahead, isSpace, isBreak]⟩

theorem char_double (hx : isSpace x = false ∧ isBreak x = false) (hquote : x ≠ '"')
    (hslash : x ≠ '\\') (h : ReadsQuoted true xs text rest) :
    ReadsQuoted true (x :: xs) (x :: text) rest :=
  h.goOn [x] (by simp) fun c hc => ⟨c.step, hc.step, fun fuel => by
    simp [quotedFrom, hc.ahead, hx, hquote, hslash]⟩

theorem escape_double {part : List Char} (h : ReadsQuoted true ys text rest)
    (hlength : ys.length ≤ xs.length)
    (hescape : ∀ c : Cursor, c.At xs → ∃ d : Cursor, d.At ys ∧ escape c = .ok (part, d)) :
    ReadsQuoted true ('\\' :: xs) (part ++ text) rest := by
  refine h.goOn part (by simp; omega) fun c hc => ?_
  obtain ⟨d, hd, hpart⟩ := hescape c.step hc.step
  refine ⟨d, hd, fun fuel => ?_⟩
  simp only [quotedFrom, hc.ahead, hpart]
  rfl

theorem quotedFrom_spaces (hne : ys ≠ []) (hys : ∀ y ∈ ys, isSpace y = true) (hxs : IsSolid xs)
    {c : Cursor} (hc : c.At (ys ++ xs)) (fuel : Nat) :
    quotedFrom double (fuel + 1) c = (do
      let (more, e) ← quotedFrom double fuel (c.steps ys.length)
      return (ys ++ more, e)) := by
  have hspan := hc.span hys fun y hy => (hxs y hy).1
  have hafter := hc.steps
  obtain ⟨y, zs, rfl⟩ := List.exists_cons_of_ne_nil hne
  have hahead : c.ahead = y :: (zs ++ xs) := hc.ahead
  rw [quotedFrom, hahead]
  simp only [hspan, hafter.lineBreak?_none hxs, hys y (by simp)]
  rfl

theorem blank_any (hxs : IsSolid (xs.dropWhile isSpace)) (h : ReadsQuoted double xs text rest) :
    ReadsQuoted double (' ' :: xs) (' ' :: text) rest := by
  have hsplit := List.takeWhile_append_dropWhile (p := isSpace) (l := xs)
  have hspaces : ∀ y ∈ xs.takeWhile isSpace, isSpace y = true := fun y hy =>
    List.mem_takeWhile_imp hy
  generalize xs.takeWhile isSpace = ys at hsplit hspaces
  generalize xs.dropWhile isSpace = zs at hsplit hxs
  subst hsplit
  intro c hc
  obtain ⟨e, he, hreads⟩ := h c.step hc.step
  refine ⟨e, he, fun fuel hfuel => ?_⟩
  obtain ⟨fuel, rfl⟩ := Nat.exists_eq_succ_of_ne_zero (Nat.ne_of_gt (Nat.zero_lt_of_lt hfuel))
  have hall : ∀ y ∈ ' ' :: ys, isSpace y = true := by simpa using hspaces
  have hfrom : quotedFrom double (fuel + 1) c = _ := quotedFrom_spaces (by simp) hall hxs hc fuel
  rw [hfrom]
  cases ys with
  | nil =>
    have hrest := hreads fuel (by simpa using hfuel)
    simp only [List.length_singleton, Cursor.steps, hrest]
    rfl
  | cons y ys =>
    -- one step fewer reads the same blanks but the first
    have hrest := hreads (fuel + 1) (by simp at hfuel ⊢; omega)
    rw [quotedFrom_spaces (by simp) hspaces hxs hc.step fuel] at hrest
    have hsteps : c.steps (' ' :: y :: ys).length = c.step.steps (y :: ys).length := rfl
    rw [hsteps]
    cases hmore : quotedFrom double fuel (c.step.steps (y :: ys).length) with
    | error f =>
      rw [hmore] at hrest
      cases hrest
    | ok r =>
      rw [hmore] at hrest
      cases hrest
      rfl

theorem blanks_any (n : Nat) (hxs : IsSolid xs) (h : ReadsQuoted double xs text rest) :
    ReadsQuoted double (blanks n ++ xs) (blanks n ++ text) rest := by
  induction n with
  | zero => exact h
  | succ n ih =>
    have hdrop : (blanks n ++ xs).dropWhile isSpace = xs := by
      rw [List.dropWhile_append_of_pos fun x hx => by simp [eq_blank_of_mem hx], hxs.dropWhile]
    have hmore : ReadsQuoted double (' ' :: (blanks n ++ xs)) (' ' :: (blanks n ++ text)) rest :=
      blank_any (by rwa [hdrop]) ih
    exact hmore

/-- line ends are one fewer than in the layout; a single one of the layout is a blank -/
theorem breaks_any {n m : Nat} (hm : 0 < m) (hxs : IsSolid xs)
    (h : ReadsQuoted double xs text rest) :
    ReadsQuoted double (List.replicate n '\n' ++ newLine m ++ xs)
      (foldedBreaks '\n' (List.replicate n '\n') ++ text) rest := by
  refine h.goOn _ (by simp [newLine]; omega) fun c hc => ?_
  have hc : c.At ('\n' :: (List.replicate n '\n' ++ (blanks m ++ xs))) := by
    have hshift : List.replicate n '\n' ++ newLine m ++ xs =
        '\n' :: (List.replicate n '\n' ++ (blanks m ++ xs)) := by
      rw [newLine, List.append_assoc, List.cons_append, ← List.singleton_append,
        ← List.append_assoc, ← List.replicate_succ', List.replicate_succ]
      rfl
    rwa [← hshift]
  have hleft : n < c.step.left := by
    rw [hc.step.left]
    simp
    omega
  obtain ⟨d, hd, hbreaks⟩ := quotedBreaks_newLine hm hxs hc.step hleft
  refine ⟨d, hd, fun fuel => ?_⟩
  have hspan : c.span isSpace = ([], c) := hc.span_none (by simp)
  rw [quotedFrom, hc.ahead]
  simp only [hspan, hc.lineBreak?_newline, hbreaks]
  rfl

end ReadsQuoted

namespace Style

variable {p q : Char → Bool} {xs ys : List Char}

theorem hasPair_of_append (h : hasPair p q (xs ++ ys) = false) : hasPair p q ys = false := by
  induction xs with
  | nil => exact h
  | cons x xs ih =>
    refine ih ?_
    cases hxs : xs ++ ys with
    | nil => rfl
    | cons y zs =>
      rw [List.cons_append, hxs, hasPair, Bool.or_eq_false_iff] at h
      exact h.2

theorem head_of_hasPair {n : Nat} {x : Char} (hn : n ≠ 0) (hx : p x = true)
    (h : hasPair p q (List.replicate n x ++ ys) = false) : ∀ y ∈ ys.head?, q y = false := by
  obtain ⟨m, rfl⟩ := Nat.exists_eq_succ_of_ne_zero hn
  rw [List.replicate_succ', List.append_assoc] at h
  intro y hy
  obtain ⟨zs, rfl⟩ := List.head?_eq_some_iff.1 hy
  have hpair := hasPair_of_append h
  simp only [List.singleton_append, hasPair, hx, Bool.true_and, Bool.or_eq_false_iff] at hpair
  exact hpair.1

end Style

/-- what single quotes may hold: visible characters, and lines with blanks at neither end -/
structure IsSingleText (cs : List Char) : Prop where
  visible : ∀ c ∈ cs, c = '\n' ∨ Style.isVisible c = true
  beforeBreak : Style.hasPair Style.isBlank isBreak cs = false
  afterBreak : Style.hasPair isBreak Style.isBlank cs = false

namespace IsSingleText

variable {xs ys : List Char}

theorem of_append (h : IsSingleText (xs ++ ys)) : IsSingleText ys where
  visible c hc := h.visible c (by simp [hc])
  beforeBreak := Style.hasPair_of_append h.beforeBreak
  afterBreak := Style.hasPair_of_append h.afterBreak

end IsSingleText

section Single

variable {indent column : Nat} {first : Bool} {rs : List Run} {w text rest ahead : List Char}

theorem ReadsQuoted.word_single (hw : ∀ c ∈ w, isSpace c = false ∧ isBreak c = false)
    (h : ReadsQuoted false ahead text rest) :
    ReadsQuoted false (doubledQuotes w ++ ahead) (w ++ text) rest := by
  induction w with
  | nil => exact h
  | cons x w ih =>
    have hrest := ih fun c hc => hw c (by simp [hc])
    by_cases hx : x = '\''
    · subst hx
      exact hrest.quote_single
    · have hstep := hrest.char_single (hw x (by simp)) hx
      simpa [doubledQuotes, hx] using hstep

theorem Run.Cut.solid_word (hcut : Run.Cut (.word w :: rs))
    (htext : IsSingleText (Run.texts (.word w :: rs))) :
    ∀ c ∈ w, isSpace c = false ∧ isBreak c = false := fun c hc => by
  have htakes : c ≠ ' ' ∧ c ≠ '\n' := by simpa [Run.takes] using hcut.2.1 c hc
  rcases htext.visible c (List.mem_append_left _ hc) with hbreak | hvisible
  · exact absurd hbreak htakes.2
  · exact ⟨(not_blank_of_isVisible hvisible htakes.1).1,
      (not_blank_of_isVisible hvisible htakes.1).2.1⟩

theorem isSolid_layout (hcut : Run.Cut rs) (htext : IsSingleText (Run.texts rs))
    (hhead : ∀ c ∈ (Run.texts rs).head?, c ≠ ' ' ∧ c ≠ '\n') (indent column : Nat) (first : Bool)
    (rest : List Char) :
    IsSolid (Run.layout doubledQuotes indent column first rs ++ '\'' :: rest) := by
  cases rs with
  | nil =>
    intro c hc
    obtain rfl : '\'' = c := by simpa [Run.layout] using hc
    decide
  | cons r rs =>
    obtain ⟨x, xs, hx⟩ := List.exists_cons_of_ne_nil hcut.1
    have hne : x ≠ ' ' ∧ x ≠ '\n' := hhead x (by simp [hx])
    have htakes : r.takes x = true := hcut.2.1 x (by simp [hx])
    cases r with
    | word w =>
      obtain rfl : w = x :: xs := hx
      intro c hc
      obtain rfl : x = c := by
        by_cases hquote : x = '\'' <;> simpa [Run.layout, doubledQuotes, hquote] using hc
      exact hcut.solid_word htext x (by simp)
    | blanks n => exact absurd (by simpa [Run.takes] using htakes) hne.1
    | breaks n => exact absurd (by simpa [Run.takes] using htakes) hne.2

section Layout

variable {n : Nat} (hindent : 0 < indent) (htext : IsSingleText (Run.texts rs))
  (hreads : ∀ column first, ReadsQuoted false
    (Run.layout doubledQuotes indent column first rs ++ '\'' :: rest) (Run.texts rs) rest)
include hindent htext hreads

/-- a single blank that is folded is a line end of the layout, and read as the blank -/
theorem ReadsQuoted.layout_blanks (hcut : Run.Cut (.blanks n :: rs))
    (hbreak : ∀ c ∈ (Run.texts rs).head?, isBreak c = false) (column : Nat) (first : Bool) :
    ReadsQuoted false
      (Run.layout doubledQuotes indent column first (.blanks n :: rs) ++ '\'' :: rest)
      (Run.texts (.blanks n :: rs)) rest := by
  have hsolid := isSolid_layout hcut.2.2.2 htext fun c hc =>
    ⟨by simpa [Run.takes] using hcut.2.2.1 c hc, fun h => by simpa [h] using hbreak c hc⟩
  simp only [Run.layout]
  split_ifs with hfold
  · obtain ⟨rfl, -⟩ := hfold
    have hbreaks := breaks_any (n := 0) hindent (hsolid indent indent false rest)
      (hreads indent false)
    simpa [Run.text, blanks, foldedBreaks] using hbreaks
  · have hblanks := blanks_any n (hsolid indent (column + n) false rest)
      (hreads (column + n) false)
    simpa only [Run.texts_cons, Run.text, List.append_assoc] using hblanks

/-- line ends are laid out with one more, and read as they are -/
theorem ReadsQuoted.layout_breaks (hcut : Run.Cut (.breaks n :: rs))
    (hblank : ∀ c ∈ (Run.texts rs).head?, Style.isBlank c = false) (column : Nat) (first : Bool) :
    ReadsQuoted false
      (Run.layout doubledQuotes indent column first (.breaks n :: rs) ++ '\'' :: rest)
      (Run.texts (.breaks n :: rs)) rest := by
  have hsolid := isSolid_layout hcut.2.2.2 htext fun c hc =>
    ⟨fun h => by simpa [h, Style.isBlank] using hblank c hc,
      by simpa [Run.takes] using hcut.2.2.1 c hc⟩
  have hbreaks := breaks_any (n := n) hindent (hsolid indent indent false rest)
    (hreads indent false)
  have hn : n ≠ 0 := hcut.breaks_ne_zero
  have hfolded : foldedBreaks '\n' (List.replicate n '\n') = List.replicate n '\n' := by
    simp [foldedBreaks, hn]
  rw [hfolded] at hbreaks
  simpa [Run.layout, Run.text] using hbreaks

end Layout

theorem ReadsQuoted.layout_single (hindent : 0 < indent) (hrest : rest.head? ≠ some '\'')
    (hcut : Run.Cut rs) (htext : IsSingleText (Run.texts rs)) (column : Nat) (first : Bool) :
    ReadsQuoted false (Run.layout doubledQuotes indent column first rs ++ '\'' :: rest)
      (Run.texts rs) rest := by
  -- the column only decides where lines are folded, and folds are read as the blanks they replace
  induction rs generalizing column first with
  | nil => exact close_single hrest
  | cons r rs ih =>
    have htext' : IsSingleText (Run.texts rs) := htext.of_append
    have hreads := ih hcut.2.2.2 htext'
    cases r with
    | word w =>
      have hword := (hreads (column + (doubledQuotes w).length) false).word_single
        (hcut.solid_word htext)
      simpa only [Run.layout, Run.texts_cons, Run.text, List.append_assoc] using hword
    | blanks n =>
      have hbreak := Style.head_of_hasPair (x := ' ') hcut.blanks_ne_zero (by rfl)
        htext.beforeBreak
      exact layout_blanks hindent htext' hreads hcut hbreak column first
    | breaks n =>
      have hblank := Style.head_of_hasPair (x := '\n') hcut.breaks_ne_zero (by rfl)
        htext.afterBreak
      exact layout_breaks hindent htext' hreads hcut hblank column first

end Single

end LinkedCalls.Yaml
