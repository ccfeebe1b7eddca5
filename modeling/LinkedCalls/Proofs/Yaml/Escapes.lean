import LinkedCalls.Proofs.Halves
import LinkedCalls.Proofs.Yaml.Quoted
import Mathlib.Algebra.Group.Nat.Defs

/-!
Texts between double quotes. Every escape that is written is read as the code point it was written
for, and a text is the text of its code points, so what `doubleLayout` writes is read back.
-/
namespace LinkedCalls.Yaml

open Half (decoded decoded_toNat)

theorem textOfNumber_eq {n : Nat} (hn : n < 0x110000) : textOfNumber n = .ok (decoded n) := by
  rw [textOfNumber, if_neg (by omega), decoded]

section Hex

theorem hexDigit?_upper {d : Nat} (hd : d < 16) :
    hexDigit? (Nat.digitChar d).toUpper = some d := by
  revert hd d
  decide

@[simp] theorem length_upperHex (w n : Nat) : (upperHex w n).length = w := by
  induction w generalizing n with
  | zero => rfl
  | succ w ih => simp [upperHex, ih]

theorem foldl_upperHex (w n : Nat) :
    (upperHex w n).foldl (fun n? c => do return 16 * (← n?) + (← hexDigit? c)) (some 0) =
      some (n % 16 ^ w) := by
  induction w generalizing n with
  | zero => simp [upperHex, Nat.mod_one]
  | succ w ih =>
    rw [upperHex, List.foldl_append, ih (n / 16)]
    simp only [List.foldl_cons, List.foldl_nil, hexDigit?_upper (Nat.mod_lt n (by decide))]
    rw [Nat.pow_succ', Nat.mod_mul, Nat.add_comm]
    rfl

theorem hexNumber_upperHex {w n : Nat} (hn : n < 16 ^ w) (rest : List Char) :
    hexNumber (upperHex w n ++ rest) w = some n := by
  have htake : (upperHex w n ++ rest).take w = upperHex w n := by
    rw [List.take_append_of_le_length (by simp), List.take_of_length_le (by simp)]
  rw [hexNumber, htake, length_upperHex, if_pos rfl, foldl_upperHex, Nat.mod_eq_of_lt hn]

end Hex

section Escape

variable {c : Cursor} {n : Nat} {rest : List Char}

theorem lookupChar_escapeLetters : ∀ e ∈ escapeLetters, lookupChar escapes e.2 = some e.1 := by
  decide

theorem escape_letter {e : Char × Char} (he : e ∈ escapeLetters) (hc : c.At (e.2 :: rest)) :
    escape c = .ok ([e.1], c.step) := by
  rw [escape, hc.ahead]
  simp [lookupChar_escapeLetters e he]

theorem escape_number {x : Char} {w : Nat} (hx : lookupChar escapes x = none)
    (hw : lookupChar numberEscapes x = some w) (hn : n < 16 ^ w) (hmost : n < 0x110000)
    (hc : c.At (x :: (upperHex w n ++ rest))) :
    escape c = .ok (decoded n, c.steps (w + 1)) := by
  rw [escape, hc.ahead]
  simp [hx, hw, hexNumber_upperHex hn, textOfNumber_eq hmost, Except.map]

theorem escape_escaped (hmost : n < 0x110000) (hc : c.At ((escaped n).tail ++ rest)) :
    ∃ d : Cursor, d.At rest ∧ escape c = .ok (decoded n, d) := by
  have hnumber : ∀ {x : Char} {w : Nat}, lookupChar escapes x = none →
      lookupChar numberEscapes x = some w → n < 16 ^ w → c.At (x :: (upperHex w n ++ rest)) →
      ∃ d : Cursor, d.At rest ∧ escape c = .ok (decoded n, d) := fun hx hw hn hat =>
    ⟨_, by simpa [Cursor.steps] using hat.step.steps, escape_number hx hw hn hmost hat⟩
  unfold escaped at hc
  split at hc
  · next e he =>
    have hmem := List.mem_of_find?_eq_some he
    obtain rfl : e.1.toNat = n := by simpa using List.find?_some he
    refine ⟨c.step, hc.step, ?_⟩
    rw [escape_letter hmem hc, decoded_toNat]
  · split_ifs at hc with hshort hlong
    · exact hnumber (by decide) (by decide) (by omega) hc
    · exact hnumber (by decide) (by decide) (by omega) hc
    · exact hnumber (by decide) (by decide) (by omega) hc

theorem escaped_eq (n : Nat) : escaped n = '\\' :: (escaped n).tail := by
  unfold escaped
  split
  · rfl
  · split_ifs <;> rfl

/-- an escape is read as the code point that it was written for -/
theorem ReadsQuoted.escaped {xs text : List Char} (hmost : n < 0x110000)
    (h : ReadsQuoted true xs text rest) :
    ReadsQuoted true (escaped n ++ xs) (decoded n ++ text) rest := by
  rw [escaped_eq]
  exact h.escape_double (by simp) fun c hc => escape_escaped hmost hc

end Escape

section Layout

variable {indent column n : Nat} {fresh first : Bool} {ns : List Nat} {text xs rest : List Char}

theorem visible_of_not_needsEscape (h : needsEscape n = false) :
    Half.isNumber n = false ∧ Style.isVisible (Char.ofNat n) = true ∧ (Char.ofNat n).toNat = n ∧
      Char.ofNat n ≠ '"' ∧ Char.ofNat n ≠ '\\' := by
  simp only [needsEscape, Bool.or_eq_false_iff, Bool.not_eq_false', beq_eq_false_iff_ne] at h
  obtain ⟨⟨⟨hnumber, hvisible⟩, hquote⟩, hslash⟩ := h
  have hn : (Char.ofNat n).toNat = n := by
    by_cases hvalid : n.isValidChar
    · rw [Char.ofNat, dif_pos hvalid]
      rfl
    · rw [Char.ofNat, dif_neg hvalid] at hvisible
      exact absurd hvisible (by decide)
  refine ⟨hnumber, hvisible, hn, fun h => ?_, fun h => ?_⟩
  · exact hquote (by rw [← hn, h])
  · exact hslash (by rw [← hn, h])

theorem doubleLayout_escaped (h : needsEscape n = true) :
    doubleLayout indent column fresh first (n :: ns) =
      if !first && !ns.isEmpty && width + 1 < column + (escaped n).length then
        escaped n ++ continued indent ns ++
          doubleLayout indent (continuedColumn indent ns) true false ns
      else escaped n ++ doubleLayout indent (column + (escaped n).length) true false ns := by
  rw [doubleLayout, h]
  simp

theorem doubleLayout_visible (h : needsEscape n = false) :
    doubleLayout indent column fresh first (n :: ns) =
      if (!first && !ns.isEmpty) && (startsBlank [n] || fresh) && width < column then
        continued indent (n :: ns) ++
          Char.ofNat n :: doubleLayout indent (continuedColumn indent (n :: ns) + 1) false false ns
      else Char.ofNat n :: doubleLayout indent (column + 1) false false ns := by
  rw [doubleLayout, h]
  simp

theorem isSolid_slash (cs : List Char) : IsSolid ('\\' :: cs) := fun c hc => by
  obtain rfl : '\\' = c := by simpa using hc
  decide

/-- a code point that is no blank, written as it is or not, starts with a solid character -/
theorem isSolid_doubleLayout (hns : startsBlank ns = false) (column : Nat) (fresh first : Bool)
    (rest : List Char) : IsSolid (doubleLayout indent column fresh first ns ++ '"' :: rest) := by
  cases ns with
  | nil =>
    intro c hc
    obtain rfl : '"' = c := by simpa [doubleLayout] using hc
    decide
  | cons n ns =>
    cases hescape : needsEscape n with
    | true =>
      rw [doubleLayout_escaped hescape, escaped_eq]
      split_ifs <;> exact isSolid_slash _
    | false =>
      rw [doubleLayout_visible hescape]
      split_ifs
      · exact isSolid_slash _
      intro c hc
      obtain rfl : Char.ofNat n = c := by simpa using hc
      obtain ⟨-, hvisible, hn, -⟩ := visible_of_not_needsEscape hescape
      have hblank : Char.ofNat n ≠ ' ' := fun h => by
        rw [← hn, h] at hns
        simp [startsBlank] at hns
      exact ⟨(not_blank_of_isVisible hvisible hblank).1,
        (not_blank_of_isVisible hvisible hblank).2.1⟩

theorem eq_blank_of_startsBlank (h : startsBlank (n :: ns) = true) : n = ' '.toNat := by
  simpa [startsBlank] using h

theorem not_needsEscape_blank : needsEscape ' '.toNat = false := by decide

theorem doubleLayout_blank (hcolumn : column ≤ width) :
    doubleLayout indent column fresh first (' '.toNat :: ns) =
      ' ' :: doubleLayout indent (column + 1) false false ns := by
  have hfull : ¬ width < column := by omega
  rw [doubleLayout_visible not_needsEscape_blank]
  simp [hfull]

theorem isSolid_dropWhile_doubleLayout (ns : List Nat) (column : Nat) (fresh first : Bool)
    (rest : List Char) :
    IsSolid ((doubleLayout indent column fresh first ns ++ '"' :: rest).dropWhile isSpace) := by
  induction ns generalizing column fresh first with
  | nil =>
    have hsolid : IsSolid (doubleLayout indent column fresh first [] ++ '"' :: rest) :=
      isSolid_doubleLayout rfl column fresh first rest
    rwa [hsolid.dropWhile]
  | cons n ns ih =>
    cases hblank : startsBlank (n :: ns) with
    | false =>
      have hsolid : IsSolid (doubleLayout indent column fresh first (n :: ns) ++ '"' :: rest) :=
        isSolid_doubleLayout hblank column fresh first rest
      rwa [hsolid.dropWhile]
    | true =>
      obtain rfl := eq_blank_of_startsBlank hblank
      rw [doubleLayout_visible not_needsEscape_blank]
      split_ifs
      · exact isSolid_slash _
      · exact ih (column + 1) false false

section Reads

variable (hindent : 0 < indent)
include hindent

theorem ReadsQuoted.lineEnd (hxs : IsSolid xs) (h : ReadsQuoted true xs text rest) :
    ReadsQuoted true ('\\' :: (newLine indent ++ xs)) text rest := by
  have hreads : ReadsQuoted true ('\\' :: (newLine indent ++ xs)) ([] ++ text) rest := by
    refine h.escape_double (by simp) fun c hc => ?_
    have hc : c.At ('\n' :: (List.replicate 0 '\n' ++ (blanks indent ++ xs))) := hc
    have hleft : 0 < c.left := by simp [hc.left]
    obtain ⟨d, hd, hbreaks⟩ := quotedBreaks_newLine hindent hxs hc.step hleft
    refine ⟨d, hd, ?_⟩
    rw [escape, hc.ahead]
    exact hbreaks
  exact hreads

theorem ReadsQuoted.continued (hns : startsBlank ns = false) (hxs : IsSolid xs)
    (h : ReadsQuoted true xs text rest) :
    ReadsQuoted true (continued indent ns ++ xs) text rest := by
  have hend := h.lineEnd hindent hxs
  simpa [Yaml.continued, hns] using hend

theorem ReadsQuoted.continued_blank (h : ReadsQuoted true xs text rest) :
    ReadsQuoted true (Yaml.continued indent (' '.toNat :: ns) ++ ' ' :: xs) (' ' :: text) rest := by
  have hblank : ReadsQuoted true ('\\' :: ' ' :: xs) ([' '] ++ text) rest := by
    refine h.escape_double (by simp) fun c hc => ⟨c.step, hc.step, ?_⟩
    rw [escape, hc.ahead]
    rfl
  have hend := hblank.lineEnd hindent (isSolid_slash _)
  simpa [Yaml.continued, startsBlank] using hend

/-- what stands between double quotes from a code point on -/
def ReadsCodes (indent : Nat) (rest : List Char) (ns : List Nat) : Prop :=
  ∀ column fresh first, ReadsQuoted true
    (doubleLayout indent column fresh first ns ++ '"' :: rest) (ns.flatMap decoded) rest

theorem ReadsCodes.continued (hwidth : indent < width) (h : ReadsCodes indent rest ns)
    (htail : ReadsCodes indent rest ns.tail) :
    ReadsQuoted true (Yaml.continued indent ns ++
      (doubleLayout indent (continuedColumn indent ns) true false ns ++ '"' :: rest))
      (ns.flatMap decoded) rest := by
  cases hstart : startsBlank ns with
  | false =>
    exact ReadsQuoted.continued hindent hstart (isSolid_doubleLayout hstart _ _ _ _) (h _ _ _)
  | true =>
    cases ns with
    | nil => exact absurd hstart (by decide)
    | cons n ns =>
      obtain rfl := eq_blank_of_startsBlank hstart
      have hcolumn : continuedColumn indent (' '.toNat :: ns) ≤ width := by
        rw [continuedColumn, if_pos hstart]
        exact hwidth
      rw [doubleLayout_blank hcolumn, List.flatMap_cons, decoded_toNat]
      exact ReadsQuoted.continued_blank hindent (htail _ _ _)

theorem ReadsCodes.escaped (hwidth : indent < width) (hmost : n < 0x110000)
    (hescape : needsEscape n = true) (h : ReadsCodes indent rest ns)
    (htail : ReadsCodes indent rest ns.tail) : ReadsCodes indent rest (n :: ns) := by
  intro column fresh first
  rw [doubleLayout_escaped hescape, List.flatMap_cons]
  split_ifs
  · rw [List.append_assoc, List.append_assoc]
    exact (h.continued hindent hwidth htail).escaped hmost
  · rw [List.append_assoc]
    exact (h _ _ _).escaped hmost

theorem ReadsCodes.visible (hescape : needsEscape n = false) (h : ReadsCodes indent rest ns) :
    ReadsCodes indent rest (n :: ns) := by
  obtain ⟨hnumber, hvisible, hn, hquote, hslash⟩ := visible_of_not_needsEscape hescape
  intro column fresh first
  have hdecoded : decoded n = [Char.ofNat n] := by rw [decoded, if_neg (by simp [hnumber])]
  rw [doubleLayout_visible hescape, List.flatMap_cons, hdecoded]
  by_cases hx : Char.ofNat n = ' '
  · obtain rfl : n = ' '.toNat := by rw [← hn, hx]
    split_ifs
    · rw [List.append_assoc]
      exact ReadsQuoted.continued_blank hindent (h _ _ _)
    · exact (h _ _ _).blank_any (isSolid_dropWhile_doubleLayout ns _ _ _ rest)
  · obtain ⟨hspace, hbreak, -⟩ := not_blank_of_isVisible hvisible hx
    have hsolid : ∀ cs, IsSolid (Char.ofNat n :: cs) := fun cs c hc => by
      obtain rfl : Char.ofNat n = c := by simpa using hc
      exact ⟨hspace, hbreak⟩
    have hstart : startsBlank (n :: ns) = false := by
      by_contra hblank
      obtain rfl := eq_blank_of_startsBlank (by simpa using hblank)
      exact hx rfl
    split_ifs
    · rw [List.append_assoc]
      exact ReadsQuoted.continued hindent hstart (hsolid _)
        ((h _ _ _).char_double ⟨hspace, hbreak⟩ hquote hslash)
    · exact (h _ _ _).char_double ⟨hspace, hbreak⟩ hquote hslash

/-- the code points after the first are read as well, for the first may be a blank that has to be
escaped after the end of a line -/
theorem readsCodes (hwidth : indent < width) (hmost : ∀ n ∈ ns, n < 0x110000)
    (rest : List Char) :
    ReadsCodes indent rest ns ∧ ReadsCodes indent rest ns.tail := by
  induction ns with
  | nil => exact ⟨fun _ _ _ => .close_double, fun _ _ _ => .close_double⟩
  | cons n ns ih =>
    obtain ⟨hns, htail⟩ := ih fun m hm => hmost m (by simp [hm])
    refine ⟨?_, hns⟩
    cases hescape : needsEscape n with
    | true => exact hns.escaped hindent hwidth (hmost n (by simp)) hescape htail
    | false => exact hns.visible hindent hescape

end Reads

end Layout

/-- a text between double quotes is read from its own layout -/
theorem ReadsQuoted.layout_double {indent : Nat} (hindent : 0 < indent) (hwidth : indent < width)
    (cs rest : List Char) (column : Nat) :
    ReadsQuoted true (doubleLayout indent column false true (Half.codes cs) ++ '"' :: rest)
      cs rest := by
  have hreads := (readsCodes hindent hwidth (Half.codes_lt cs) rest).1 column false true
  rwa [Half.flatMap_decoded_codes] at hreads

end LinkedCalls.Yaml
