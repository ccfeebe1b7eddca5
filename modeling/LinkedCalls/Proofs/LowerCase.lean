import Mathlib.Data.List.DropRight
import LinkedCalls.Text.Blank
import LinkedCalls.Text.Case

/-!
Laws of lower case and of blanks around text. No small letter is a capital, the capital dotted `I`
or a blank; so text in lower case stays as it is in lower case, and it has blanks at its ends only
where it had some before.
-/
namespace LinkedCalls

/-- first and last capital, the step between capitals, the distance to the small letter -/
abbrev LetterRun := Nat × Nat × Nat × Int

namespace LetterRun

def Has (r : LetterRun) (n : Nat) : Prop := r.1 ≤ n ∧ n ≤ r.2.1 ∧ (n - r.1) % r.2.2.1 = 0

def small (r : LetterRun) (n : Nat) : Nat := ((n : Int) + r.2.2.2).toNat

/-- no small letter of the first run is a capital of the second: they lie apart, or go by twos at an
odd distance -/
def apart (r s : LetterRun) : Bool :=
  Nat.blt (r.small r.2.1) s.1 || Nat.blt s.2.1 (r.small r.1) ||
    (Nat.beq (s.2.2.1 % 2) 0 && (Nat.beq (r.2.2.1 % 2) 0 || Nat.beq r.1 r.2.1) &&
      Nat.beq ((r.small r.1 + s.1) % 2) 1)

def unlettered : List (Nat × Nat) :=
  [(0x130, 0x130), (0x9, 0xD), (0x1C, 0x20), (0x85, 0x85), (0xA0, 0xA0), (0x1680, 0x1680),
    (0x2000, 0x200A), (0x2028, 0x2029), (0x202F, 0x202F), (0x205F, 0x205F), (0x3000, 0x3000)]

/-- the small letters of a run are characters, and none of those -/
structure Lands (r : LetterRun) : Prop where
  valid : 0 < r.1 + r.2.2.2 ∧ (r.2.1 + r.2.2.2 < 0xD800 ∨
    0xDFFF < r.1 + r.2.2.2 ∧ r.2.1 + r.2.2.2 < 0x110000)
  clear : ∀ i ∈ unlettered, i.2 < r.small r.1 ∨ r.small r.2.1 < i.1

instance (r : LetterRun) : Decidable r.Lands :=
  decidable_of_iff (_ ∧ _) ⟨fun h => ⟨h.1, h.2⟩, fun h => ⟨h.valid, h.clear⟩⟩

theorem even_of_has {r : LetterRun} {n : Nat} (h : r.Has n)
    (hstep : r.2.2.1 % 2 = 0 ∨ r.1 = r.2.1) : (n - r.1) % 2 = 0 := by
  obtain ⟨hfirst, hlast, hmod⟩ := h
  rcases hstep with heven | hsingle
  · have hdvd := Nat.dvd_trans (Nat.dvd_of_mod_eq_zero heven) (Nat.dvd_of_mod_eq_zero hmod)
    exact Nat.mod_eq_zero_of_dvd hdvd
  · omega

theorem not_has_small {r s : LetterRun} (h : r.apart s = true) (hr : r.Lands) {n : Nat}
    (hn : r.Has n) : ¬s.Has (r.small n) := by
  intro hs
  have hpositive := hr.valid.1
  simp only [apart, Bool.or_eq_true, Bool.and_eq_true, Nat.blt_eq, Nat.beq_eq] at h
  rcases h with (hbelow | habove) | ⟨⟨hstep', hstep⟩, hodd⟩
  · unfold Has small at *
    omega
  · unfold Has small at *
    omega
  · have heven := even_of_has hn hstep
    have heven' := even_of_has hs (.inl hstep')
    obtain ⟨hfirst, -, -⟩ := hn
    obtain ⟨hfirst', -, -⟩ := hs
    unfold small at *
    omega

theorem Lands.not_inRanges {r : LetterRun} (h : r.Lands) {n : Nat} (hn : r.Has n) :
    inRanges unlettered (r.small n) = false := by
  obtain ⟨hfirst, hlast, -⟩ := hn
  rw [inRanges, List.any_eq_false]
  intro i hi hin
  have hclear := h.clear i hi
  simp only [Bool.and_eq_true, decide_eq_true_eq] at hin
  unfold small at hin hclear
  omega

theorem Lands.isValidChar {r : LetterRun} (h : r.Lands) {n : Nat} (hn : r.Has n) :
    (r.small n).isValidChar := by
  obtain ⟨hfirst, hlast, -⟩ := hn
  obtain ⟨hpositive, hvalid⟩ := h.valid
  unfold Nat.isValidChar small
  omega

end LetterRun

theorem apart_lowerRuns : (lowerRuns.all fun r => lowerRuns.all (LetterRun.apart r)) = true := by
  decide +kernel

theorem lands_lowerRuns : ∀ r ∈ lowerRuns, LetterRun.Lands r := by
  decide +kernel

theorem toLower_ascii : ∀ n < 128, (Char.ofNat n).toLower =
    if 65 ≤ n ∧ n ≤ 90 then Char.ofNat (n + 32) else Char.ofNat n := by
  decide

theorem lowerChar_of_has_none {c : Char} (h : ∀ r ∈ lowerRuns, ¬LetterRun.Has r c.toNat) :
    lowerChar c = c := by
  unfold lowerChar
  dsimp only
  split
  · next hascii =>
    have hlatin : ¬(65 ≤ c.toNat ∧ c.toNat ≤ 90) := fun hin =>
      h _ List.mem_cons_self ⟨hin.1, hin.2, Nat.mod_one _⟩
    have hlower := toLower_ascii c.toNat hascii
    rwa [Char.ofNat_toNat, if_neg hlatin] at hlower
  · split
    · next r hfound =>
      have hhas := List.find?_some hfound
      simp only [Bool.and_eq_true, decide_eq_true_eq, beq_iff_eq, and_assoc] at hhas
      exact absurd hhas (h r (List.mem_of_find?_eq_some hfound))
    · rfl

/-- a character is its own small letter, or a capital of a run -/
theorem lowerChar_cases (c : Char) :
    lowerChar c = c ∨ ∃ r ∈ lowerRuns, LetterRun.Has r c.toNat ∧
      (lowerChar c).toNat = LetterRun.small r c.toNat := by
  have hlands : ∀ r ∈ lowerRuns, LetterRun.Has r c.toNat →
      (Char.ofNat (LetterRun.small r c.toNat)).toNat = LetterRun.small r c.toNat := by
    intro r hr hhas
    rw [Char.ofNat, dif_pos ((lands_lowerRuns r hr).isValidChar hhas)]
    rfl
  unfold lowerChar
  dsimp only
  split
  · next hascii =>
    have hlower := toLower_ascii c.toNat hascii
    rw [Char.ofNat_toNat] at hlower
    split at hlower
    · next hlatin =>
      have hhas : LetterRun.Has (0x41, 0x5A, 1, 32) c.toNat :=
        ⟨hlatin.1, hlatin.2, Nat.mod_one _⟩
      rw [hlower]
      exact .inr ⟨_, List.mem_cons_self, hhas, hlands _ List.mem_cons_self hhas⟩
    · exact .inl hlower
  · split
    · next r hfound =>
      have hr := List.mem_of_find?_eq_some hfound
      have hhas := List.find?_some hfound
      simp only [Bool.and_eq_true, decide_eq_true_eq, beq_iff_eq, and_assoc] at hhas
      exact .inr ⟨r, hr, hhas, hlands r hr hhas⟩
    · exact .inl rfl

/-- what becomes of a character was it before, or is a small letter that is no capital and has none
of those codes -/
theorem lowerChar_eq_or (c : Char) :
    lowerChar c = c ∨ (∀ r ∈ lowerRuns, ¬LetterRun.Has r (lowerChar c).toNat) ∧
      inRanges LetterRun.unlettered (lowerChar c).toNat = false := by
  rcases lowerChar_cases c with hself | ⟨r, hr, hhas, hsmall⟩
  · exact .inl hself
  · refine .inr ⟨fun s hs => ?_, ?_⟩
    · rw [hsmall]
      exact LetterRun.not_has_small (List.all_eq_true.1 (List.all_eq_true.1 apart_lowerRuns r hr) s hs)
        (lands_lowerRuns r hr) hhas
    · rw [hsmall]
      exact (lands_lowerRuns r hr).not_inRanges hhas

theorem isBlank_of_lowerChar {c : Char} (h : isBlank (lowerChar c) = true) : isBlank c = true := by
  rcases lowerChar_eq_or c with hself | ⟨-, hclear⟩
  · rwa [hself] at h
  · simp only [inRanges, LetterRun.unlettered, List.any_cons, Bool.or_eq_false_iff,
      Bool.and_eq_false_iff, decide_eq_false_iff_not] at hclear
    simp only [isBlank, Bool.or_eq_true, Bool.and_eq_true, decide_eq_true_eq, beq_iff_eq] at h
    omega

/-- a character that lower case leaves as it is, wherever it stands -/
structure IsSmall (c : Char) : Prop where
  sigma : c ≠ 'Σ'
  dotted : c ≠ 'İ'
  fixed : lowerChar c = c

theorem isSmall_lowerChar {c : Char} (hsigma : c ≠ 'Σ') (hdotted : c ≠ 'İ') :
    IsSmall (lowerChar c) := by
  rcases lowerChar_eq_or c with hself | ⟨hnone, hclear⟩
  · rw [hself]
    exact ⟨hsigma, hdotted, hself⟩
  · refine ⟨?_, ?_, lowerChar_of_has_none hnone⟩
    · intro heq
      rw [heq] at hnone
      exact absurd (lowerChar_of_has_none hnone) (by decide)
    · intro heq
      rw [heq] at hclear
      cases hclear

theorem lowerFrom_of_small {cs : List Char} (h : ∀ c ∈ cs, IsSmall c) (before : List Char) :
    lowerFrom before cs = cs := by
  induction cs generalizing before with
  | nil => rfl
  | cons c cs ih =>
    obtain ⟨hsmall, hrest⟩ := List.forall_mem_cons.1 h
    simp [lowerFrom, hsmall.sigma, hsmall.dotted, hsmall.fixed, ih hrest]

theorem isSmall_special : ∀ c ∈ ['ς', 'σ', 'i', '\u0307'], IsSmall c ∧ isBlank c = false := by
  simp only [List.forall_mem_cons]
  refine ⟨?_, ?_, ?_, ?_, by simp⟩ <;> exact ⟨⟨by decide, by decide, by decide⟩, by decide⟩

/-- what a character becomes depends on the text around it, but it is small, and it is blank only if
the character was -/
theorem exists_lowerFrom_cons (before : List Char) (c : Char) (cs : List Char) :
    ∃ out, out ≠ [] ∧ (∀ d ∈ out, IsSmall d ∧ (isBlank d = true → isBlank c = true)) ∧
      lowerFrom before (c :: cs) = out ++ lowerFrom (c :: before) cs := by
  have hspecial : ∀ d ∈ ['ς', 'σ', 'i', '\u0307'],
      IsSmall d ∧ (isBlank d = true → isBlank c = true) := by
    intro d hd
    obtain ⟨hsmall, hblank⟩ := isSmall_special d hd
    exact ⟨hsmall, fun h => absurd h (by simp [hblank])⟩
  refine ⟨_, ?_, fun d hd => ?_, rfl⟩
  · split_ifs <;> exact List.cons_ne_nil _ _
  · split_ifs at hd with hsigma hfinal hdotted
    · exact hspecial d (by simp_all)
    · exact hspecial d (by simp_all)
    · exact hspecial d (by simp_all)
    · rw [List.mem_singleton.1 hd]
      exact ⟨isSmall_lowerChar hsigma hdotted, isBlank_of_lowerChar⟩

theorem isSmall_of_mem_lowerFrom {cs : List Char} {before : List Char} {d : Char}
    (h : d ∈ lowerFrom before cs) : IsSmall d := by
  induction cs generalizing before with
  | nil => cases h
  | cons c cs ih =>
    obtain ⟨out, -, hout, heq⟩ := exists_lowerFrom_cons before c cs
    rw [heq, List.mem_append] at h
    rcases h with h | h
    · exact (hout d h).1
    · exact ih h

theorem lower_lower (s : String) : lower (lower s) = lower s := by
  simp only [lower, String.toList_ofList]
  rw [lowerFrom_of_small fun _ => isSmall_of_mem_lowerFrom]

section Strip

variable {off : Char → Bool} {cs : List Char}

structure Bare (off : Char → Bool) (cs : List Char) : Prop where
  head : ∀ c ∈ cs.head?, off c = false
  last : ∀ c ∈ cs.getLast?, off c = false

theorem Bare.stripWhere_eq (h : Bare off cs) : stripWhere off cs = cs := by
  have hhead : cs.dropWhile off = cs := by
    cases cs with
    | nil => rfl
    | cons c cs => simp [h.head c rfl]
  have hlast : cs.rdropWhile off = cs := by
    rw [List.rdropWhile_eq_self_iff]
    intro hne
    simp [h.last _ (List.getLast?_eq_getLast_of_ne_nil hne)]
  exact (congrArg (List.rdropWhile off) hhead).trans hlast

theorem bare_stripWhere (off : Char → Bool) (cs : List Char) : Bare off (stripWhere off cs) where
  head := by
    intro c hc
    have hfirst : ((cs.dropWhile off).rdropWhile off).head? = some c := hc
    obtain ⟨rest, hrest⟩ := List.rdropWhile_prefix off (cs.dropWhile off)
    have hnot := List.head?_dropWhile_not off cs
    rwa [← hrest, List.head?_append, hfirst] at hnot
  last := by
    intro c hc
    obtain ⟨hne, rfl⟩ := List.mem_getLast?_eq_getLast hc
    exact Bool.eq_false_iff.2 (List.rdropWhile_last_not off (cs.dropWhile off) hne)

end Strip

theorem lowerFrom_ne_nil {cs : List Char} (h : cs ≠ []) (before : List Char) :
    lowerFrom before cs ≠ [] := by
  obtain ⟨c, cs, rfl⟩ := List.exists_cons_of_ne_nil h
  obtain ⟨out, hne, -, heq⟩ := exists_lowerFrom_cons before c cs
  rw [heq]
  exact List.append_ne_nil_of_left_ne_nil hne _

/-- in lower case text is as bare of blanks at its ends as before -/
theorem Bare.lowerFrom {cs : List Char} (h : Bare isBlank cs) (before : List Char) :
    Bare isBlank (lowerFrom before cs) where
  head := by
    cases cs with
    | nil => rintro d ⟨⟩
    | cons c cs =>
      obtain ⟨out, hne, hout, heq⟩ := exists_lowerFrom_cons before c cs
      intro d hd
      rw [heq, List.head?_append_of_ne_nil _ hne] at hd
      have hblank := mt (hout d (List.mem_of_head? hd)).2 (Bool.eq_false_iff.1 (h.head c rfl))
      exact Bool.eq_false_iff.2 hblank
  last := by
    have hlast := h.last
    clear h
    induction cs generalizing before with
    | nil => rintro d ⟨⟩
    | cons c cs ih =>
      obtain ⟨out, hne, hout, heq⟩ := exists_lowerFrom_cons before c cs
      intro d hd
      rw [heq] at hd
      by_cases hcs : cs = []
      · subst hcs
        rw [LinkedCalls.lowerFrom, List.append_nil] at hd
        have hblank := mt (hout d (List.mem_of_getLast? hd)).2 (Bool.eq_false_iff.1 (hlast c rfl))
        exact Bool.eq_false_iff.2 hblank
      · rw [List.getLast?_append_of_ne_nil _ (lowerFrom_ne_nil hcs _)] at hd
        rw [List.getLast?_cons_of_ne_nil hcs] at hlast
        exact ih (c :: before) hlast d hd

end LinkedCalls
