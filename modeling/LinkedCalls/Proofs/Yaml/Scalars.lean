import LinkedCalls.Proofs.LowerCase
import LinkedCalls.Proofs.Numerals
import LinkedCalls.Proofs.Yaml.Plain
import LinkedCalls.Yaml.Datum

/-!
What written scalars mean. The form of a plain scalar tells its tag, and the text of a number is
read under that tag as the number it was written for.
-/
namespace LinkedCalls.Yaml

/-- what a scalar token stands for, wherever it stands -/
def Denotes (text : List Char) (plain : Bool) (s : Scalar) : Prop :=
  ∀ mark, readKey mark (if plain then Tag.ofPlain text else .text) text = .ok (.scalar s)

theorem Tag.isWord_of_not_mem {words : List String} {cs : List Char}
    (h : ∀ w ∈ words, ∃ c ∈ w.toList, c ∉ cs) : Tag.isWord words cs = false := by
  rw [isWord, List.any_eq_false]
  intro w hw heq
  obtain ⟨c, hc, hnot⟩ := h w hw
  rw [beq_iff_eq] at heq
  exact hnot (heq ▸ hc)

theorem Tag.ofPlain_of_last {cs : List Char} (h : cs.getLast? ≠ some '\n') :
    Tag.ofPlain cs = Tag.ofForm cs := by
  have hne : cs ≠ ['\n'] := by
    rintro rfl
    exact h rfl
  rw [ofPlain, if_neg hne, withoutLineFeed, if_neg h]

def IsNumeralChar (c : Char) : Prop := c.isDigit = true ∨ c ∈ ['.', 'e', '+', '-']

instance (c : Char) : Decidable (IsNumeralChar c) :=
  inferInstanceAs (Decidable (_ ∨ _))

/-- no rule for characters changes those of numbers -/
structure IsFixedChar (c : Char) : Prop where
  visible : Style.isVisible c = true ∧ c ≠ ' '
  underscore : c ≠ '_'
  colon : c ≠ ':'
  lower : c ≠ 'Σ' ∧ c ≠ 'İ' ∧ lowerChar c = c
  plain : plainDigit c = c ∧ isNumeralBlank c = false

theorem isFixedChar_digit (d : Nat) (hd : d < 10) : IsFixedChar (Nat.digitChar d) where
  visible := by decide +revert
  underscore := by decide +revert
  colon := by decide +revert
  lower := by decide +revert
  plain := by decide +revert

theorem isFixedChar_sign (c : Char) (h : c ∈ ['.', 'e', '+', '-']) : IsFixedChar c := by
  simp only [List.mem_cons, List.not_mem_nil, or_false] at h
  rcases h with rfl | rfl | rfl | rfl <;> constructor <;> decide

theorem IsNumeralChar.isFixed {c : Char} (h : IsNumeralChar c) : IsFixedChar c := by
  rcases h with hdigit | hsign
  · exact forall_isDigit isFixedChar_digit hdigit
  · exact isFixedChar_sign c hsign

section Fixed

variable {cs : List Char}

theorem withoutUnderscores_of_fixed (h : ∀ c ∈ cs, IsFixedChar c) : withoutUnderscores cs = cs :=
  List.filter_eq_self.2 fun c hc => by simpa using (h c hc).underscore

theorem IsFixedChar.isSmall {c : Char} (h : IsFixedChar c) : IsSmall c :=
  ⟨h.lower.1, h.lower.2.1, h.lower.2.2⟩

theorem bare_of_fixed (h : ∀ c ∈ cs, IsFixedChar c) : Bare isNumeralBlank cs where
  head := fun c hc => (h c (List.mem_of_mem_head? hc)).plain.2
  last := fun c hc => (h c (List.mem_of_mem_getLast? hc)).plain.2

theorem numeral_of_fixed (h : ∀ c ∈ cs, IsFixedChar c) : numeral cs = cs := by
  have hmap : cs.map plainDigit = cs :=
    (List.map_congr_left fun c hc => (h c hc).plain.1).trans (List.map_id cs)
  rw [numeral, hmap, (bare_of_fixed h).stripWhere_eq]

end Fixed

section Float

open LinkedCalls

variable {t : Pointed}

theorem isNumeralChar_powerText (p : Option Int) :
    ∀ c ∈ Pointed.powerText p, IsNumeralChar c := by
  cases p with
  | none => simp [Pointed.powerText]
  | some x =>
    obtain ⟨ds, hchars, -, hdigits, -⟩ := exists_exponentText x
    intro c hc
    rw [Pointed.powerText, hchars, List.mem_cons, List.mem_cons] at hc
    rcases hc with rfl | rfl | hc
    · exact .inr (by decide)
    · refine .inr ?_
      split_ifs <;> decide
    · exact .inl (hdigits c hc)

theorem isNumeralChar_chars (h : t.Valid) : ∀ c ∈ t.chars, IsNumeralChar c := by
  intro c hc
  rw [Pointed.chars, List.mem_append, List.mem_cons, List.mem_append] at hc
  rcases hc with hc | rfl | hc | hc
  · exact .inl (h.digits c (by simp [hc]))
  · exact .inr (by decide)
  · exact .inl (h.digits c (by simp [hc]))
  · exact isNumeralChar_powerText _ c hc

theorem dropWhile_digits {ds rest : List Char} (hds : ∀ c ∈ ds, c.isDigit = true)
    (hrest : EndsDigits rest) : (ds ++ rest).dropWhile Tag.isDigitOr = rest := by
  rw [List.dropWhile_append_of_pos fun c hc => by simp [Tag.isDigitOr, hds c hc]]
  cases rest with
  | nil => rfl
  | cons c cs =>
    obtain ⟨hdigit, hne⟩ := hrest c rfl
    rw [List.dropWhile_cons, if_neg (by simp [Tag.isDigitOr, hdigit, hne])]

theorem isExponent_powerText (p : Option Int) : Tag.isExponent (Pointed.powerText p) = true := by
  cases p with
  | none => rfl
  | some x =>
    obtain ⟨ds, hchars, hne, hdigits, -⟩ := exists_exponentText x
    have hall : ds.all Char.isDigit = true := by simpa using hdigits
    rw [Pointed.powerText, hchars]
    split_ifs <;> simp [Tag.isExponent, Tag.isNonEmpty, hne, hall]

theorem isDecimal_chars (h : t.Valid) : Tag.isDecimal t.chars = true := by
  obtain ⟨d, cs, hchars, hd⟩ := h.exists_cons
  have hwhole := dropWhile_digits h.isDigit_whole
    (Pointed.endsDigits_point (t.fraction ++ Pointed.powerText t.power))
  have hfraction := dropWhile_digits h.isDigit_fraction (endsDigits_powerText t.power)
  have hstart : Tag.startsNumber t.chars = true := by simp [hchars, Tag.startsNumber, hd]
  rw [Tag.isDecimal, hstart, Pointed.chars, hwhole]
  simp [Tag.isFraction, hfraction, isExponent_powerText]

end Float

section Signed

variable {negative : Bool} {d : Char} {cs : List Char}

def signed (negative : Bool) (cs : List Char) : List Char := (if negative then ['-'] else []) ++ cs

theorem isNumeralChar_signed (hcs : ∀ c ∈ cs, IsNumeralChar c) :
    ∀ c ∈ signed negative cs, IsNumeralChar c := by
  cases negative with
  | true => simpa [signed] using ⟨.inr (by decide), hcs⟩
  | false => simpa [signed] using hcs

theorem unsigned_digit (cs : List Char) (hd : d.isDigit = true) :
    Tag.unsigned (d :: cs) = d :: cs := by
  unfold Tag.unsigned
  split
  · next heq => exact absurd (List.cons.inj heq).1 (ne_of_isDigit hd rfl)
  · next heq => exact absurd (List.cons.inj heq).1 (ne_of_isDigit hd rfl)
  · rfl

theorem unsigned_signed (hd : d.isDigit = true) :
    Tag.unsigned (signed negative (d :: cs)) = d :: cs := by
  cases negative with
  | true => rfl
  | false => exact unsigned_digit cs hd

theorem head_signed (hd : d.isDigit = true) :
    (signed negative (d :: cs)).head? = some '-' ↔ negative = true := by
  have hminus : d ≠ '-' := ne_of_isDigit hd rfl
  cases negative <;> simp [signed, hminus]

theorem isWord_boolWords (hcs : ∀ c ∈ cs, IsNumeralChar c) :
    Tag.isWord Tag.boolWords cs = false := by
  have hwords : ∀ w ∈ Tag.boolWords, w.toList.any (fun c => ¬ IsNumeralChar c) = true := by decide
  refine Tag.isWord_of_not_mem fun w hw => ?_
  obtain ⟨c, hc, hnot⟩ := List.any_eq_true.1 (hwords w hw)
  exact ⟨c, hc, fun hmem => of_decide_eq_true hnot (hcs c hmem)⟩

theorem ofPlain_of_numeralChars (hcs : ∀ c ∈ cs, IsNumeralChar c) :
    Tag.ofPlain cs = Tag.ofForm cs :=
  Tag.ofPlain_of_last fun hlast =>
    absurd (hcs _ (List.mem_of_getLast? hlast)).isFixed.visible.1 (by decide)

theorem ofPlain_float (hcs : ∀ c ∈ cs, IsNumeralChar c) (h : Tag.isFloat cs = true) :
    Tag.ofPlain cs = .float := by
  rw [ofPlain_of_numeralChars hcs, Tag.ofForm, isWord_boolWords hcs, if_neg (by simp), if_pos h]

theorem ofPlain_int (hcs : ∀ c ∈ cs, IsNumeralChar c) (hfloat : Tag.isFloat cs = false)
    (h : Tag.isInt cs = true) : Tag.ofPlain cs = .int := by
  rw [ofPlain_of_numeralChars hcs, Tag.ofForm, isWord_boolWords hcs, if_neg (by simp),
    if_neg (by simp [hfloat]), if_pos h]

end Signed

section Float

variable {t : Pointed}

theorem floatMagnitude_chars (h : t.Valid) (mark : Nat) :
    floatMagnitude mark t.chars = .ok (t.value.marked mark) := by
  obtain ⟨d, cs, hchars, hd⟩ := h.exists_cons
  have hcs := isNumeralChar_chars h
  have hword : ∀ w : List Char, w.head? = some '.' → t.chars ≠ w := by
    rintro w hw rfl
    rw [hchars] at hw
    exact ne_of_isDigit hd rfl (Option.some.inj hw)
  have hcolon : ':' ∉ t.chars := fun hc => (hcs _ hc).isFixed.colon rfl
  rw [floatMagnitude, if_neg (hword _ rfl), if_neg (hword _ rfl), if_neg (by simpa using hcolon),
    floatPart, numeral_of_fixed fun c hc => (hcs c hc).isFixed, h.ofChars?]
  rfl

theorem denotes_pointed (h : t.Valid) (negative : Bool) {m e : Nat} {hc : Canonical m e}
    (hvalue : t.value = .finite false m e hc) :
    Denotes (signed negative t.chars) true (.float (.finite negative m e hc)) := by
  obtain ⟨d, cs, hchars, hd⟩ := h.exists_cons
  have hall : ∀ c ∈ signed negative t.chars, IsNumeralChar c :=
    isNumeralChar_signed (isNumeralChar_chars h)
  have hfixed : ∀ c ∈ signed negative t.chars, IsFixedChar c := fun c hc => (hall c hc).isFixed
  have hunsigned : Tag.unsigned (signed negative t.chars) = t.chars := by
    rw [hchars, unsigned_signed hd]
  have htag : Tag.ofPlain (signed negative t.chars) = .float :=
    ofPlain_float hall (by simp [Tag.isFloat, hunsigned, isDecimal_chars h])
  have hlower : (lower (String.ofList (signed negative t.chars))).toList =
      signed negative t.chars := by
    simp [lower, lowerFrom_of_small fun c hc => (hfixed c hc).isSmall]
  have hne : (signed negative t.chars).isEmpty = false := by
    simp [signed, hchars]
  have hhead : (signed negative t.chars).head? = some '-' ↔ negative = true := by
    rw [hchars, head_signed hd]
  intro mark
  rw [if_pos rfl, htag]
  simp only [readKey, readFloat, withoutUnderscores_of_fixed hfixed, hlower, hne, hunsigned,
    floatMagnitude_chars h, hvalue, hhead]
  cases negative <;> rfl

theorem denotes_floatLayout {x : Binary64} (hx : ∀ mark, x ≠ .nan mark) :
    Denotes (floatLayout x) true (.float x) := by
  cases x with
  | nan mark => exact absurd rfl (hx mark)
  | infinite negative =>
    intro mark
    cases negative <;> rfl
  | finite negative m e h =>
    obtain ⟨t, ht, hvalid, hvalue⟩ := exists_pointed_magnitude h
    rw [floatLayout_finite, ht]
    exact denotes_pointed hvalid negative hvalue

end Float

section Int

variable {n : Nat} {ds : List Char}

theorem head_toDigits (hn : n ≠ 0) : (Nat.toDigits 10 n).head? ≠ some '0' := by
  induction n using Nat.strong_induction_on with
  | _ n ih =>
    rw [Nat.toDigits_eq_if (by decide)]
    split_ifs with hlt
    · simpa using hn
    · have hne : n / 10 ≠ 0 := by omega
      have hhead := ih (n / 10) (by omega) hne
      rwa [List.head?_append_of_ne_nil _ Nat.toDigits_ne_nil]

theorem digitIn_ten {c : Char} (hc : c.isDigit = true) : digitIn 10 c = some (c.toNat - 48) := by
  have hrange := Binary64.toNat_of_isDigit hc
  have hlt : c.toNat - 48 < 10 := by omega
  simp [digitIn, digitValue, hc, hlt]

theorem naturalIn_ten (hds : ∀ c ∈ ds, c.isDigit = true) (hne : ds ≠ []) :
    naturalIn 10 ds = some (Nat.ofDigitChars 10 ds 0) := by
  have hfold : ∀ k, ds.foldl (fun n? c => do return 10 * (← n?) + (← digitIn 10 c)) (some k) =
      some (Nat.ofDigitChars 10 ds k) := by
    clear hne
    induction ds with
    | nil => exact fun k => rfl
    | cons d ds ih =>
      intro k
      rw [List.foldl_cons, Nat.ofDigitChars_cons, ← ih fun c hc => hds c (by simp [hc])]
      simp [digitIn_ten (hds d (by simp))]
  rw [naturalIn, if_neg (by simpa using hne), hfold]

theorem toList_toString (n : Int) :
    (toString n).toList = signed (decide (n < 0)) (Nat.toDigits 10 n.natAbs) := by
  rw [Int.toString_eq_repr, Int.repr_eq_if, signed]
  by_cases hn : n < 0
  · have habs : (-n).toNat = n.natAbs := by omega
    have hle : ¬ 0 ≤ n := by omega
    simp [hn, hle, habs]
  · have habs : n.toNat = n.natAbs := by omega
    have hle : 0 ≤ n := by omega
    simp [hn, hle, habs]

theorem length_toDigits_le {k : Nat} (hk : 0 < k) (h : n < Nat.pow 10 k) :
    (Nat.toDigits 10 n).length ≤ k :=
  (Nat.length_toDigits_le_iff (by decide) hk).2 h

theorem integerIn_toDigits (hn : n ≠ 0) (hlimit : n < Nat.pow 10 Scalar.mostDigits) :
    integerIn 10 (Nat.toDigits 10 n) = .ok n := by
  have hdigits : ∀ c ∈ Nat.toDigits 10 n, c.isDigit = true := fun c hc =>
    Nat.isDigit_of_mem_toDigits (by decide) (by decide) hc
  have hcount := length_toDigits_le (by decide) hlimit
  have hnatural := naturalIn_ten hdigits Nat.toDigits_ne_nil
  rw [Nat.ofDigitChars_ten_toDigits] at hnatural
  have hhead := head_toDigits hn
  obtain ⟨d, cs, hcs⟩ := List.exists_cons_of_ne_nil (Nat.toDigits_ne_nil (n := n) (b := 10))
  rw [hcs] at hdigits hcount hnatural hhead ⊢
  have hd := hdigits d (by simp)
  have hzero : d ≠ '0' := by simpa using hhead
  have hnumeral : numeral (d :: cs) = d :: cs := numeral_of_fixed fun c hc =>
    IsNumeralChar.isFixed (.inl (hdigits c hc))
  have hunsigned := unsigned_digit cs hd
  have hmark : dropBaseMark 10 (d :: cs) = d :: cs := by
    unfold dropBaseMark
    split
    · next heq => exact absurd (List.cons.inj heq).1 hzero
    · rfl
  have htake : (d :: cs).takeWhile Char.isDigit = d :: cs :=
    List.takeWhile_eq_self_iff.2 hdigits
  have hminus : d ≠ '-' := ne_of_isDigit hd rfl
  unfold integerIn
  simp only [hnumeral, hunsigned, hmark, htake, hnatural]
  rw [if_neg (by omega)]
  simp [hminus]

theorem isDigits_toDigits (hds : ∀ c ∈ ds, c.isDigit = true) (hne : ds ≠ []) :
    Tag.isDigits ds = true := by
  obtain ⟨d, cs, rfl⟩ := List.exists_cons_of_ne_nil hne
  have hall : ∀ c ∈ d :: cs, Tag.isDigitOr c = true := fun c hc => by simp [Tag.isDigitOr, hds c hc]
  rw [Tag.isDigits, Tag.startsNumber, List.all_eq_true.2 hall]
  simp [hds d (by simp)]

theorem isInt_digits {negative : Bool} (n : Nat) :
    Tag.isInt (signed negative (Nat.toDigits 10 n)) = true := by
  have hdigits : ∀ c ∈ Nat.toDigits 10 n, c.isDigit = true := fun c hc =>
    Nat.isDigit_of_mem_toDigits (by decide) (by decide) hc
  by_cases hn : n = 0
  · subst hn
    cases negative <;> rfl
  · have hhead := head_toDigits hn
    have hall := isDigits_toDigits hdigits Nat.toDigits_ne_nil
    have hpositive : Tag.isPositive (Nat.toDigits 10 n) = true := by
      rw [Tag.isPositive, hall]
      simpa using hhead
    obtain ⟨d, cs, hcs⟩ := List.exists_cons_of_ne_nil (Nat.toDigits_ne_nil (n := n) (b := 10))
    rw [hcs] at hdigits hhead hpositive ⊢
    have hzero : d ≠ '0' := by simpa using hhead
    rw [Tag.isInt, unsigned_signed (hdigits d (by simp))]
    split
    · rfl
    · next heq => exact absurd (List.cons.inj heq).1 hzero
    · next heq => exact absurd (List.cons.inj heq).1 hzero
    · next heq => exact absurd (List.cons.inj heq).1 hzero
    · simp [hpositive]

theorem isFloat_digits {negative : Bool} (hds : ∀ c ∈ ds, c.isDigit = true) (hne : ds ≠ []) :
    Tag.isFloat (signed negative ds) = false := by
  obtain ⟨d, cs, rfl⟩ := List.exists_cons_of_ne_nil hne
  have hpoint : '.' ∉ d :: cs := fun h => absurd (hds _ h) (by decide)
  have hpoint' : '.' ∉ signed negative (d :: cs) := by
    cases negative <;> simpa [signed] using hpoint
  have hend : (d :: cs).dropWhile Tag.isDigitOr = [] := by
    simpa using dropWhile_digits hds endsDigits_nil
  have hdecimal : Tag.isDecimal (d :: cs) = false := by
    rw [Tag.isDecimal, hend]
    simp
  have hwhole : (d :: cs).takeWhile (· != '.') = d :: cs :=
    List.takeWhile_eq_self_iff.2 fun c hc => by
      have hne : c ≠ '.' := fun h => hpoint (h ▸ hc)
      simpa using hne
  have hsexagesimal : Tag.isSexagesimalFloat (d :: cs) = false := by
    simp only [Tag.isSexagesimalFloat, hwhole, List.drop_length]
  have hwords : ∀ words : List String, (∀ w ∈ words, '.' ∈ w.toList) → ∀ cs, '.' ∉ cs →
      Tag.isWord words cs = false := fun words hw cs hcs =>
    Tag.isWord_of_not_mem fun w hmem => ⟨'.', hw w hmem, hcs⟩
  rw [Tag.isFloat, unsigned_signed (hds d (by simp)), hdecimal, hsexagesimal,
    hwords _ (by decide) _ hpoint, hwords _ (by decide) _ hpoint']
  · rfl
  · intro rest heq
    exact hpoint' (by rw [heq]; simp)

theorem magnitude_toDigits (hlimit : n < Nat.pow 10 Scalar.mostDigits) :
    magnitude (Nat.toDigits 10 n) = .ok n := by
  by_cases hn : n = 0
  · subst hn
    rfl
  · have hread := integerIn_toDigits hn hlimit
    have hhead := head_toDigits hn
    have hcolon : ':' ∉ Nat.toDigits 10 n := fun h =>
      absurd (Nat.isDigit_of_mem_toDigits (by decide) (by decide) h) (by decide)
    obtain ⟨d, cs, hcs⟩ := List.exists_cons_of_ne_nil (Nat.toDigits_ne_nil (n := n) (b := 10))
    rw [hcs] at hread hhead hcolon ⊢
    have hzero : d ≠ '0' := by simpa using hhead
    unfold magnitude
    split
    · next heq => cases heq
    · next heq => exact absurd (List.cons.inj heq).1 hzero
    · next heq => exact absurd (List.cons.inj heq).1 hzero
    · next heq => exact absurd (List.cons.inj heq).1 hzero
    · next heq => exact absurd (List.cons.inj heq).1 hzero
    · rw [if_neg (by simpa using hcolon), hread]

/-- an integer is told by its digits, and read as itself if it is not too long -/
theorem denotes_int {n : Int} (hn : n.natAbs < Nat.pow 10 Scalar.mostDigits) :
    Denotes (toString n).toList true (.int n) := by
  have hdigits : ∀ c ∈ Nat.toDigits 10 n.natAbs, c.isDigit = true := fun c hc =>
    Nat.isDigit_of_mem_toDigits (by decide) (by decide) hc
  have hmagnitude := magnitude_toDigits hn
  have hall : ∀ c ∈ signed (decide (n < 0)) (Nat.toDigits 10 n.natAbs), IsNumeralChar c :=
    isNumeralChar_signed fun c hc => .inl (hdigits c hc)
  have htag := ofPlain_int hall (isFloat_digits hdigits Nat.toDigits_ne_nil)
    (isInt_digits n.natAbs)
  have hfixed : ∀ c ∈ signed (decide (n < 0)) (Nat.toDigits 10 n.natAbs), IsFixedChar c :=
    fun c hc => (hall c hc).isFixed
  obtain ⟨d, cs, hcs⟩ := List.exists_cons_of_ne_nil (Nat.toDigits_ne_nil (n := n.natAbs) (b := 10))
  rw [toList_toString]
  rw [hcs] at hdigits hmagnitude htag hfixed ⊢
  have hd := hdigits d (by simp)
  intro mark
  rw [if_pos rfl, htag]
  simp only [readKey, readInt, withoutUnderscores_of_fixed hfixed, unsigned_signed hd, hmagnitude,
    head_signed hd]
  simp only [Except.map, decide_eq_true_eq]
  by_cases hsign : n < 0
  · have hneg : -(n.natAbs : Int) = n := by omega
    simp [hsign, hneg, -Nat.cast_natAbs]
  · have hpos : (n.natAbs : Int) = n := by omega
    simp [hsign, hpos, -Nat.cast_natAbs]

end Int

def scalarText : Scalar → List Char
  | .text s => s.toList
  | s => scalarLayout 0 0 s

def isPlain : Scalar → Bool
  | .text s => Style.ofText s.toList == .plain
  | _ => true

/-- scalars that can be written and equal themselves -/
structure Exportable (s : Scalar) : Prop where
  short : s.isLong = false
  number : ∀ mark, s ≠ .float (.nan mark)

theorem Style.eq_plain_iff {cs : List Char} :
    Style.ofText cs = .plain ↔ Tag.ofPlain cs = .text ∧ Style.allowsPlain cs = true := by
  unfold Style.ofText
  split_ifs with hplain hsingle
  · exact ⟨fun _ => hplain, fun _ => rfl⟩
  · exact iff_of_false (by simp) hplain
  · exact iff_of_false (by simp) hplain

/-- what is written for a scalar means that scalar -/
theorem denotes_scalar {s : Scalar} (h : Exportable s) : Denotes (scalarText s) (isPlain s) s := by
  cases s with
  | null => exact fun mark => rfl
  | bool b => cases b <;> exact fun mark => rfl
  | int n =>
    have hshort := h.short
    simp only [Scalar.isLong, decide_eq_false_iff_not, not_le] at hshort
    exact denotes_int hshort
  | float x => exact denotes_floatLayout fun mark hmark => h.number mark (by rw [hmark])
  | text s =>
    intro mark
    simp only [scalarText, isPlain, beq_iff_eq]
    split_ifs with hplain
    · rw [(Style.eq_plain_iff.1 hplain).1]
      simp [readKey]
    · simp [readKey]

end LinkedCalls.Yaml
