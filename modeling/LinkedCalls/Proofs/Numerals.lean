import LinkedCalls.Proofs.Decimals
import LinkedCalls.Yaml.Number
import LinkedCalls.Yaml.PlainTag
import LinkedCalls.Yaml.Style
import Mathlib.Data.List.TakeWhile

/-!
Numbers in documents. What is written for an integer or a floating point number is told as such by
its form, and is read back as the same number.
-/
namespace LinkedCalls

section Trim

variable {cs : List Char}

theorem exists_eq_append_zeros (cs : List Char) :
    ∃ k, cs = (cs.reverse.dropWhile (· == '0')).reverse ++ List.replicate k '0' := by
  have hzeros : cs.reverse.takeWhile (· == '0') =
      List.replicate (cs.reverse.takeWhile (· == '0')).length '0' :=
    List.eq_replicate_of_mem fun c hc => by simpa using List.mem_takeWhile_imp hc
  refine ⟨(cs.reverse.takeWhile (· == '0')).length, ?_⟩
  conv_lhs => rw [← List.reverse_reverse cs,
    ← List.takeWhile_append_dropWhile (p := (· == '0')) (l := cs.reverse), hzeros]
  simp

theorem Decimal.trim_spec {d : Decimal} (hd : d.digits ≠ 0) :
    d.trim.1 ≠ [] ∧ (∀ c ∈ d.trim.1, c.isDigit = true) ∧ ∀ negative,
      Binary64.ofDecimal negative (Binary64.digitsValue d.trim.1) d.trim.2 =
        Binary64.ofDecimal negative d.digits d.exponent := by
  obtain ⟨k, hk⟩ := exists_eq_append_zeros (Nat.toDigits 10 d.digits)
  unfold Decimal.trim
  simp only
  generalize ((Nat.toDigits 10 d.digits).reverse.dropWhile (· == '0')).reverse = kept at *
  have hvalue : Binary64.digitsValue kept * 10 ^ k = d.digits := by
    rw [← Binary64.digitsValue_append_zeros, ← hk, Binary64.digitsValue_toDigits]
  refine ⟨?_, fun c hc => ?_, fun negative => ?_⟩
  · rintro rfl
    exact hd (by rw [← hvalue]; simp [Binary64.digitsValue])
  · have hmem : c ∈ Nat.toDigits 10 d.digits := by
      rw [hk]
      exact List.mem_append_left _ hc
    exact Nat.isDigit_of_mem_toDigits (by decide) (by decide) hmem
  · have hlength : (Nat.toDigits 10 d.digits).length - kept.length = k := by
      rw [hk]
      simp
    rw [hlength, ← hvalue, ← Binary64.ofDecimal_mul_pow negative _ k]
    simp

end Trim

/-- digits with a point among them and perhaps an exponent -/
structure Pointed where
  whole : List Char
  fraction : List Char
  power : Option Int

namespace Pointed

def powerText : Option Int → List Char
  | none => []
  | some x => 'e' :: (exponentText x).toList

def chars (t : Pointed) : List Char := t.whole ++ '.' :: (t.fraction ++ powerText t.power)

def value (t : Pointed) : Binary64 :=
  .ofDecimal false (Binary64.digitsValue (t.whole ++ t.fraction))
    (t.power.getD 0 - t.fraction.length)

/-- there is a digit on either side of the point -/
structure Valid (t : Pointed) : Prop where
  whole_ne : t.whole ≠ []
  fraction_ne : t.fraction ≠ []
  digits : ∀ c ∈ t.whole ++ t.fraction, c.isDigit = true

end Pointed

/-- a text with a point, which is put before an exponent where there is none -/
def pointed (cs : List Char) : List Char :=
  if cs.contains '.' then cs
  else cs.takeWhile (· != 'e') ++ ['.', '0'] ++ cs.dropWhile (· != 'e')

section Layout

variable {ds : List Char} {point : Int}

theorem pointed_of_mem {cs : List Char} (h : '.' ∈ cs) : pointed cs = cs := by
  rw [pointed, if_pos (by simpa using h)]

theorem toList_layout_small (h : -4 < point ∧ point ≤ 16) (hpoint : point ≤ 0) :
    (layout ds point).toList =
      ['0'] ++ '.' :: (List.replicate (-point).toNat '0' ++ ds) := by
  unfold layout
  simp only [if_pos h, if_pos hpoint]
  simp

theorem toList_layout_inside (h : -4 < point ∧ point ≤ 16) (hpos : 0 < point)
    (hpoint : point < ds.length) :
    (layout ds point).toList = ds.take point.toNat ++ '.' :: ds.drop point.toNat := by
  unfold layout
  simp only [if_pos h, if_neg (not_le.2 hpos), if_pos hpoint]
  simp

theorem toList_layout_large (h : -4 < point ∧ point ≤ 16) (hpos : 0 < point)
    (hpoint : ds.length ≤ point) :
    (layout ds point).toList =
      ds ++ List.replicate (point - ds.length).toNat '0' ++ '.' :: ['0'] := by
  unfold layout
  simp only [if_pos h, if_neg (not_le.2 hpos), if_neg (not_lt.2 hpoint)]
  simp

theorem toList_layout_exponent (h : ¬ (-4 < point ∧ point ≤ 16)) :
    (layout ds point).toList =
      ds.take 1 ++ (if ds.length ≤ 1 then [] else '.' :: ds.drop 1) ++
        'e' :: (exponentText (point - 1)).toList := by
  unfold layout
  simp only [if_neg h]
  split_ifs <;> simp

theorem isDigit_of_zeros {n : Nat} {c : Char} (h : c ∈ List.replicate n '0') :
    c.isDigit = true := by
  rw [List.eq_of_mem_replicate h]
  rfl

theorem forall_isDigit {P : Char → Prop} (h : ∀ d < 10, P (Nat.digitChar d)) {c : Char}
    (hc : c.isDigit = true) : P c := by
  have hrange := Binary64.toNat_of_isDigit hc
  have hlt : c.toNat - 48 < 10 := by omega
  have heq : c = Nat.digitChar (c.toNat - 48) :=
    Char.toNat_inj.1 (by rw [Nat.toNat_digitChar_of_lt_ten hlt]; omega)
  rw [heq]
  exact h _ hlt

theorem ne_of_isDigit {c x : Char} (h : c.isDigit = true) (hx : x.isDigit = false) : c ≠ x := by
  rintro rfl
  rw [h] at hx
  cases hx

theorem exists_exponentText (n : Int) : ∃ ds : List Char,
    (exponentText n).toList = (if n < 0 then '-' else '+') :: ds ∧ ds ≠ [] ∧
      (∀ c ∈ ds, c.isDigit = true) ∧ Binary64.digitsValue ds = n.natAbs := by
  have hdigits : ∀ c ∈ Nat.toDigits 10 n.natAbs, c.isDigit = true := fun c hc =>
    Nat.isDigit_of_mem_toDigits (by decide) (by decide) hc
  have hvalue := Binary64.digitsValue_toDigits n.natAbs
  have hsign : (if n < 0 then "-" else "+").toList = [if n < 0 then '-' else '+'] := by
    split_ifs <;> rfl
  unfold exponentText
  simp only [String.toList_append, hsign]
  by_cases hshort : (Nat.toDigits 10 n.natAbs).length < 2
  · rw [if_pos hshort]
    refine ⟨'0' :: Nat.toDigits 10 n.natAbs, by simp, by simp, ?_, ?_⟩
    · simpa using hdigits
    · exact (Binary64.digitsValue_zeros_append 1 _).trans hvalue
  · rw [if_neg hshort]
    exact ⟨Nat.toDigits 10 n.natAbs, by simp, Nat.toDigits_ne_nil, hdigits, hvalue⟩

/-- zeros around digits change no value if the exponent makes up for those behind them -/
theorem Pointed.spec_of_zeros {t : Pointed} {j k : Nat} {exponent : Int}
    (hds : ∀ c ∈ ds, c.isDigit = true) (hwhole : t.whole ≠ []) (hfraction : t.fraction ≠ [])
    (hdigits : t.whole ++ t.fraction = List.replicate j '0' ++ (ds ++ List.replicate k '0'))
    (hexponent : t.power.getD 0 - t.fraction.length = exponent - k) :
    t.Valid ∧ t.value = .ofDecimal false (Binary64.digitsValue ds) exponent := by
  refine ⟨⟨hwhole, hfraction, fun c hc => ?_⟩, ?_⟩
  · rw [hdigits, List.mem_append, List.mem_append] at hc
    rcases hc with hc | hc | hc
    · exact isDigit_of_zeros hc
    · exact hds c hc
    · exact isDigit_of_zeros hc
  · rw [value, hdigits, hexponent, Binary64.digitsValue_zeros_append,
      Binary64.digitsValue_append_zeros, Binary64.ofDecimal_mul_pow]

theorem exists_pointed_plain (hne : ds ≠ []) (hds : ∀ c ∈ ds, c.isDigit = true)
    (h : -4 < point ∧ point ≤ 16) :
    ∃ t : Pointed, pointed (layout ds point).toList = t.chars ∧
      t.Valid ∧ t.value = .ofDecimal false (Binary64.digitsValue ds) (point - ds.length) := by
  have hlength := List.length_pos_iff.2 hne
  rcases le_or_gt point 0 with hpoint | hpos
  · refine ⟨⟨['0'], List.replicate (-point).toNat '0' ++ ds, none⟩, ?_,
      Pointed.spec_of_zeros (j := (-point).toNat + 1) (k := 0) hds (by simp) (by simp [hne])
        ?_ ?_⟩
    · rw [toList_layout_small h hpoint, pointed_of_mem (by simp)]
      simp [Pointed.chars, Pointed.powerText]
    · simp [List.replicate_succ]
    · simp
      omega
  rcases lt_or_ge point ds.length with hin | hlarge
  · refine ⟨⟨ds.take point.toNat, ds.drop point.toNat, none⟩, ?_,
      Pointed.spec_of_zeros (j := 0) (k := 0) hds ?_ ?_ (by simp) ?_⟩
    · rw [toList_layout_inside h hpos hin, pointed_of_mem (by simp)]
      simp [Pointed.chars, Pointed.powerText]
    · simp [hne]
      omega
    · simp
      omega
    · simp
      omega
  · refine ⟨⟨ds ++ List.replicate (point - ds.length).toNat '0', ['0'], none⟩, ?_,
      Pointed.spec_of_zeros (j := 0) (k := (point - ds.length).toNat + 1) hds (by simp [hne])
        (by simp) (by simp [List.replicate_succ']) ?_⟩
    · rw [toList_layout_large h hpos hlarge, pointed_of_mem (by simp)]
      simp [Pointed.chars, Pointed.powerText]
    · simp
      omega

theorem exists_pointed_exponent (hne : ds ≠ []) (hds : ∀ c ∈ ds, c.isDigit = true)
    (h : ¬ (-4 < point ∧ point ≤ 16)) :
    ∃ t : Pointed, pointed (layout ds point).toList = t.chars ∧
      t.Valid ∧ t.value = .ofDecimal false (Binary64.digitsValue ds) (point - ds.length) := by
  obtain ⟨c, cs, rfl⟩ := List.exists_cons_of_ne_nil hne
  rw [toList_layout_exponent h]
  cases cs with
  | nil =>
    refine ⟨⟨[c], ['0'], some (point - 1)⟩, ?_,
      Pointed.spec_of_zeros (j := 0) (k := 1) hds (by simp) (by simp) (by simp) (by simp)⟩
    -- a single digit has no point yet: it is put in before the exponent
    obtain ⟨es, hes, -, hdigits, -⟩ := exists_exponentText (point - 1)
    have hc := hds c (by simp)
    have hpoint : '.' ∉ es := fun h => absurd (hdigits _ h) (by decide)
    have he : c ≠ 'e' := ne_of_isDigit hc rfl
    have hp : '.' ≠ c := (ne_of_isDigit hc rfl).symm
    rw [pointed, if_neg]
    · simp [Pointed.chars, Pointed.powerText, he]
    · simp [hes, hpoint, hp]
      split_ifs <;> decide
  | cons d cs =>
    refine ⟨⟨[c], d :: cs, some (point - 1)⟩, ?_,
      Pointed.spec_of_zeros (j := 0) (k := 0) hds (by simp) (by simp) (by simp) (by simp; omega)⟩
    rw [pointed_of_mem (by simp)]
    simp [Pointed.chars, Pointed.powerText]

theorem exists_pointed_layout (hne : ds ≠ []) (hds : ∀ c ∈ ds, c.isDigit = true) (point : Int) :
    ∃ t : Pointed, pointed (layout ds point).toList = t.chars ∧
      t.Valid ∧ t.value = .ofDecimal false (Binary64.digitsValue ds) (point - ds.length) := by
  by_cases h : -4 < point ∧ point ≤ 16
  · exact exists_pointed_plain hne hds h
  · exact exists_pointed_exponent hne hds h

theorem exists_pointed_magnitude {m e : Nat} (h : Canonical m e) :
    ∃ t : Pointed, pointed (Binary64.magnitudeText m e).toList = t.chars ∧ t.Valid ∧
      t.value = .finite false m e h := by
  unfold Binary64.magnitudeText
  by_cases hm : m = 0
  · subst hm
    obtain rfl : e = 0 := by
      rcases h.2.2 with he | hfull
      · exact he
      · exact absurd hfull (by decide)
    refine ⟨⟨['0'], ['0'], none⟩, by decide, ⟨by simp, by simp, List.all_eq_true.1 rfl⟩, ?_⟩
    exact (Binary64.ofDecimal_zero false _).trans (dif_pos h)
  · have hround := Binary64.ofDecimal_shortest h hm
    have hdigits : (Binary64.shortest m e).digits ≠ 0 := fun hzero => by
      rw [hzero, Binary64.ofDecimal_zero, Binary64.ofParts, dif_pos (by decide)] at hround
      cases hround
      exact hm rfl
    obtain ⟨hne, hds, hvalue⟩ := Decimal.trim_spec hdigits
    obtain ⟨t, ht, hvalid, htvalue⟩ := exists_pointed_layout hne hds
      ((Binary64.shortest m e).trim.2 + ((Binary64.shortest m e).trim.1.length : Int))
    refine ⟨t, by simpa [hm] using ht, hvalid, ?_⟩
    rw [htvalue, Int.add_sub_cancel, hvalue, hround]

theorem floatLayout_finite {s : Bool} {m e : Nat} (h : Canonical m e) :
    Yaml.floatLayout (.finite s m e h) =
      (if s then ['-'] else []) ++ pointed (Binary64.magnitudeText m e).toList := by
  cases s with
  | false => simp [Yaml.floatLayout, Binary64.text, pointed]
  | true =>
    simp only [Yaml.floatLayout, Binary64.text, pointed]
    simp
    split_ifs <;> rfl

end Layout

section Reading

variable {ds rest : List Char}

def EndsDigits (rest : List Char) : Prop := ∀ c ∈ rest.head?, c.isDigit = false ∧ c ≠ '_'

theorem endsDigits_nil : EndsDigits [] := fun c hc => by simp at hc

theorem takeDigits_of_ends (h : EndsDigits rest) : Binary64.takeDigits rest = ([], rest) := by
  cases rest with
  | nil => rfl
  | cons c cs =>
    obtain ⟨hdigit, hne⟩ := h c rfl
    unfold Binary64.takeDigits
    split
    · next heq => exact absurd (by simpa using congrArg List.head? heq) hne
    · next heq =>
      obtain ⟨rfl, rfl⟩ := List.cons.inj heq
      simp [hdigit]
    · next heq => cases heq

theorem takeDigits_append (hds : ∀ c ∈ ds, c.isDigit = true) (h : EndsDigits rest) :
    Binary64.takeDigits (ds ++ rest) = (ds, rest) := by
  induction ds with
  | nil => exact takeDigits_of_ends h
  | cons c ds ih =>
    have hc := hds c (by simp)
    rw [List.cons_append, Binary64.takeDigits, if_pos hc, ih fun d hd => hds d (by simp [hd])]
    rintro d ds rfl
    exact absurd hc (by decide)

theorem readExponent_powerText (p : Option Int) :
    Binary64.readExponent (Pointed.powerText p) = some (p.getD 0) := by
  cases p with
  | none => rfl
  | some x =>
    obtain ⟨ds, hchars, hne, hdigits, hvalue⟩ := exists_exponentText x
    obtain ⟨d, ds, rfl⟩ := List.exists_cons_of_ne_nil hne
    have htake : Binary64.takeDigits (d :: ds) = (d :: ds, []) := by
      simpa using takeDigits_append hdigits endsDigits_nil
    have hd := hdigits d (by simp)
    rw [Pointed.powerText, hchars]
    split_ifs with hx
    · simp [Binary64.readExponent, htake, hd, hvalue, -Nat.cast_natAbs]
      omega
    · simp [Binary64.readExponent, htake, hd, hvalue, -Nat.cast_natAbs]
      omega

theorem endsDigits_powerText (p : Option Int) : EndsDigits (Pointed.powerText p) := by
  cases p with
  | none => simp [EndsDigits, Pointed.powerText]
  | some x =>
    intro c hc
    obtain rfl : 'e' = c := by simpa [Pointed.powerText] using hc
    decide

namespace Pointed

variable {t : Pointed}

theorem Valid.isDigit_whole (h : t.Valid) : ∀ c ∈ t.whole, c.isDigit = true :=
  fun c hc => h.digits c (by simp [hc])

theorem Valid.isDigit_fraction (h : t.Valid) : ∀ c ∈ t.fraction, c.isDigit = true :=
  fun c hc => h.digits c (by simp [hc])

theorem endsDigits_point (cs : List Char) : EndsDigits ('.' :: cs) := fun c hc => by
  obtain rfl : '.' = c := by simpa using hc
  decide

theorem Valid.exists_cons (h : t.Valid) : ∃ d cs, t.chars = d :: cs ∧ d.isDigit = true := by
  obtain ⟨d, ds, hd⟩ := List.exists_cons_of_ne_nil h.whole_ne
  refine ⟨d, ds ++ '.' :: (t.fraction ++ powerText t.power), by simp [chars, hd], ?_⟩
  exact h.digits d (by simp [hd])

theorem Valid.readMagnitude (h : t.Valid) :
    Binary64.readMagnitude false t.chars = some t.value := by
  have htake := takeDigits_append h.isDigit_whole
    (endsDigits_point (t.fraction ++ powerText t.power))
  have htake' := takeDigits_append h.isDigit_fraction (endsDigits_powerText t.power)
  obtain ⟨w, ws, hw⟩ := List.exists_cons_of_ne_nil h.whole_ne
  obtain ⟨f, fs, hf⟩ := List.exists_cons_of_ne_nil h.fraction_ne
  have hstart : (t.chars.head?.map Char.isDigit).getD false = true := by
    simp [chars, hw, h.isDigit_whole w (by simp [hw])]
  have hstart' : ((t.fraction ++ powerText t.power).head?.map Char.isDigit).getD false = true := by
    simp [hf, h.isDigit_fraction f (by simp [hf])]
  unfold Binary64.readMagnitude
  simp only [hstart, if_true]
  rw [chars, htake]
  simp only [hstart', if_true, htake', readExponent_powerText, Option.map_some,
    Binary64.ofDigits_eq false h.digits]
  simp [hw, value]

/-- a numeral with a point is read as its value -/
theorem Valid.ofChars? (h : t.Valid) : Binary64.ofChars? t.chars = some t.value := by
  obtain ⟨d, cs, hchars, hd⟩ := h.exists_cons
  have hlower : d.toLower.isDigit = true :=
    forall_isDigit (P := fun d => d.toLower.isDigit = true) (by decide) hd
  have hi : d.toLower ≠ 'i' := ne_of_isDigit hlower rfl
  have hn : d.toLower ≠ 'n' := ne_of_isDigit hlower rfl
  have hword : Binary64.words.find? (fun w => w.1.toList == t.chars.map Char.toLower) = none := by
    simp [Binary64.words, hchars, hi.symm, hn.symm]
  have hsigned : Binary64.ofChars? t.chars = Binary64.readMagnitude false t.chars := by
    unfold Binary64.ofChars?
    rw [hchars] at hword ⊢
    split
    next negative cs' heq =>
    split at heq
    · next hminus => exact absurd (List.cons.inj hminus).1 (ne_of_isDigit hd rfl)
    · next hplus => exact absurd (List.cons.inj hplus).1 (ne_of_isDigit hd rfl)
    · cases heq
      simp only [hword]
  rw [hsigned, h.readMagnitude]

end Pointed

end Reading

end LinkedCalls
