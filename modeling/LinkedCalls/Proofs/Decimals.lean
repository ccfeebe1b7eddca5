import LinkedCalls.Binary64.Notation
import Mathlib.Tactic.NormNum
import Mathlib.Tactic.Ring

/-!
Numbers and their decimals. Rounding looks at the quotient alone, so a decimal may be written with
more zeros; the shortest digits of a number round back to it; and digits far out of range give what
their power of ten would give.
-/
namespace LinkedCalls

theorem nearestQuotient_mul {k : Nat} (hk : 0 < k) (num den : Nat) :
    nearestQuotient (k * num) (k * den) = nearestQuotient num den := by
  have hless : ∀ a b : Nat, (2 * (k * a) < k * b) = (2 * a < b) := fun a b => by
    rw [Nat.mul_left_comm, Nat.mul_lt_mul_left hk]
  have hmore : ∀ a b : Nat, (k * b < 2 * (k * a)) = (b < 2 * a) := fun a b => by
    rw [Nat.mul_left_comm, Nat.mul_lt_mul_left hk]
  unfold nearestQuotient
  rw [Nat.mul_div_mul_left _ _ hk, Nat.mul_mod_mul_left]
  simp only [hless, hmore]

theorem nearestQuotient_exact {den : Nat} (hden : 0 < den) (q : Nat) :
    nearestQuotient (q * den) den = q := by
  unfold nearestQuotient
  rw [Nat.mul_div_cancel _ hden, Nat.mul_mod_left]
  simp [hden]

theorem nearestQuotient_of_lt {num den : Nat} (h : 2 * num < den) :
    nearestQuotient num den = 0 := by
  unfold nearestQuotient
  rw [Nat.div_eq_of_lt (by omega), Nat.mod_eq_of_lt (by omega), if_pos h]

namespace Binary64

/-- the exponent of the unit is kept out of sight, for none of its powers need be computed -/
theorem exists_unit_eq : ∃ k, k = 1074 ∧ unit = Nat.pow 2 k := by
  unfold unit
  exact ⟨_, rfl, rfl⟩

theorem unit_pos : 0 < unit := by
  obtain ⟨k, -, hunit⟩ := exists_unit_eq
  rw [hunit, Nat.pow_eq]
  exact Nat.two_pow_pos k

theorem ofRatio_mul {k : Nat} (hk : 0 < k) (negative : Bool) (num den : Nat) :
    ofRatio negative (k * num) (k * den) = ofRatio negative num den := by
  simp only [ofRatio, Nat.mul_assoc k, Nat.mul_div_mul_left _ _ hk, nearestQuotient_mul hk]

theorem log2_scaled {m e : Nat} (h : Canonical m e) (hm : m ≠ 0) : (scaled m e).log2 - 52 = e := by
  obtain ⟨hlt, -, hfull⟩ := h
  rw [Nat.pow_eq] at hlt hfull
  have hpos : scaled m e ≠ 0 := Nat.mul_ne_zero hm (Nat.ne_of_gt (Nat.pow_pos (by decide)))
  have hupper : (scaled m e).log2 < 53 + e := by
    rw [Nat.log2_lt hpos, scaled, Nat.pow_eq, Nat.pow_add]
    exact Nat.mul_lt_mul_of_pos_right hlt (Nat.pow_pos (by decide))
  rcases hfull with rfl | hfull
  · omega
  · have hlower : 52 + e ≤ (scaled m e).log2 := by
      rw [Nat.le_log2 hpos, scaled, Nat.pow_eq, Nat.pow_add]
      exact Nat.mul_le_mul_right _ hfull
    omega

/-- a number in lowest form is what its own quotient rounds to -/
theorem ofRatio_scaled {m e : Nat} (h : Canonical m e) (hm : m ≠ 0) (negative : Bool) :
    ofRatio negative (scaled m e) unit = .finite negative m e h := by
  have hquotient : scaled m e * unit / unit = scaled m e := Nat.mul_div_cancel _ unit_pos
  have hround : nearestQuotient (scaled m e * unit) (unit * Nat.pow 2 e) = m := by
    have hmul : scaled m e * unit = m * (unit * Nat.pow 2 e) := by
      rw [scaled]
      ring
    rw [hmul]
    exact nearestQuotient_exact (Nat.mul_pos unit_pos (Nat.pow_pos (by decide))) m
  simp only [ofRatio]
  rw [hquotient, log2_scaled h hm, hround, if_neg (Nat.ne_of_lt h.1), ofParts, dif_pos h]

theorem ofParts_eq_infinite {m e : Nat} (he : 2045 < e) (negative : Bool) :
    ofParts negative m e = .infinite negative := by
  rw [ofParts, dif_neg fun h => by have := h.2.1; omega]

theorem pow_two_le_pow_ten (n : Nat) : 2 ^ (3 * n) ≤ 10 ^ n := by
  rw [Nat.pow_mul]
  exact Nat.pow_le_pow_left (by decide) n

theorem ofRatio_large {num den n : Nat} (hden : 0 < den) (hn : 400 ≤ n) (h : 10 ^ n * den ≤ num)
    (negative : Bool) : ofRatio negative num den = .infinite negative := by
  obtain ⟨k, hk, hunit⟩ := exists_unit_eq
  have hlarge : 2 ^ (3 * n + k) ≤ num * unit / den := by
    rw [Nat.le_div_iff_mul_le hden]
    calc 2 ^ (3 * n + k) * den = 2 ^ (3 * n) * den * unit := by
          rw [Nat.pow_add, hunit, Nat.pow_eq, Nat.mul_right_comm]
      _ ≤ num * unit :=
          Nat.mul_le_mul_right _ ((Nat.mul_le_mul_right _ (pow_two_le_pow_ten n)).trans h)
  -- three binary digits for each decimal one are more than the largest exponent leaves room for
  have hlog : 3 * n + k ≤ (num * unit / den).log2 :=
    (Nat.le_log2 (Nat.ne_of_gt (Nat.lt_of_lt_of_le (Nat.two_pow_pos _) hlarge))).2 hlarge
  simp only [ofRatio]
  split_ifs
  · exact ofParts_eq_infinite (by omega) negative
  · exact ofParts_eq_infinite (by omega) negative

theorem ofRatio_small {num den n : Nat} (hn : 400 ≤ n) (h : num * 10 ^ n < den) (negative : Bool) :
    ofRatio negative num den = ofParts negative 0 0 := by
  obtain ⟨k, hk, hunit⟩ := exists_unit_eq
  have hunits : 2 * (num * unit) < den := by
    calc 2 * (num * unit) = num * 2 ^ (k + 1) := by
          rw [hunit, Nat.pow_eq, Nat.pow_succ]
          ring
      _ ≤ num * 10 ^ n := Nat.mul_le_mul_left _
          ((Nat.pow_le_pow_right (by decide) (by omega)).trans (pow_two_le_pow_ten n))
      _ < den := h
  have hzero : num * unit / den = 0 := Nat.div_eq_of_lt (by omega)
  have hround : nearestQuotient (num * unit) (den * Nat.pow 2 (Nat.log2 0 - 52)) = 0 :=
    nearestQuotient_of_lt (by simpa using hunits)
  simp only [ofRatio, hzero]
  rw [hround, if_neg (by decide)]
  rfl

/-- a decimal as a quotient over any power of ten that is large enough -/
theorem ofDecimal_eq (negative : Bool) (digits : Nat) {exponent : Int} {n : Nat}
    (hn : 0 ≤ exponent + n) :
    ofDecimal negative digits exponent =
      ofRatio negative (digits * 10 ^ (exponent + n).toNat) (10 ^ n) := by
  unfold ofDecimal
  simp only [Nat.pow_eq]
  split_ifs with hexponent
  · have hpow : (exponent + n).toNat = exponent.toNat + n := by omega
    rw [← ofRatio_mul (Nat.pow_pos (by decide) : 0 < 10 ^ n), hpow, Nat.pow_add, Nat.mul_one,
      Nat.mul_left_comm, Nat.mul_comm (10 ^ n)]
  · have hpow : n = (exponent + n).toNat + (-exponent).toNat := by omega
    rw [← ofRatio_mul (Nat.pow_pos (by decide) : 0 < 10 ^ (exponent + n).toNat), ← Nat.pow_add,
      ← hpow, Nat.mul_comm digits]

theorem ofDecimal_mul_pow (negative : Bool) (digits k : Nat) (exponent : Int) :
    ofDecimal negative (digits * 10 ^ k) (exponent - k) = ofDecimal negative digits exponent := by
  rw [ofDecimal_eq negative _ (n := k + exponent.natAbs) (by omega),
    ofDecimal_eq negative digits (n := k + exponent.natAbs) (by omega), Nat.mul_assoc,
    ← Nat.pow_add]
  have hpow : k + (exponent - k + (k + exponent.natAbs : Nat)).toNat =
      (exponent + (k + exponent.natAbs : Nat)).toNat := by omega
  rw [hpow]

theorem exists_exact_eq :
    ∃ k : Nat, unit = Nat.pow 2 k ∧ ∀ num, exact num = ⟨num * Nat.pow 5 k, -(k : Int)⟩ := by
  unfold unit exact
  exact ⟨_, rfl, fun _ => rfl⟩

theorem ofDecimal_exact {m e : Nat} (h : Canonical m e) (hm : m ≠ 0) :
    ofDecimal false (exact (scaled m e)).digits (exact (scaled m e)).exponent =
      .finite false m e h := by
  obtain ⟨k, hunit, hexact⟩ := exists_exact_eq
  have hten : (10 : Nat) ^ k = 5 ^ k * unit := by
    rw [hunit, Nat.pow_eq, ← Nat.mul_pow]
  rw [hexact, Nat.pow_eq, ofDecimal_eq false _ (n := k) (by simp)]
  simp only [Int.add_left_neg, Int.toNat_zero, Nat.pow_zero, Nat.mul_one]
  rw [hten, Nat.mul_comm, ofRatio_mul (Nat.pow_pos (by decide)), ofRatio_scaled h hm]

/-- the digits that are chosen for a number round to it -/
theorem ofDecimal_shortest {m e : Nat} (h : Canonical m e) (hm : m ≠ 0) :
    ofDecimal false (shortest m e).digits (shortest m e).exponent = .finite false m e h := by
  have hparts : ofParts false m e = .finite false m e h := dif_pos h
  unfold shortest
  simp only [hparts]
  -- whatever was tried, a decimal that is found was read back to see that it is right
  generalize (List.range 17).flatMap _ = grids
  cases hfind : grids.find? fun d =>
      ofDecimal false d.digits d.exponent == .finite false m e h with
  | none => exact ofDecimal_exact h hm
  | some d => simpa using List.find?_some hfind

section Digits

variable {cs ds : List Char}

theorem digitsValue_eq (cs : List Char) : digitsValue cs = Nat.ofDigitChars 10 cs 0 := rfl

theorem digitsValue_append (cs ds : List Char) :
    digitsValue (cs ++ ds) = digitsValue cs * 10 ^ ds.length + digitsValue ds := by
  rw [digitsValue_eq, Nat.ofDigitChars_append, Nat.ofDigitChars_eq_ofDigitChars_zero, Nat.mul_comm]
  rfl

theorem digitsValue_append_zeros (cs : List Char) (n : Nat) :
    digitsValue (cs ++ List.replicate n '0') = digitsValue cs * 10 ^ n := by
  rw [digitsValue_eq, Nat.ofDigitChars_append, Nat.ofDigitChars_replicate_zero, Nat.mul_comm]
  rfl

theorem digitsValue_zeros_append (n : Nat) (cs : List Char) :
    digitsValue (List.replicate n '0' ++ cs) = digitsValue cs := by
  rw [digitsValue_eq, Nat.ofDigitChars_append, Nat.ofDigitChars_replicate_zero, Nat.mul_zero]
  rfl

theorem digitsValue_toDigits (n : Nat) : digitsValue (Nat.toDigits 10 n) = n :=
  Nat.ofDigitChars_ten_toDigits

theorem toNat_of_isDigit {c : Char} (h : c.isDigit = true) : 48 ≤ c.toNat ∧ c.toNat ≤ 57 := by
  simpa [Char.isDigit, UInt32.le_iff_toNat_le] using h

theorem digitsValue_singleton (c : Char) : digitsValue [c] = c.toNat - 48 := by
  simp [digitsValue]

theorem digitsValue_lt (h : ∀ c ∈ cs, c.isDigit = true) : digitsValue cs < 10 ^ cs.length := by
  induction cs with
  | nil => decide
  | cons c cs ih =>
    have hrest := ih fun d hd => h d (by simp [hd])
    have hc := toNat_of_isDigit (h c (by simp))
    have hone : digitsValue [c] + 1 ≤ 10 := by
      rw [digitsValue_singleton]
      omega
    calc digitsValue (c :: cs) = digitsValue [c] * 10 ^ cs.length + digitsValue cs :=
          digitsValue_append [c] cs
      _ < digitsValue [c] * 10 ^ cs.length + 10 ^ cs.length := Nat.add_lt_add_left hrest _
      _ = (digitsValue [c] + 1) * 10 ^ cs.length := (Nat.succ_mul _ _).symm
      _ ≤ 10 * 10 ^ cs.length := Nat.mul_le_mul_right _ hone
      _ = 10 ^ (c :: cs).length := (Nat.pow_succ').symm

theorem le_digitsValue {c : Char} (hc : c.isDigit = true) (hzero : c ≠ '0') (cs : List Char) :
    10 ^ cs.length ≤ digitsValue (c :: cs) := by
  have hrange := toNat_of_isDigit hc
  have hne : c.toNat ≠ 48 := fun h => hzero (Char.toNat_inj.1 h)
  have hone : 1 ≤ digitsValue [c] := by
    rw [digitsValue_singleton]
    omega
  calc 10 ^ cs.length = 1 * 10 ^ cs.length := (Nat.one_mul _).symm
    _ ≤ digitsValue [c] * 10 ^ cs.length := Nat.mul_le_mul_right _ hone
    _ ≤ digitsValue [c] * 10 ^ cs.length + digitsValue cs := Nat.le_add_right _ _
    _ = digitsValue (c :: cs) := (digitsValue_append [c] cs).symm

theorem digitsValue_dropWhile (cs : List Char) :
    digitsValue (cs.dropWhile (· == '0')) = digitsValue cs := by
  induction cs with
  | nil => rfl
  | cons c cs ih =>
    rw [List.dropWhile_cons]
    split_ifs with hzero
    · obtain rfl : c = '0' := by simpa using hzero
      rw [ih]
      exact (digitsValue_zeros_append 1 cs).symm
    · rfl

theorem ofRatio_zero {den : Nat} (hden : 0 < den) (negative : Bool) :
    ofRatio negative 0 den = ofParts negative 0 0 :=
  ofRatio_small (Nat.le_refl 400) (by rwa [Nat.zero_mul]) negative

theorem ofDecimal_zero (negative : Bool) (exponent : Int) :
    ofDecimal negative 0 exponent = ofParts negative 0 0 := by
  unfold ofDecimal
  rw [Nat.zero_mul]
  split_ifs
  · exact ofRatio_zero (by decide) negative
  · exact ofRatio_zero (Nat.pow_pos (by decide)) negative

theorem ofDecimal_large {value n : Nat} {exponent : Int} (hvalue : 10 ^ n ≤ value)
    (h : 400 ≤ n + exponent) (negative : Bool) :
    ofDecimal negative value exponent = .infinite negative := by
  unfold ofDecimal
  simp only [Nat.pow_eq]
  split_ifs with hexponent
  · refine ofRatio_large (n := n + exponent.toNat) (by decide) (by omega) ?_ negative
    rw [Nat.mul_one, Nat.pow_add]
    exact Nat.mul_le_mul_right _ hvalue
  · have hn : n = n - (-exponent).toNat + (-exponent).toNat := by omega
    refine ofRatio_large (n := n - (-exponent).toNat) (Nat.pow_pos (by decide)) (by omega) ?_
      negative
    rwa [← Nat.pow_add, ← hn]

theorem ofDecimal_small {value n : Nat} {exponent : Int} (hvalue : value < 10 ^ n)
    (h : n + exponent ≤ -400) (negative : Bool) :
    ofDecimal negative value exponent = ofParts negative 0 0 := by
  unfold ofDecimal
  rw [if_neg (by omega), Nat.pow_eq]
  refine ofRatio_small (n := (-exponent).toNat - n) (by omega) ?_ negative
  have hn : (-exponent).toNat = n + ((-exponent).toNat - n) := by omega
  calc value * 10 ^ ((-exponent).toNat - n) < 10 ^ n * 10 ^ ((-exponent).toNat - n) :=
        Nat.mul_lt_mul_of_pos_right hvalue (Nat.pow_pos (by decide))
    _ = 10 ^ (-exponent).toNat := by rw [← Nat.pow_add, ← hn]

/-- an exponent far out of range may be told from the number of digits -/
theorem ofDigits_eq (negative : Bool) (h : ∀ c ∈ cs, c.isDigit = true) (exponent : Int) :
    ofDigits negative cs exponent = ofDecimal negative (digitsValue cs) exponent := by
  have hvalue := digitsValue_dropWhile cs
  have hdigits : ∀ c ∈ cs.dropWhile (· == '0'), c.isDigit = true := fun c hc =>
    h c ((List.dropWhile_suffix _).subset hc)
  have hhead : ∀ c ∈ (cs.dropWhile (· == '0')).head?, c ≠ '0' := fun c hc => by
    have hnot := List.head?_dropWhile_not (· == '0') cs
    rw [Option.mem_def.1 hc] at hnot
    simpa using hnot
  unfold ofDigits
  simp only
  rw [← hvalue]
  generalize cs.dropWhile (· == '0') = ds at *
  split_ifs with hzero hlarge hsmall
  · rw [hzero, ofDecimal_zero]
  · cases ds with
    | nil => exact absurd rfl hzero
    | cons d ds =>
      have hle := le_digitsValue (hdigits d (by simp)) (hhead d rfl) ds
      refine (ofDecimal_large hle ?_ negative).symm
      simp only [List.length_cons] at hlarge
      omega
  · exact (ofDecimal_small (digitsValue_lt hdigits) (by omega) negative).symm
  · rfl

end Digits

end Binary64

end LinkedCalls
