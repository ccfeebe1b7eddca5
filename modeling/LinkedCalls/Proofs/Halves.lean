import LinkedCalls.Text.Half
import Mathlib.Data.List.Chain

/-!
Texts and their code points, halves of surrogate pairs among them. Every text is the text of its
code points. A sequence of code points is that of its text as well, unless the noncharacter that
marks a half is in it with one of the private characters for halves right behind it: such a pair is
read as a half.
-/
namespace LinkedCalls.Half

/-- the characters of a code point, a half among them -/
def decoded (n : Nat) : List Char := if isNumber n then chars n else [Char.ofNat n]

def IsPrivate (n : Nat) : Prop := base ≤ n ∧ n < base + 0x800

theorem toNat_lt (c : Char) : c.toNat < 0x110000 := by
  have hvalid : c.toNat.isValidChar := c.valid
  unfold Nat.isValidChar at hvalid
  omega

theorem isNumber_iff {n : Nat} : isNumber n = true ↔ 0xD800 ≤ n ∧ n ≤ 0xDFFF := by
  rw [isNumber, Bool.and_eq_true, decide_eq_true_eq, decide_eq_true_eq]
  rfl

theorem isNumber_toNat (c : Char) : isNumber c.toNat = false := by
  have hvalid : c.toNat.isValidChar := c.valid
  rw [← Bool.not_eq_true, isNumber_iff]
  unfold Nat.isValidChar at hvalid
  omega

@[simp] theorem decoded_toNat (c : Char) : decoded c.toNat = [c] := by
  simp [decoded, isNumber_toNat]

theorem toNat_ofNat {n : Nat} (hn : n < 0x110000) (hnumber : isNumber n = false) :
    (Char.ofNat n).toNat = n := by
  rw [← Bool.not_eq_true, isNumber_iff] at hnumber
  have hvalid : n.isValidChar := by
    unfold Nat.isValidChar
    omega
  rw [Char.ofNat, dif_pos hvalid]
  rfl

theorem ofChar?_eq_none {c : Char} : ofChar? c = none ↔ ¬IsPrivate c.toNat := by
  simp [ofChar?, IsPrivate]

theorem decoded_of_ofChar? {d : Char} {n : Nat} (h : ofChar? d = some n) :
    decoded n = [mark, d] ∧ n < 0x110000 := by
  unfold ofChar? at h
  split_ifs at h with hrange
  obtain rfl : least + (d.toNat - base) = n := by simpa using h
  have hbase : base = 0x10F000 := rfl
  have hleast : least = 0xD800 := rfl
  have hnumber : isNumber (least + (d.toNat - base)) = true := by
    rw [isNumber_iff]
    omega
  have hchar : base + (least + (d.toNat - base) - least) = d.toNat := by omega
  exact ⟨by rw [decoded, if_pos hnumber, chars, hchar, Char.ofNat_toNat], by omega⟩

theorem codes_lt (cs : List Char) : ∀ n ∈ codes cs, n < 0x110000 := by
  fun_induction codes cs with
  | case1 => simp
  | case2 => simpa using toNat_lt mark
  | case3 d ds n h ih => simpa using ⟨(decoded_of_ofChar? h).2, ih⟩
  | case4 d ds h ih => simpa using ⟨toNat_lt mark, ih⟩
  | case5 c cs h ih => simpa using ⟨toNat_lt c, ih⟩

/-- a text is the text of its code points -/
theorem flatMap_decoded_codes (cs : List Char) : (codes cs).flatMap decoded = cs := by
  fun_induction codes cs with
  | case1 => rfl
  | case2 => simp
  | case3 d ds n h ih => simp [(decoded_of_ofChar? h).1, ih]
  | case4 d ds h ih => simp [ih]
  | case5 c cs h ih => simp [ih]

/-- a character that is no mark, or has nothing of a half behind it, stands for itself -/
theorem codes_cons {c : Char} {cs : List Char} (h : c = mark → cs.head?.bind ofChar? = none) :
    codes (c :: cs) = c.toNat :: codes cs := by
  rw [codes.eq_def]
  dsimp only
  split_ifs with hmark
  · cases cs with
    | nil => rfl
    | cons d ds =>
      have hd : ofChar? d = none := h hmark
      simp only [hd]
  · rfl

theorem codes_chars_append {n : Nat} (h : isNumber n = true) (cs : List Char) :
    codes (chars n ++ cs) = n :: codes cs := by
  rw [isNumber_iff] at h
  have hbase : base = 0x10F000 := rfl
  have hleast : least = 0xD800 := rfl
  have hnumber : isNumber (base + (n - least)) = false := by
    rw [← Bool.not_eq_true, isNumber_iff]
    omega
  have hchar : ofChar? (Char.ofNat (base + (n - least))) = some n := by
    rw [ofChar?, toNat_ofNat (by omega) hnumber, if_pos (by omega)]
    exact congrArg some (by omega)
  simp [chars, codes, hchar]

theorem codes_append (cs : List Char) {ds : List Char} (h : ds.head?.bind ofChar? = none) :
    codes (cs ++ ds) = codes cs ++ codes ds := by
  fun_induction codes cs with
  | case1 => rfl
  | case2 => exact codes_cons fun _ => h
  | case3 d cs n hn ih => simp [codes, hn, ih]
  | case4 d cs hn ih =>
    have hhead : (d :: cs ++ ds).head?.bind ofChar? = none := hn
    rw [List.cons_append, codes_cons fun _ => hhead, ih, List.cons_append]
  | case5 c cs hc ih =>
    rw [List.cons_append, codes_cons fun hmark => absurd hmark hc, ih, List.cons_append]

theorem isIn_append (s : String) {t : String} (h : t.toList.head?.bind ofChar? = none) :
    isIn (s ++ t) = (isIn s || isIn t) := by
  rw [isIn, String.toList_append, codes_append _ h, List.any_append]
  rfl

theorem head?_flatMap_decoded {ns : List Nat} (hmost : ∀ n ∈ ns, n < 0x110000)
    (hhead : ∀ n ∈ ns.head?, ¬IsPrivate n) :
    (ns.flatMap decoded).head?.bind ofChar? = none := by
  cases ns with
  | nil => rfl
  | cons n ns =>
    rw [List.flatMap_cons, decoded]
    cases hnumber : isNumber n with
    | true => rfl
    | false =>
      have hn := toNat_ofNat (hmost n List.mem_cons_self) hnumber
      refine ofChar?_eq_none.2 ?_
      rw [hn]
      exact hhead n rfl

/-- code points come back from their text, where no mark has a private character for a half right
behind it -/
theorem codes_flatMap_decoded {ns : List Nat} (hmost : ∀ n ∈ ns, n < 0x110000)
    (hapart : ns.IsChain fun n m => n = mark.toNat → ¬IsPrivate m) :
    codes (ns.flatMap decoded) = ns := by
  induction ns with
  | nil => rfl
  | cons n ns ih =>
    have hrest : ∀ m ∈ ns, m < 0x110000 := fun m hm => hmost m (List.mem_cons_of_mem n hm)
    have hcodes := ih hrest hapart.tail
    rw [List.flatMap_cons, decoded]
    cases hnumber : isNumber n with
    | true => rw [if_pos rfl, codes_chars_append hnumber, hcodes]
    | false =>
      have hn := toNat_ofNat (hmost n List.mem_cons_self) hnumber
      rw [if_neg Bool.false_ne_true, List.singleton_append, codes_cons, hn, hcodes]
      intro hmark
      exact head?_flatMap_decoded hrest fun m hm =>
        (List.isChain_cons.1 hapart).1 m hm (hn.symm.trans (congrArg Char.toNat hmark))

end LinkedCalls.Half
