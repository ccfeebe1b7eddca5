import LinkedCalls.Table

/-!
Laws of tables. Writing and erasing keep the keys distinct; in such a table an erased key is gone,
and a key that is written anew stands at the end. Writes under different keys may change places, and
a sequence of writes that is made twice is made once.
-/
namespace LinkedCalls

theorem Scalar.same_refl (a : Scalar) : a.same a = true := by
  cases a with
  | float x => cases x <;> simp [Scalar.same, Binary64.same]
  | _ => simp [Scalar.same, Scalar.toInt?]

theorem Scalar.same_text_iff {a : Scalar} {s : String} : a.same (.text s) = true ↔ a = .text s := by
  cases a <;> simp [Scalar.same, Scalar.toInt?]

theorem Scalar.text_same_iff {s : String} {b : Scalar} :
    (Scalar.text s).same b = true ↔ b = .text s := by
  cases b with
  | text t =>
    simp only [Scalar.same, beq_iff_eq, Scalar.text.injEq]
    exact eq_comm
  | _ => simp [Scalar.same, Scalar.toInt?]

namespace Scalar

theorem one_lt_pow_mostDigits : 1 < Nat.pow 10 mostDigits := by
  rw [Nat.pow_eq]
  exact Nat.one_lt_pow (by decide) (by decide)

theorem isLong_of_toInt? {a : Scalar} {n : Int} (h : a.toInt? = some n) :
    a.isLong = decide (Nat.pow 10 mostDigits ≤ n.natAbs) := by
  cases a with
  | int m => rw [isLong, Option.some.inj h]
  | bool b =>
    have hle : n.natAbs ≤ 1 := by
      rw [← Option.some.inj h]
      cases b <;> decide
    exact (decide_eq_false (Nat.not_le.2 (Nat.lt_of_le_of_lt hle one_lt_pow_mostDigits))).symm
  | _ => cases h

theorem lt_two_pow_of_mul_lt {n a b c d : Nat}
    (h : n * Nat.pow 2 a < Nat.pow 2 b * Nat.pow 2 c) (hd : b + c ≤ a + d) : n < Nat.pow 2 d := by
  simp only [Nat.pow_eq, ← Nat.pow_add] at h ⊢
  refine Nat.lt_of_mul_lt_mul_right (a := 2 ^ a) (Nat.lt_of_lt_of_le h ?_)
  rw [← Nat.pow_add]
  exact Nat.pow_le_pow_right (by decide) (by omega)

/-- a float that is an integer is far less than the least number that is too long -/
theorem natAbs_lt_of_sameInt {x : Binary64} {n : Int} (h : x.sameInt n = true) :
    n.natAbs < Nat.pow 10 mostDigits := by
  cases x with
  | nan mark => cases h
  | infinite negative => cases h
  | finite negative m e hcanonical =>
    have hnumerator : Binary64.numerator negative m e = n * (Binary64.unit : Int) :=
      beq_iff_eq.1 h
    have hscaled : n.natAbs * Binary64.unit = Binary64.scaled m e := by
      rw [← Int.natAbs_natCast Binary64.unit, ← Int.natAbs_mul, ← hnumerator, Binary64.numerator]
      split <;> simp
    have hlt : Binary64.scaled m e < Nat.pow 2 53 * Nat.pow 2 e :=
      Nat.mul_lt_mul_of_pos_right hcanonical.1 (Nat.two_pow_pos e)
    rw [← hscaled] at hlt
    unfold Binary64.unit at hlt
    have hexponent : 53 + e ≤ 1074 + mostDigits :=
      Nat.le_trans (Nat.add_le_add_left hcanonical.2.1 53) (by decide)
    have hpow : ∀ k, Nat.pow 2 k ≤ Nat.pow 10 k := Nat.pow_le_pow_left (by decide)
    exact Nat.lt_of_lt_of_le (lt_two_pow_of_mul_lt hlt hexponent) (hpow mostDigits)

theorem isLong_eq_of_same {a b : Scalar} (h : a.same b = true) : a.isLong = b.isLong := by
  have hfloat : ∀ {x : Binary64} {c : Scalar}, (c.toInt?.map x.sameInt).getD false = true →
      c.isLong = false := by
    intro x c hsame
    cases hint : c.toInt? with
    | none =>
      rw [hint] at hsame
      cases hsame
    | some n =>
      rw [hint] at hsame
      rw [isLong_of_toInt? hint]
      exact decide_eq_false (Nat.not_le.2 (natAbs_lt_of_sameInt hsame))
  unfold same at h
  split at h
  · rfl
  · rfl
  · rfl
  · exact (hfloat h).symm
  · exact hfloat h
  · obtain ⟨hsome, heq⟩ := Bool.and_eq_true_iff.1 h
    obtain ⟨n, hn⟩ := Option.isSome_iff_exists.1 hsome
    rw [isLong_of_toInt? hn, isLong_of_toInt? ((beq_iff_eq.1 heq).symm.trans hn)]

end Scalar

namespace Table

variable {α : Type}

/-- no key stands twice -/
def Distinct (t : Table α) : Prop := t.Pairwise fun d e => d.1.same e.1 = false

instance (t : Table α) : Decidable t.Distinct :=
  inferInstanceAs (Decidable (List.Pairwise (fun d e => d.1.same e.1 = false) t))

theorem find?_cons (d : Scalar × α) (t : Table α) (key : Scalar) :
    find? (d :: t) key = if d.1.same key then some d.2 else t.find? key := by
  cases h : d.1.same key <;> simp [find?, h]

theorem erase_cons (d : Scalar × α) (t : Table α) (key : Scalar) :
    erase (d :: t) key = if d.1.same key then t else d :: t.erase key := by
  cases h : d.1.same key <;> simp [erase, h]

theorem find?_eq_none_iff {t : Table α} {s : String} :
    t.find? (.text s) = none ↔ ∀ e ∈ t, e.1 ≠ .text s := by
  simp [find?, Scalar.same_text_iff]

theorem has_of_mem {t : Table α} {e : Scalar × α} (he : e ∈ t) : t.has e.1 = true := by
  rw [has, find?, Option.isSome_map, List.find?_isSome]
  exact ⟨e, he, Scalar.same_refl e.1⟩

theorem erase_of_not_has {t : Table α} {key : Scalar} (h : t.has key = false) :
    t.erase key = t := by
  rw [has, find?, Option.isSome_map, Option.isSome_eq_false_iff, Option.isNone_iff_eq_none,
    List.find?_eq_none] at h
  exact List.eraseP_of_forall_not h

theorem exists_erased {t : Table α} {key : Scalar} (h : t.has key = true) :
    ∃ e : Scalar × α, e.1.same key = true ∧ t.find? key = some e.2 ∧
      t.Perm (e :: t.erase key) := by
  induction t with
  | nil => cases h
  | cons d t ih =>
    rw [find?_cons, erase_cons]
    by_cases hd : d.1.same key = true
    · rw [if_pos hd, if_pos hd]
      exact ⟨d, hd, rfl, .refl _⟩
    · rw [if_neg hd, if_neg hd]
      rw [has, find?_cons, if_neg hd] at h
      obtain ⟨e, hsame, hfound, hperm⟩ := ih h
      exact ⟨e, hsame, hfound, (hperm.cons d).trans (.swap e d _)⟩

theorem find?_append (t u : Table α) (key : Scalar) :
    find? (t ++ u) key = (t.find? key).or (u.find? key) := by
  induction t with
  | nil => rfl
  | cons d t ih =>
    rw [List.cons_append, find?_cons, find?_cons, ih]
    split <;> rfl

theorem insert_of_find?_eq_none {t : Table α} {key : Scalar} {v : α} (h : t.find? key = none) :
    t.insert key v = t ++ [(key, v)] := by
  induction t with
  | nil => rfl
  | cons d t ih =>
    rw [find?_cons] at h
    split at h
    · cases h
    · next hd => simp [insert, hd, ih h]

theorem keys_insert_of_has {t : Table α} {key : Scalar} (h : t.has key = true) (v : α) :
    (t.insert key v).keys = t.keys := by
  induction t with
  | nil => cases h
  | cons d t ih =>
    rw [insert]
    split
    · rfl
    · next hd =>
      rw [has, find?_cons, if_neg hd] at h
      exact congrArg (d.1 :: ·) (ih h)

theorem keys_insert_of_not_has {t : Table α} {key : Scalar} (h : t.has key = false) (v : α) :
    (t.insert key v).keys = t.keys ++ [key] := by
  rw [insert_of_find?_eq_none (Option.not_isSome_iff_eq_none.1 (Bool.eq_false_iff.1 h)), keys,
    List.map_append]
  rfl

theorem key_of_mem_insert {t : Table α} {key : Scalar} {v : α} {e : Scalar × α}
    (h : e ∈ t.insert key v) : e.1 = key ∨ ∃ d ∈ t, d.1 = e.1 := by
  induction t with
  | nil =>
    left
    simp only [insert, List.mem_singleton] at h
    rw [h]
  | cons d t ih =>
    simp only [insert] at h
    split at h
    · rcases List.mem_cons.1 h with rfl | h
      · exact .inr ⟨d, List.mem_cons_self, rfl⟩
      · exact .inr ⟨e, List.mem_cons_of_mem _ h, rfl⟩
    · rcases List.mem_cons.1 h with rfl | h
      · exact .inr ⟨e, List.mem_cons_self, rfl⟩
      · rcases ih h with hk | ⟨c, hc, hk⟩
        · exact .inl hk
        · exact .inr ⟨c, List.mem_cons_of_mem _ hc, hk⟩

theorem Distinct.insert {t : Table α} (h : t.Distinct) (key : Scalar) (v : α) :
    (t.insert key v).Distinct := by
  induction t with
  | nil => exact List.pairwise_singleton _ _
  | cons d t ih =>
    obtain ⟨hd, ht⟩ := List.pairwise_cons.1 h
    simp only [Table.insert]
    split
    · exact List.pairwise_cons.2 ⟨hd, ht⟩
    · next hk =>
      refine List.pairwise_cons.2 ⟨fun e he => ?_, ih ht⟩
      rcases key_of_mem_insert he with hek | ⟨c, hc, hec⟩
      · rw [hek]
        exact Bool.eq_false_iff.2 hk
      · rw [← hec]
        exact hd c hc

theorem Distinct.erase {t : Table α} (h : t.Distinct) (key : Scalar) : (t.erase key).Distinct :=
  List.Pairwise.sublist List.eraseP_sublist h

theorem distinct_iff_nodup {t : Table α} {names : List String} (h : t.keys = names.map .text) :
    t.Distinct ↔ names.Nodup := by
  have hkeys : t.Distinct ↔ t.keys.Pairwise fun a b => a.same b = false := by
    rw [keys, List.pairwise_map]
    rfl
  have hne : ∀ a b : String, (Scalar.text a).same (.text b) = false ↔ a ≠ b := by
    intro a b
    rw [Bool.eq_false_iff, ne_eq, Scalar.text_same_iff, Scalar.text.injEq, ne_eq, eq_comm]
  rw [hkeys, h, List.pairwise_map]
  simp only [hne]
  rfl

theorem has_iff_mem_keys {t : Table α} {names : List String} (h : t.keys = names.map .text)
    (key : Scalar) : t.has key = true ↔ key ∈ t.keys := by
  rw [has, find?, Option.isSome_map, List.find?_isSome, keys, List.mem_map]
  refine exists_congr fun e => and_congr_right fun he => ?_
  have hmem : e.1 ∈ t.keys := List.mem_map_of_mem he
  rw [h] at hmem
  obtain ⟨name, -, hname⟩ := List.mem_map.1 hmem
  rw [← hname, Scalar.text_same_iff, eq_comm]

theorem has_text_iff_mem {t : Table α} {names : List String} (h : t.keys = names.map .text)
    (name : String) : t.has (.text name) = true ↔ name ∈ names := by
  rw [has_iff_mem_keys h, h, List.mem_map]
  simp only [Scalar.text.injEq, exists_eq_right]

theorem Distinct.find?_of_mem {t : Table α} (h : t.Distinct) {e : Scalar × α} (he : e ∈ t) :
    t.find? e.1 = some e.2 := by
  induction t with
  | nil => cases he
  | cons d t ih =>
    obtain ⟨hd, ht⟩ := List.pairwise_cons.1 h
    rw [find?_cons]
    rcases List.mem_cons.1 he with rfl | he
    · rw [if_pos (Scalar.same_refl e.1)]
    · rw [if_neg (Bool.eq_false_iff.1 (hd e he)), ih ht he]

theorem Distinct.fst_ne_of_mem_erase {t : Table α} (h : t.Distinct) {key : Scalar}
    {e : Scalar × α} (he : e ∈ t.erase key) : e.1 ≠ key := by
  induction t with
  | nil => cases he
  | cons d t ih =>
    obtain ⟨hd, ht⟩ := List.pairwise_cons.1 h
    rw [erase_cons] at he
    split at he
    · next hsame =>
      rintro rfl
      exact Bool.false_ne_true ((hd e he).symm.trans hsame)
    · next hother =>
      rcases List.mem_cons.1 he with rfl | he
      · rintro rfl
        exact hother (Scalar.same_refl _)
      · exact ih ht he

theorem foldl_insert {t u : Table α} (h : Distinct (u ++ t)) :
    t.foldl (fun t e => Table.insert t e.1 e.2) u = u ++ t := by
  induction t generalizing u with
  | nil => rw [List.append_nil, List.foldl_nil]
  | cons e t ih =>
    have hnone : find? u e.1 = none := by
      simp only [find?, Option.map_eq_none_iff, List.find?_eq_none, Bool.not_eq_true]
      exact fun d hd => (List.pairwise_append.1 h).2.2 d hd e List.mem_cons_self
    rw [List.foldl_cons, insert_of_find?_eq_none hnone, ih (by simpa using h)]
    simp

theorem Distinct.ofPairs_eq {t : Table α} (h : t.Distinct) : ofPairs t = t :=
  foldl_insert (u := []) h

/-- the first entry of a key is its only one -/
theorem Distinct.erase_eq_filter {t : Table α} (h : t.Distinct) (s : String) :
    t.erase (.text s) = t.filter fun e => !e.1.same (.text s) := by
  induction t with
  | nil => rfl
  | cons d t ih =>
    obtain ⟨hd, ht⟩ := List.pairwise_cons.1 h
    rw [erase_cons, List.filter_cons]
    cases hk : d.1.same (.text s) with
    | true =>
      have hrest : ∀ e ∈ t, (!e.1.same (.text s)) = true := by
        intro e he
        rw [Bool.not_eq_true', Bool.eq_false_iff]
        intro hes
        have hsame := hd e he
        rw [Scalar.same_text_iff.1 hes, hk] at hsame
        exact Bool.noConfusion hsame
      simpa using (List.filter_eq_self.2 hrest).symm
    | false => simpa using ih ht

theorem Distinct.keys_erase {t : Table α} (h : t.Distinct) {names : List String}
    (hkeys : t.keys = names.map .text) (s : String) :
    (t.erase (.text s)).keys = (names.filter fun name => !name == s).map .text := by
  rw [h.erase_eq_filter, keys]
  show (t.filter ((fun key => !key.same (.text s)) ∘ Prod.fst)).map Prod.fst = _
  rw [← List.filter_map, ← keys, hkeys, List.filter_map]
  rfl

theorem find?_filter_self (t : Table α) (s : String) :
    find? (t.filter fun e => !e.1.same (.text s)) (.text s) = none := by
  rw [find?_eq_none_iff]
  intro e he hs
  simp [Scalar.same_text_iff.2 hs] at he

theorem Distinct.find?_erase_self {t : Table α} (h : t.Distinct) (s : String) :
    (t.erase (.text s)).find? (.text s) = none := by
  rw [h.erase_eq_filter, find?_filter_self]

theorem same_text_of_ne {key : Scalar} {r s : String} (h : r ≠ s) (hr : key.same (.text r) = true) :
    key.same (.text s) = false := by
  simp [Scalar.same_text_iff.1 hr, Scalar.same, h]

theorem find?_erase_of_ne {t : Table α} {r s : String} (h : r ≠ s) :
    (t.erase (.text r)).find? (.text s) = t.find? (.text s) := by
  induction t with
  | nil => rfl
  | cons d t ih =>
    rw [erase_cons, find?_cons]
    split
    · next hr => simp [same_text_of_ne h hr]
    · rw [find?_cons, ih]

/-- a key of text is gone if it is erased, and stays if another key is, of whatever kind -/
theorem Distinct.find?_erase_text {t : Table α} (h : t.Distinct) (key : Scalar) (s : String) :
    (t.erase key).find? (.text s) = if key = .text s then none else t.find? (.text s) := by
  by_cases hkey : key = .text s
  · rw [if_pos hkey, hkey, h.find?_erase_self]
  · rw [if_neg hkey]
    clear h
    induction t with
    | nil => rfl
    | cons d t ih =>
      rw [erase_cons, find?_cons]
      split
      · next hsame =>
        have hd : ¬d.1.same (.text s) = true := by
          intro hs
          rw [Scalar.same_text_iff.1 hs] at hsame
          exact hkey (Scalar.text_same_iff.1 hsame)
        rw [if_neg hd]
      · rw [find?_cons, ih]

theorem find?_insert (t : Table α) (s : String) (v : α) (key : Scalar) :
    (t.insert (.text s) v).find? key =
      if (Scalar.text s).same key then some v else t.find? key := by
  induction t with
  | nil => rw [Table.insert, find?_cons]
  | cons d t ih =>
    rw [Table.insert, find?_cons]
    by_cases hd : d.1.same (.text s) = true
    · rw [if_pos hd, find?_cons, Scalar.same_text_iff.1 hd]
      split <;> rfl
    · rw [if_neg hd, find?_cons, ih]
      by_cases hs : (Scalar.text s).same key = true
      · rw [if_pos hs, if_pos hs]
        rw [Scalar.text_same_iff.1 hs, if_neg hd]
      · rw [if_neg hs, if_neg hs]

/-- a key of text is found as written, whatever is written under keys of other kinds -/
theorem find?_insert_text (t : Table α) (key : Scalar) (v : α) (s : String) :
    (t.insert key v).find? (.text s) = if key = .text s then some v else t.find? (.text s) := by
  induction t with
  | nil => simp only [Table.insert, find?_cons, Scalar.same_text_iff]
  | cons d t ih =>
    rw [Table.insert, find?_cons]
    by_cases hd : d.1 = .text s
    · rw [if_pos (Scalar.same_text_iff.2 hd), hd]
      by_cases hkey : key = .text s
      · rw [if_pos (Scalar.text_same_iff.2 hkey), if_pos hkey, find?_cons,
          if_pos (Scalar.text_same_iff.2 rfl)]
      · rw [if_neg (mt Scalar.text_same_iff.1 hkey), if_neg hkey, find?_cons,
          if_pos (Scalar.same_text_iff.2 hd)]
    · rw [if_neg (mt Scalar.same_text_iff.1 hd)]
      split
      · next hsame =>
        have hkey : key ≠ .text s := by
          rintro rfl
          exact hd (Scalar.same_text_iff.1 hsame)
        rw [find?_cons, if_neg (mt Scalar.same_text_iff.1 hd), if_neg hkey]
      · rw [find?_cons, if_neg (mt Scalar.same_text_iff.1 hd), ih]

theorem has_insert_text {t : Table α} {key : Scalar} {v : α} {s : String} :
    (t.insert key v).has (.text s) = true ↔ t.has (.text s) = true ∨ key = .text s := by
  rw [has, find?_insert_text]
  by_cases hkey : key = .text s
  · simp [hkey]
  · simp [hkey, has]

theorem find?_insert_of_ne {t : Table α} {r s : String} {v : α} (h : r ≠ s) :
    (t.insert (.text r) v).find? (.text s) = t.find? (.text s) := by
  rw [find?_insert, if_neg]
  simp [Scalar.same, h]

theorem has_insert (t : Table α) (s : String) (v : α) (key : Scalar) :
    (t.insert (.text s) v).has key = ((Scalar.text s).same key || t.has key) := by
  rw [has, find?_insert]
  cases (Scalar.text s).same key <;> rfl

theorem insert_insert_self (t : Table α) (s : String) (u v : α) :
    (t.insert (.text s) u).insert (.text s) v = t.insert (.text s) v := by
  induction t with
  | nil => simp [Table.insert, Scalar.same]
  | cons d t ih =>
    by_cases hd : d.1.same (.text s) = true
    · simp [Table.insert, hd]
    · simp [Table.insert, hd, ih]

/-- a write in place commutes with a write under another key -/
theorem insert_comm {t : Table α} {r s : String} (hne : r ≠ s) (h : t.has (.text r) = true)
    (u v : α) :
    (t.insert (.text s) u).insert (.text r) v = (t.insert (.text r) v).insert (.text s) u := by
  induction t with
  | nil => cases h
  | cons d t ih =>
    by_cases hr : d.1.same (.text r) = true
    · have hs : d.1.same (.text s) = false := same_text_of_ne hne hr
      simp [Table.insert, hr, hs]
    · have ht : Table.has t (.text r) = true := by
        rwa [has, find?_cons, if_neg hr] at h
      by_cases hs : d.1.same (.text s) = true
      · simp [Table.insert, hr, hs]
      · simp [Table.insert, hr, hs, ih ht]

/-- the table with entries written in order -/
def write (t : Table α) (writes : List (String × α)) : Table α :=
  writes.foldl (fun t e => t.insert (.text e.1) e.2) t

@[simp] theorem write_nil (t : Table α) : t.write [] = t := rfl

@[simp] theorem write_cons (t : Table α) (e : String × α) (writes : List (String × α)) :
    t.write (e :: writes) = (t.insert (.text e.1) e.2).write writes := rfl

theorem write_append (t : Table α) (writes writes' : List (String × α)) :
    t.write (writes ++ writes') = (t.write writes).write writes' :=
  List.foldl_append

theorem not_mem_keys_iff {writes : List (String × α)} {s : String} :
    (∀ e ∈ writes, (Scalar.text e.1).same (.text s) = false) ↔ s ∉ writes.map Prod.fst := by
  constructor
  · intro h hs
    obtain ⟨e, he, rfl⟩ := List.mem_map.1 hs
    exact Bool.false_ne_true ((h e he).symm.trans (Scalar.text_same_iff.2 rfl))
  · intro h e he
    rw [Bool.eq_false_iff, ne_eq, Scalar.text_same_iff, Scalar.text.injEq]
    rintro rfl
    exact h (List.mem_map_of_mem he)

theorem find?_write_of_not_mem {t : Table α} {writes : List (String × α)} {key : Scalar}
    (h : ∀ e ∈ writes, (Scalar.text e.1).same key = false) :
    (t.write writes).find? key = t.find? key := by
  induction writes generalizing t with
  | nil => rfl
  | cons e writes ih =>
    obtain ⟨he, hrest⟩ := List.forall_mem_cons.1 h
    rw [write_cons, ih hrest, find?_insert, he, if_neg Bool.false_ne_true]

theorem find?_write_congr {t u : Table α} {writes : List (String × α)} {key : Scalar}
    (h : (∀ e ∈ writes, (Scalar.text e.1).same key = false) → t.find? key = u.find? key) :
    (t.write writes).find? key = (u.write writes).find? key := by
  induction writes generalizing t u with
  | nil => exact h (by simp)
  | cons e writes ih =>
    rw [write_cons, write_cons]
    refine ih fun hrest => ?_
    rw [find?_insert, find?_insert]
    cases he : (Scalar.text e.1).same key with
    | true => rfl
    | false => exact h (List.forall_mem_cons.2 ⟨he, hrest⟩)

theorem find?_write_comm {writes writes' : List (String × α)}
    (h : ∀ e ∈ writes, ∀ e' ∈ writes', e.1 ≠ e'.1) (t : Table α) (key : Scalar) :
    ((t.write writes).write writes').find? key = ((t.write writes').write writes).find? key := by
  by_cases hkey : ∀ e ∈ writes, (Scalar.text e.1).same key = false
  · rw [find?_write_of_not_mem hkey]
    exact find?_write_congr fun _ => find?_write_of_not_mem hkey
  · have hkey' : ∀ e' ∈ writes', (Scalar.text e'.1).same key = false := by
      intro e' he'
      rw [Bool.eq_false_iff]
      intro hsame
      refine hkey fun e he => ?_
      rw [Scalar.text_same_iff.1 hsame]
      simp [Scalar.same, h e he e' he']
    rw [find?_write_of_not_mem hkey']
    exact find?_write_congr fun _ => (find?_write_of_not_mem hkey').symm

theorem has_write_iff {t : Table α} {writes : List (String × α)} {s : String} :
    (t.write writes).has (.text s) = true ↔ t.has (.text s) = true ∨ s ∈ writes.map Prod.fst := by
  induction writes generalizing t with
  | nil => simp
  | cons e writes ih =>
    rw [write_cons, ih, has_insert_text, Scalar.text.injEq, List.map_cons, List.mem_cons, or_assoc,
      eq_comm (a := s)]

theorem has_write_of_has {t : Table α} {key : Scalar} (h : t.has key = true)
    (writes : List (String × α)) : (t.write writes).has key = true := by
  induction writes generalizing t with
  | nil => exact h
  | cons e writes ih => exact ih (by rw [has_insert, h, Bool.or_true])

/-- a write in place is lost on later ones under its key -/
theorem write_insert_of_mem {t : Table α} {s : String} {writes : List (String × α)}
    (h : t.has (.text s) = true) (hs : s ∈ writes.map Prod.fst) (v : α) :
    (t.insert (.text s) v).write writes = t.write writes := by
  induction writes generalizing t with
  | nil => cases hs
  | cons e writes ih =>
    rw [write_cons, write_cons]
    by_cases he : s = e.1
    · rw [he, insert_insert_self]
    · have hkept : (t.insert (.text e.1) e.2).has (.text s) = true := by
        rw [has_insert, h, Bool.or_true]
      rw [← insert_comm he h, ih hkept ((List.mem_cons.1 hs).resolve_left he)]

theorem write_insert_of_not_mem {t : Table α} {s : String} {writes : List (String × α)}
    (h : t.has (.text s) = true) (hs : s ∉ writes.map Prod.fst) (v : α) :
    (t.insert (.text s) v).write writes = (t.write writes).insert (.text s) v := by
  induction writes generalizing t with
  | nil => rfl
  | cons e writes ih =>
    obtain ⟨he, hrest⟩ := not_or.1 (mt List.mem_cons.2 hs)
    have hkept : (t.insert (.text e.1) e.2).has (.text s) = true := by
      rw [has_insert, h, Bool.or_true]
    rw [write_cons, write_cons, ← insert_comm he h, ih hkept hrest]

theorem write_write_self (t : Table α) (writes : List (String × α)) :
    (t.write writes).write writes = t.write writes := by
  induction writes generalizing t with
  | nil => rfl
  | cons e writes ih =>
    have hhas : (t.insert (.text e.1) e.2).has (.text e.1) = true := by
      rw [has_insert]
      simp [Scalar.same]
    have hkept : ((t.insert (.text e.1) e.2).write writes).has (.text e.1) = true :=
      has_write_of_has hhas writes
    rw [write_cons, write_cons]
    by_cases he : e.1 ∈ writes.map Prod.fst
    · rw [write_insert_of_mem hkept he, ih]
    · rw [write_insert_of_not_mem hkept he, ih, ← write_insert_of_not_mem hhas he,
        insert_insert_self]

end Table

end LinkedCalls
