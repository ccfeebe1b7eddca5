import LinkedCalls.Proofs.Yaml.Build

/-!
Written documents hold visible characters and line feeds only, so their text is read as it is.
-/
namespace LinkedCalls.Yaml

def IsPrinted (cs : List Char) : Prop := ∀ c ∈ cs, c = '\n' ∨ Style.isVisible c = true

namespace IsPrinted

variable {cs ds : List Char} {n : Nat}

theorem nil : IsPrinted [] := by simp [IsPrinted]

theorem append (hcs : IsPrinted cs) (hds : IsPrinted ds) : IsPrinted (cs ++ ds) := fun c hc =>
  (List.mem_append.1 hc).elim (hcs c) (hds c)

theorem cons {c : Char} (hc : c = '\n' ∨ Style.isVisible c = true) (hcs : IsPrinted cs) :
    IsPrinted (c :: cs) := fun d hd => by
  rcases List.mem_cons.1 hd with rfl | hd
  · exact hc
  · exact hcs d hd

theorem of_visible (h : ∀ c ∈ cs, Style.isVisible c = true) : IsPrinted cs := fun c hc =>
  .inr (h c hc)

theorem blanks (n : Nat) : IsPrinted (blanks n) := fun _ hc =>
  .inr (by rw [eq_blank_of_mem hc]; rfl)

theorem newLine (n : Nat) : IsPrinted (newLine n) := cons (.inl rfl) (blanks n)

theorem breaks (n : Nat) : IsPrinted (List.replicate n '\n') := fun _ hc =>
  .inl (List.eq_of_mem_replicate hc)

theorem doubledQuotes (h : IsPrinted cs) : IsPrinted (doubledQuotes cs) := fun c hc => by
  obtain ⟨d, hd, hc⟩ := List.mem_flatMap.1 hc
  split_ifs at hc with hquote
  · obtain rfl : c = '\'' := by simpa using hc
    exact .inr (by decide)
  · obtain rfl := List.mem_singleton.1 hc
    exact h c hd

theorem layout {quote : List Char → List Char} (hquote : ∀ w, IsPrinted w → IsPrinted (quote w))
    {rs : List Run} (h : IsPrinted (Run.texts rs)) (indent column : Nat) (first : Bool) :
    IsPrinted (Run.layout quote indent column first rs) := by
  induction rs generalizing column first with
  | nil => exact nil
  | cons r rs ih =>
    have hrs := ih fun c hc => h c (by simp [hc])
    cases r with
    | word w =>
      have hw : IsPrinted w := fun c hc => h c (by simp [Run.text, hc])
      exact (hquote w hw).append (hrs _ _)
    | blanks n =>
      rw [Run.layout]
      split_ifs
      · exact (newLine indent).append (hrs _ _)
      · exact (blanks n).append (hrs _ _)
    | breaks n => exact ((breaks n).append (newLine indent)).append (hrs _ _)

end IsPrinted

section Escapes

theorem isVisible_hexDigit (d : Nat) (hd : d < 16) :
    Style.isVisible (Nat.digitChar d).toUpper = true := by
  decide +revert

theorem isPrinted_upperHex (k n : Nat) : IsPrinted (upperHex k n) := by
  induction k generalizing n with
  | zero => exact .nil
  | succ k ih =>
    exact (ih _).append (.cons (.inr (isVisible_hexDigit _ (Nat.mod_lt _ (by decide)))) .nil)

theorem isPrinted_escaped (n : Nat) : IsPrinted (escaped n) := by
  unfold escaped
  split
  · next e he =>
    have hletters : ∀ e ∈ escapeLetters, Style.isVisible e.2 = true := by decide
    exact .cons (.inr (by decide)) (.cons (.inr (hletters e (List.mem_of_find?_eq_some he))) .nil)
  · split_ifs
    all_goals exact .cons (.inr (by decide)) (.cons (.inr (by decide)) (isPrinted_upperHex _ _))

theorem isPrinted_continued (indent : Nat) (next : List Nat) :
    IsPrinted (continued indent next) := by
  unfold continued
  refine (IsPrinted.cons (.inr (by decide)) (.newLine indent)).append ?_
  split_ifs
  · exact .cons (.inr (by decide)) .nil
  · exact .nil

theorem isPrinted_doubleLayout (indent column : Nat) (fresh first : Bool) (ns : List Nat) :
    IsPrinted (doubleLayout indent column fresh first ns) := by
  induction ns generalizing column fresh first with
  | nil => exact .nil
  | cons n ns ih =>
    have hvisible : needsEscape n = false → Style.isVisible (Char.ofNat n) = true := fun h =>
      (visible_of_not_needsEscape h).2.1
    simp only [doubleLayout]
    split_ifs with hescape
    · exact ((isPrinted_escaped n).append (isPrinted_continued indent ns)).append (ih _ _ _)
    · exact (isPrinted_escaped n).append (ih _ _ _)
    · exact (isPrinted_continued indent (n :: ns)).append
        (.cons (.inr (hvisible (by simpa using hescape))) (ih _ _ _))
    · exact .cons (.inr (hvisible (by simpa using hescape))) (ih _ _ _)

end Escapes

theorem isPrinted_textLayout (indent column : Nat) (cs : List Char) :
    IsPrinted (textLayout indent column cs) := by
  have htexts := Run.texts_ofText cs
  cases h : Style.ofText cs with
  | plain =>
    have hvisible := (Scan.isPlainText_of_allowsPlain (Style.eq_plain_iff.1 h).2).1.visible
    simp only [textLayout, h]
    exact .layout (fun w hw => hw) (htexts.symm ▸ .of_visible hvisible) _ _ _
  | single =>
    simp only [textLayout, h]
    refine ((IsPrinted.cons (.inr (by decide)) ?_).append (.cons (.inr (by decide)) .nil))
    exact .layout (fun w hw => hw.doubledQuotes)
      (htexts.symm ▸ (Scan.isSingleText_of_style h).visible) _ _ _
  | double =>
    simp only [textLayout, h]
    exact (IsPrinted.cons (.inr (by decide)) (isPrinted_doubleLayout _ _ _ _ _)).append
      (.cons (.inr (by decide)) .nil)

theorem isPrinted_scalarLayout {s : Scalar} (h : Exportable s) (indent column : Nat) :
    IsPrinted (scalarLayout indent column s) := by
  cases s with
  | text t => exact isPrinted_textLayout indent column t.toList
  | _ =>
    have hword := (Scan.plainWord_scalar h (by simp)).1
    exact .of_visible fun c hc => (hword.visible c hc).1

theorem isPrinted_lines {xs : List (List Char)} (h : ∀ x ∈ xs, IsPrinted x) (n : Nat) :
    IsPrinted (lines n xs) := by
  induction xs with
  | nil => exact .nil
  | cons x xs ih =>
    have hxs := ih fun y hy => h y (by simp [hy])
    have hcons := Scan.lines_cons (n := n) x xs []
    rw [List.append_nil] at hcons
    rw [hcons]
    refine (h x (by simp)).append ?_
    split_ifs
    · exact .nil
    · exact (IsPrinted.newLine n).append (hxs.append .nil)

theorem isPrinted_entries {n : Nat} {fields : Fields}
    (h : ∀ f ∈ fields, ∀ column, IsPrinted (besideKey n column f.2)) :
    IsPrinted (lines n (entryLayouts n fields.entries)) := by
  refine isPrinted_lines (fun x hx => ?_) n
  induction fields with
  | nil => cases hx
  | cons f fields ih =>
    rcases List.mem_cons.1 hx with rfl | hx
    · exact ((isPrinted_textLayout n n f.1.toList).append (.cons (.inr (by decide)) .nil)).append
        (h f (by simp) _)
    · exact ih (fun f hf => h f (by simp [hf])) hx

theorem isPrinted_items {n : Nat} {rows : List Fields} (hne : ∀ r ∈ rows, r ≠ [])
    (h : ∀ r ∈ rows, ∀ f ∈ r, ∀ column, IsPrinted (besideKey (n + 2) column f.2)) :
    IsPrinted (lines n (itemLayouts n (rows.map Value.record))) := by
  refine isPrinted_lines (fun x hx => ?_) n
  induction rows with
  | nil => cases hx
  | cons r rows ih =>
    rcases List.mem_cons.1 hx with rfl | hx
    · have hmark : afterMark n (.record r) =
          lines (n + 2) (entryLayouts (n + 2) (Fields.entries r)) := by
        show afterMark n (.map (Fields.entries r)) = _
        rw [afterMark, if_neg (by simpa [Fields.entries] using hne r (by simp))]
      rw [hmark]
      exact .cons (.inr (by decide)) (.cons (.inr (by decide))
        (isPrinted_entries (h r (by simp))))
    · exact ih (fun r hr => hne r (by simp [hr])) (fun r hr => h r (by simp [hr])) hx

/-- values are written with visible characters and line feeds -/
theorem Fits.isPrinted {n : Nat} {v : Value} (h : Fits n v) (column : Nat) :
    IsPrinted (besideKey n column v) := by
  induction h generalizing column with
  | scalar exportable room =>
    exact .cons (.inr (by decide)) (isPrinted_scalarLayout exportable _ _)
  | list ne keys nodup values ih =>
    rw [besideKey]
    split_ifs
    · exact .of_visible (List.all_eq_true.1 rfl)
    · exact (IsPrinted.newLine _).append (isPrinted_items ne ih)
  | @record n fields ne keys nodup values ih =>
    show IsPrinted (besideKey n column (.map (Fields.entries fields)))
    rw [besideKey, if_neg (by simpa [Fields.entries] using ne)]
    exact (IsPrinted.newLine (n + 2)).append (isPrinted_entries fun f hf => ih f hf)

theorem isPrinted_document {fields : Fields} (h : Fits 0 (.record fields)) :
    IsPrinted (document fields.entries) := by
  obtain ⟨hne, -, -, hvalues⟩ := h.of_record
  rw [document, if_neg (by simpa [Fields.entries] using hne)]
  refine IsPrinted.append (isPrinted_entries fun f hf => ?_) (.cons (.inl rfl) .nil)
  exact Fits.isPrinted ((hvalues f hf).mono (Nat.zero_le _))

section Read

variable {cs : List Char}

theorem isWritable_of_printed {c : Char} (h : c = '\n' ∨ Style.isVisible c = true) :
    isWritable c = true := by
  rcases h with rfl | h
  · decide
  · simp only [Style.isVisible, Bool.and_eq_true, decide_eq_true_eq] at h
    simp [isWritable, h]

theorem plainLines_of_printed (h : IsPrinted cs) : plainLines cs = cs := by
  have hreturn : '\r' ∉ cs := fun hmem => absurd (h _ hmem) (by decide)
  clear h
  fun_induction plainLines cs with
  | case1 => simp at hreturn
  | case2 => simp at hreturn
  | case3 c cs _ _ ih => rw [ih fun hmem => hreturn (by simp [hmem])]
  | case4 => rfl

theorem read_printed (h : IsPrinted cs) :
    Document.read ⟨cs, none⟩ = Document.ofTokens (tokens cs none) := by
  have hfault : Document.firstFault? cs none = none := by
    have hnone : cs.findIdx? (!isWritable ·) = none :=
      List.findIdx?_eq_none_iff.2 fun c hc => by simp [isWritable_of_printed (h c hc)]
    simp [Document.firstFault?, hnone]
  rw [Document.read, plainLines_of_printed h]
  simp only [Option.map_none, hfault]

/-- a written record is read as the same record -/
theorem read_document {fields : Fields} (h : Fits 0 (.record fields)) :
    ∃ doc, Document.read ⟨document fields.entries, none⟩ = .ok doc ∧
      Mirrors doc doc.root (.record fields) := by
  rw [read_printed (isPrinted_document h), tokens_document h]
  exact ofTokens_mirrors h

end Read

end LinkedCalls.Yaml
