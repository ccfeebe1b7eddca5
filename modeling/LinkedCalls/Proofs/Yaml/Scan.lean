import LinkedCalls.Proofs.Yaml.Escapes
import LinkedCalls.Proofs.Yaml.Scalars
import LinkedCalls.Yaml.Token.Stream

/-!
The scanner by its steps. A scan outside brackets that remembers no key is told by its place, its
tokens and the columns of its blocks; each step of it leads to the next one, and the tokens it
yields in the end are those that the step yields.
-/
namespace LinkedCalls.Yaml.Scan

/-- a scan outside brackets that remembers no key -/
def idle (c : Cursor) (ts : List Token) (blocks : List Nat) (keyAllowed : Bool) : Scan where
  cursor := c
  tokens := ts
  count := ts.length
  blocks := blocks
  keyAllowed := keyAllowed
  key := none
  outerKeys := []

/-- the tokens of a scan, however much fuel there is, if it is enough -/
def Yields (s : Scan) (ts : List Token) : Prop :=
  ∀ fuel, s.cursor.left < fuel → tokensFrom none fuel s = ts

theorem Yields.of_next {s t : Scan} {ts : List Token} (h : t.Yields ts)
    (hnext : s.next = .ok (t, true)) (hleft : t.cursor.left < s.cursor.left) : s.Yields ts := by
  intro fuel hfuel
  obtain ⟨fuel, rfl⟩ := Nat.exists_eq_succ_of_ne_zero (Nat.ne_of_gt (Nat.zero_lt_of_lt hfuel))
  simp only [tokensFrom, hnext, if_true]
  exact h fuel (by omega)

theorem Yields.of_end {s t : Scan} (hnext : s.next = .ok (t, false)) :
    s.Yields t.tokens.reverse := by
  intro fuel hfuel
  obtain ⟨fuel, rfl⟩ := Nat.exists_eq_succ_of_ne_zero (Nat.ne_of_gt (Nat.zero_lt_of_lt hfuel))
  simp [tokensFrom, hnext]

def here (s : Scan) : Except Fault (Scan × Bool) := do
  if s.cursor.ahead.isEmpty then
    let s ← (if s.inFlow then s else s.closeAll).dropKey
    return (s, false)
  else return (← s.token, true)

/-- a token starts here -/
structure Starts (cs : List Char) : Prop where
  solid : IsSolid cs
  comment : cs.head? ≠ some '#'

theorem Starts.of_cons {x : Char} {xs : List Char} (hx : isSpace x = false ∧ isBreak x = false)
    (hmark : x ≠ '#') : Starts (x :: xs) where
  solid c hc := by
    obtain rfl := Option.some.inj hc
    exact hx
  comment := by simpa using hmark

theorem starts_of_follows {m : Nat} {cs : List Char} (h : Follows m cs) : Starts cs :=
  ⟨h.solid, h.comment⟩

section Next

variable {c : Cursor} {ts : List Token} {blocks : List Nat} {b : Bool} {m : Nat}
  {cs rest : List Char}

theorem here_of_token {s t : Scan} (hs : s.cursor.ahead ≠ []) (ht : s.token = .ok t) :
    s.here = .ok (t, true) := by
  simp [here, hs, ht]

theorem closeTo_of_le {s : Scan} (h : ∀ n ∈ s.blocks.head?, n ≤ m) : s.closeTo m = s := by
  have hnone : s.blocks.takeWhile (m < ·) = [] := by
    cases hblocks : s.blocks with
    | nil => rfl
    | cons n blocks =>
      have hle : ¬ m < n := not_lt.2 (h n (by simp [hblocks]))
      simp [hle]
  simp [closeTo, hnone]

theorem toNextToken_blanks {s : Scan} {k : Nat} (h : s.cursor.At (blanks k ++ rest))
    (hrest : Starts rest) (fuel : Nat) :
    s.toNextToken (fuel + 1) = { s with cursor := s.cursor.steps k } := by
  have hat : (s.cursor.steps k).At rest := by simpa using h.steps
  have hskip : s.cursor.skipBlanks = s.cursor.steps k := h.skipBlanks hrest.solid
  have hcomment : (s.cursor.steps k).skipComment = s.cursor.steps k := by
    rw [Cursor.skipComment, hat.ahead, if_neg hrest.comment]
  simp [toNextToken, hskip, hcomment, hat.lineBreak?_none hrest.solid]

theorem next_of_toNextToken {d : Cursor} {b' : Bool}
    (h : (idle c ts blocks b).toNextToken (c.left + 1) = idle d ts blocks b') :
    (idle c ts blocks b).next = ((idle d ts blocks b').closeTo d.column).here := by
  have hforget : ((idle c ts blocks b).toNextToken (c.left + 1)).forgetStale =
      .ok (idle d ts blocks b') := by
    rw [h]
    rfl
  unfold next
  simp only [idle] at hforget ⊢
  rw [hforget]
  rfl

theorem next_blanks {k : Nat} (h : c.At (blanks k ++ rest)) (hrest : Starts rest) :
    (idle c ts blocks b).next =
      ((idle (c.steps k) ts blocks b).closeTo (c.steps k).column).here :=
  next_of_toNextToken (toNextToken_blanks h hrest c.left)

theorem toNextToken_newLine {s : Scan} (hflow : s.inFlow = false)
    (h : s.cursor.At (newLine m ++ rest)) (hrest : Starts rest) :
    s.toNextToken (s.cursor.left + 1) =
      { s with cursor := s.cursor.step.steps m, keyAllowed := true } := by
  have h : s.cursor.At ('\n' :: (blanks m ++ rest)) := h
  have hskip : s.cursor.skipBlanks = s.cursor := by
    rw [Cursor.skipBlanks, Cursor.skip, h.span_none (by simp)]
  have hcomment : s.cursor.skipComment = s.cursor := by
    rw [Cursor.skipComment, h.ahead, if_neg (by simp)]
  have hblanks := toNextToken_blanks (s := { s with cursor := s.cursor.step, keyAllowed := true })
    h.step hrest
  obtain ⟨fuel, hfuel⟩ : ∃ fuel, s.cursor.left = fuel + 1 :=
    Nat.exists_eq_succ_of_ne_zero (by simp [h.left])
  rw [hfuel, toNextToken]
  simp only [hskip, hcomment, h.lineBreak?_newline, hflow, Bool.not_false, Bool.or_true]
  exact hblanks fuel

theorem next_newLine (h : c.At (newLine m ++ rest)) (hrest : Starts rest) :
    (idle c ts blocks b).next =
      ((idle (c.step.steps m) ts blocks true).closeTo (c.step.steps m).column).here :=
  next_of_toNextToken (toNextToken_newLine rfl h hrest)

end Next

/-- the next token of a scan is that of an idle scan at `rest` in column `m`, where the blocks right
of that column still have to be closed -/
def Arrives (s : Scan) (m : Nat) (rest : List Char) (ts : List Token) (blocks : List Nat) : Prop :=
  ∃ c : Cursor, c.At rest ∧ c.column = m ∧ c.left ≤ s.cursor.left ∧
    s.next = ((idle c ts blocks true).closeTo m).here

section Arrives

variable {c : Cursor} {s : Scan} {ts : List Token} {blocks : List Nat} {b : Bool} {m n : Nat}
  {rest : List Char}

variable (ts blocks) in
theorem arrives_blanks {k : Nat} (h : c.At (blanks k ++ rest)) (hrest : Starts rest) :
    (idle c ts blocks true).Arrives (c.column + k) rest ts blocks := by
  have hafter : (c.steps k).At rest := by simpa using h.steps
  have hcolumn : (c.steps k).column = c.column + k := by
    simpa using Cursor.steps_column h.ahead (isInline_blanks k)
  refine ⟨c.steps k, hafter, hcolumn, ?_, hcolumn ▸ next_blanks h hrest⟩
  have hleft := h.left
  rw [List.length_append] at hleft
  rw [hafter.left]
  exact (Nat.le_add_left _ _).trans_eq hleft.symm

variable (ts blocks b) in
theorem arrives_newLine (h : c.At (newLine m ++ rest)) (hrest : Starts rest) :
    (idle c ts blocks b).Arrives m rest ts blocks := by
  have hnext : c.At ('\n' :: (blanks m ++ rest)) := h
  have hafter : (c.step.steps m).At rest := by simpa using hnext.step.steps
  have hcolumn : (c.step.steps m).column = m := by
    have hsteps := Cursor.steps_column hnext.step.ahead (isInline_blanks m)
    simpa [Cursor.step_column_newline hnext.ahead] using hsteps
  refine ⟨c.step.steps m, hafter, hcolumn, ?_, ?_⟩
  · have hleft := hnext.left
    rw [List.length_cons, List.length_append] at hleft
    rw [hafter.left]
    show _ ≤ c.left
    omega
  · have hmove : (idle c ts blocks b).next = _ := next_newLine h hrest
    rwa [hcolumn] at hmove

theorem closeTo_cons (hm : m < n) : (idle c ts (n :: blocks) b).closeTo m =
    (idle c (.blockEnd :: ts) blocks b).closeTo m := by
  have hclosed : (n :: blocks).takeWhile (m < ·) = n :: blocks.takeWhile (m < ·) := by
    simp [hm]
  have hends : ∀ k, Token.blockEnd :: (List.replicate k .blockEnd ++ ts) =
      List.replicate k .blockEnd ++ .blockEnd :: ts := fun k => by
    rw [← List.cons_append, ← List.replicate_succ, List.replicate_succ', List.append_assoc]
    rfl
  simp only [closeTo, idle, hclosed]
  simp [List.map_const', hends, Nat.add_assoc, Nat.add_comm 1]

theorem Arrives.close (h : s.Arrives m rest ts (n :: blocks)) (hm : m < n) :
    s.Arrives m rest (.blockEnd :: ts) blocks := by
  obtain ⟨c, hc, hcolumn, hleft, hnext⟩ := h
  refine ⟨c, hc, hcolumn, hleft, ?_⟩
  rw [hnext, closeTo_cons hm]

theorem Arrives.next_eq (h : s.Arrives m rest ts blocks) (hm : ∀ n ∈ blocks.head?, n ≤ m) :
    ∃ c : Cursor, c.At rest ∧ c.column = m ∧ c.left ≤ s.cursor.left ∧
      s.next = (idle c ts blocks true).here := by
  obtain ⟨c, hc, hcolumn, hleft, hnext⟩ := h
  rw [closeTo_of_le (s := idle c ts blocks true) hm] at hnext
  exact ⟨c, hc, hcolumn, hleft, hnext⟩

end Arrives

section Plain

variable {c : Cursor} {s : Scan} {x : Char} {xs : List Char}

theorem token_of_startsPlain (hahead : s.cursor.ahead = x :: xs) (hflow : s.inFlow = false)
    (hstarts : startsPlain false (x :: xs) = true)
    (hmark : s.cursor.column = 0 → documentMark (x :: xs) = false) : s.token = s.plain := by
  have hsigns : x ∉ signs ∨ endsWord xs = false ∧ (x = '-' ∨ x = '?' ∨ x = ':') := by
    simp only [startsPlain, Bool.or_eq_true, Bool.and_eq_true, Bool.not_eq_true',
      Bool.or_eq_false_iff, beq_iff_eq, Bool.not_false, Bool.true_and] at hstarts
    rcases hstarts with ⟨-, hnot⟩ | ⟨hword, hsign⟩
    · exact .inl (by simpa using hnot)
    · exact .inr ⟨hword, hsign⟩
  have hmark : ¬ (s.cursor.column = 0 ∧ documentMark (x :: xs) = true) := fun h => by
    rw [hmark h.1] at h
    exact absurd h.2 (by simp)
  have hnone : ∀ y ∈ signs, x = y → endsWord xs = false ∧ (y = '-' ∨ y = '?' ∨ y = ':') := by
    rintro y hy rfl
    exact hsigns.resolve_left (not_not_intro hy)
  have hother : ∀ y ∈ signs, ¬ (y = '-' ∨ y = '?' ∨ y = ':') → x ≠ y := fun y hy hne h =>
    hne (hnone y hy h).2
  have hbefore : ∀ y ∈ signs, ¬ (x = y ∧ endsWord xs = true) := fun y hy h => by
    rw [(hnone y hy h.1).1] at h
    exact absurd h.2 (by simp)
  unfold token
  simp only [hahead, hflow, hstarts, Bool.false_or]
  rw [if_neg (fun h => hother '%' (by decide) (by decide) h.1), if_neg hmark,
    if_neg (hother '[' (by decide) (by decide)), if_neg (hother '{' (by decide) (by decide)),
    if_neg (hother ']' (by decide) (by decide)), if_neg (hother '}' (by decide) (by decide)),
    if_neg (hother ',' (by decide) (by decide)), if_neg (hbefore '-' (by decide)),
    if_neg (hbefore '?' (by decide)), if_neg (hbefore ':' (by decide)),
    if_neg (hother '*' (by decide) (by decide)), if_neg (hother '&' (by decide) (by decide)),
    if_neg (hother '!' (by decide) (by decide)),
    if_neg (fun h => hother '|' (by decide) (by decide) h.1),
    if_neg (fun h => hother '>' (by decide) (by decide) h.1),
    if_neg (hother '\'' (by decide) (by decide)), if_neg (hother '"' (by decide) (by decide)),
    if_pos trivial]

theorem token_quote (hahead : s.cursor.ahead = '\'' :: xs) :
    s.token = s.leaf (quotedToken false) := by
  simp [token, hahead, documentMark]

theorem token_doubleQuote (hahead : s.cursor.ahead = '"' :: xs) :
    s.token = s.leaf (quotedToken true) := by
  simp [token, hahead, documentMark]

theorem token_openBracket (hahead : s.cursor.ahead = '[' :: xs) :
    s.token = s.openFlow .flowSequence := by
  simp [token, hahead, documentMark]

theorem token_closeBracket (hahead : s.cursor.ahead = ']' :: xs) :
    s.token = s.closeFlow .flowSequenceEnd := by
  simp [token, hahead, documentMark]

theorem token_entry (hahead : s.cursor.ahead = '-' :: ' ' :: xs) : s.token = s.blockEntry := by
  simp [token, hahead, documentMark, endsWord]

theorem token_colon (hahead : s.cursor.ahead = ':' :: xs) (hword : endsWord xs = true) :
    s.token = s.mappingValue := by
  simp [token, hahead, documentMark, hword]

end Plain

def Opens (w : List Char) : Prop :=
  ∃ x xs, w = x :: xs ∧ (x ∉ signs ∨ (xs ≠ [] ∧ (x = '-' ∨ x = '?' ∨ x = ':')))

section Opens

variable {w : List Char} {rs : List Run}

theorem startsPlain_of_opens (hw : IsPlainWord w) (h : Opens w) (tail : List Char) :
    startsPlain false (w ++ tail) = true := by
  obtain ⟨x, xs, rfl, hsign⟩ := h
  obtain ⟨hspace, hbreak⟩ := hw.isSolid tail x rfl
  rcases hsign with hnot | ⟨hne, hsign⟩
  · simp [startsPlain, hspace, hbreak, hnot]
  · obtain ⟨y, ys, rfl⟩ := List.exists_cons_of_ne_nil hne
    obtain ⟨hspace', hbreak'⟩ := hw.of_cons.isSolid tail y rfl
    have hword : endsWord (y :: ys ++ tail) = false := by simp [endsWord, hspace', hbreak']
    rw [List.cons_append, startsPlain, hword]
    rcases hsign with rfl | rfl | rfl <;> simp

theorem opens_signed {negative : Bool} {d : Char} {cs : List Char} (hd : d.isDigit = true) :
    Opens (signed negative (d :: cs)) := by
  cases negative with
  | true => exact ⟨'-', d :: cs, rfl, .inr ⟨by simp, .inl rfl⟩⟩
  | false => exact ⟨d, cs, rfl, .inl (forall_isDigit (P := fun c => c ∉ signs) (by decide) hd)⟩

theorem plainWord_signed {negative : Bool} {d : Char} {cs : List Char} (hd : d.isDigit = true)
    (hcs : ∀ c ∈ d :: cs, IsNumeralChar c) :
    IsPlainWord (signed negative (d :: cs)) ∧ Opens (signed negative (d :: cs)) := by
  have hall : ∀ c ∈ signed negative (d :: cs), IsNumeralChar c := isNumeralChar_signed hcs
  refine ⟨⟨fun c hc => (hall c hc).isFixed.visible, fun hlast => ?_⟩, opens_signed hd⟩
  exact (hall _ (List.mem_of_getLast? hlast)).isFixed.colon rfl

theorem plainWord_scalar {s : Scalar} (h : Exportable s) (hs : ∀ t, s ≠ .text t) :
    IsPlainWord (scalarText s) ∧ Opens (scalarText s) := by
  cases s with
  | null => exact ⟨.of_all rfl (by decide), 'n', _, rfl, .inl (by decide)⟩
  | bool b =>
    cases b with
    | true => exact ⟨.of_all rfl (by decide), 't', _, rfl, .inl (by decide)⟩
    | false => exact ⟨.of_all rfl (by decide), 'f', _, rfl, .inl (by decide)⟩
  | int n =>
    have hdigits : ∀ c ∈ Nat.toDigits 10 n.natAbs, c.isDigit = true := fun c hc =>
      Nat.isDigit_of_mem_toDigits (by decide) (by decide) hc
    obtain ⟨d, cs, hcs⟩ :=
      List.exists_cons_of_ne_nil (Nat.toDigits_ne_nil (n := n.natAbs) (b := 10))
    have htext : scalarText (.int n) = signed (decide (n < 0)) (d :: cs) := by
      rw [← hcs]
      exact toList_toString n
    rw [hcs] at hdigits
    rw [htext]
    exact plainWord_signed (hdigits d (by simp)) fun c hc => .inl (hdigits c hc)
  | float x =>
    cases x with
    | nan mark => exact absurd rfl (h.number mark)
    | infinite negative =>
      cases negative with
      | true => exact ⟨.of_all rfl (by decide), '-', _, rfl, .inr ⟨by simp, .inl rfl⟩⟩
      | false => exact ⟨.of_all rfl (by decide), '.', _, rfl, .inl (by decide)⟩
    | finite negative m e hc =>
      obtain ⟨t, ht, hvalid, -⟩ := exists_pointed_magnitude hc
      obtain ⟨d, cs, hchars, hd⟩ := hvalid.exists_cons
      have htext : scalarText (.float (.finite negative m e hc)) = signed negative (d :: cs) := by
        rw [← hchars, ← ht]
        exact floatLayout_finite hc
      rw [htext]
      exact plainWord_signed hd (hchars ▸ isNumeralChar_chars hvalid)
  | text t => exact absurd rfl (hs t)

theorem isPlainText_of_allowsPlain {cs : List Char} (h : Style.allowsPlain cs = true) :
    IsPlainText cs ∧ cs.head? ≠ some ' ' ∧ Style.startsWithSign cs = false := by
  simp only [Style.allowsPlain, Style.hasBlankEnd, Bool.and_eq_true, Bool.not_eq_true',
    Bool.or_eq_false_iff, beq_eq_false_iff_ne, List.all_eq_true] at h
  obtain ⟨⟨⟨⟨hvisible, hhead, hlast⟩, -⟩, hstart⟩, hsign⟩ := h
  exact ⟨⟨hvisible, hlast, hsign⟩, hhead, hstart⟩

theorem opens_of_startsWithSign (hne : w ≠ []) {xs : List Char} (hxs : endsWord xs = true)
    (h : Style.startsWithSign (w ++ xs) = false) : Opens w := by
  obtain ⟨x, ws, rfl⟩ := List.exists_cons_of_ne_nil hne
  simp only [List.cons_append, Style.startsWithSign, Bool.or_eq_false_iff] at h
  obtain ⟨hstart, hword⟩ := h
  refine ⟨x, ws, rfl, ?_⟩
  by_cases hx : x = '-' ∨ x = '?' ∨ x = ':'
  · refine .inr ⟨?_, hx⟩
    rintro rfl
    rw [List.nil_append, hxs] at hword
    rcases hx with rfl | rfl | rfl <;> exact absurd hword (by decide)
  · refine .inl fun hmem => ?_
    have hsigns : signs.all (fun y =>
        (y = '-' ∨ y = '?' ∨ y = ':') ∨ Style.startSigns.contains y = true) = true := by decide
    have hsign := (of_decide_eq_true (List.all_eq_true.1 hsigns x hmem)).resolve_left hx
    rw [hsign] at hstart
    cases hstart

/-- nothing but a plain scalar starts with the first word of a plain line -/
theorem startsPlain_layout (hline : IsPlainLine rs)
    (h : Style.startsWithSign (Run.texts rs) = false) (indent column : Nat) (first : Bool)
    (tail : List Char) :
    startsPlain false (Run.layout id indent column first rs ++ tail) = true := by
  cases hline with
  | @last w word ne =>
    have hstart : Style.startsWithSign (w ++ []) = false := by simpa [Run.text] using h
    have hopens := opens_of_startsWithSign ne rfl hstart
    simpa only [Run.layout, id, List.append_nil] using startsPlain_of_opens word hopens tail
  | @goOn w n rs word ne hn mark rest =>
    have hword : endsWord (blanks n ++ Run.texts rs) = true := by
      obtain ⟨k, rfl⟩ := Nat.exists_eq_succ_of_ne_zero hn
      rfl
    have hopens := opens_of_startsWithSign ne hword h
    rw [Run.layout, id, List.append_assoc]
    exact startsPlain_of_opens word hopens _

theorem exists_plainLine {s : Scalar} (h : Exportable s) (hplain : isPlain s = true) :
    ∃ rs, IsPlainLine rs ∧ Run.texts rs = scalarText s ∧
      ∀ indent column, scalarLayout indent column s = Run.layout id indent column true rs ∧
        ∀ tail, startsPlain false (Run.layout id indent column true rs ++ tail) = true := by
  by_cases hs : ∃ t, s = .text t
  · obtain ⟨t, rfl⟩ := hs
    have hstyle : Style.ofText t.toList = .plain := by simpa [isPlain] using hplain
    obtain ⟨htag, hallows⟩ := Style.eq_plain_iff.1 hstyle
    obtain ⟨htext, hhead, hstart⟩ := isPlainText_of_allowsPlain hallows
    have hne : t.toList ≠ [] := by
      intro hnil
      rw [hnil] at htag
      exact absurd htag (by decide)
    have htexts := Run.texts_ofText t.toList
    have hline : IsPlainLine (Run.ofText t.toList) :=
      IsPlainText.isPlainLine (Run.cut_ofText _) (htexts.symm ▸ htext) (htexts.symm ▸ hne)
        (htexts.symm ▸ hhead)
    refine ⟨Run.ofText t.toList, hline, htexts, fun indent column => ⟨?_, fun tail => ?_⟩⟩
    · simp [scalarLayout, textLayout, hstyle]
    · exact startsPlain_layout hline (htexts.symm ▸ hstart) indent column true tail
  · obtain ⟨hword, hopens⟩ := plainWord_scalar h (by simpa using hs)
    have hne : scalarText s ≠ [] := by
      obtain ⟨x, xs, hx, -⟩ := hopens
      simp [hx]
    refine ⟨[.word (scalarText s)], .last hword hne, by simp [Run.text], fun indent column =>
      ⟨?_, fun tail => ?_⟩⟩
    · cases s with
      | text t => exact absurd ⟨t, rfl⟩ hs
      | _ => simp [scalarLayout, scalarText, Run.layout]
    · simpa only [Run.layout, id, List.append_nil] using startsPlain_of_opens hword hopens tail

end Opens

end LinkedCalls.Yaml.Scan
