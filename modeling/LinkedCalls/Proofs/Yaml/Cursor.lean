import LinkedCalls.Yaml.Cursor
import Mathlib.Data.List.Basic

/-!
Cursors by the text ahead of them: what is ahead after a step, a span or a line end, and which
column is reached.
-/
namespace LinkedCalls.Yaml

@[simp] theorem isBreak_blank : isBreak ' ' = false := by decide

@[simp] theorem isBreak_newline : isBreak '\n' = true := by decide

@[simp] theorem isSpace_blank : isSpace ' ' = true := by decide

@[simp] theorem isSpace_newline : isSpace '\n' = false := by decide

/-- no blank and no line end comes first -/
def IsSolid (cs : List Char) : Prop := ∀ c ∈ cs.head?, isSpace c = false ∧ isBreak c = false

theorem IsSolid.dropWhile {cs : List Char} (h : IsSolid cs) : cs.dropWhile isSpace = cs := by
  cases cs with
  | nil => rfl
  | cons c cs => rw [List.dropWhile_cons, if_neg (by simp [(h c rfl).1])]

/-- characters that end no line and take a column each -/
def IsInline (cs : List Char) : Prop := ∀ x ∈ cs, isBreak x = false ∧ x ≠ '\uFEFF'

theorem takeWhile_append_of_head {p : Char → Bool} {xs ys : List Char} (hxs : ∀ x ∈ xs, p x = true)
    (hys : ∀ y ∈ ys.head?, p y = false) : (xs ++ ys).takeWhile p = xs := by
  rw [List.takeWhile_append_of_pos hxs]
  cases ys with
  | nil => simp
  | cons y ys => simp [hys y rfl]

namespace Cursor

/-- the text ahead of a cursor, and its length with it -/
structure At (c : Cursor) (cs : List Char) : Prop where
  ahead : c.ahead = cs
  left : c.left = cs.length

variable {c : Cursor} {x : Char} {xs ys cs : List Char} {p : Char → Bool}

theorem step_ahead (h : c.ahead = x :: xs) : c.step.ahead = xs := by
  simp only [step, h]
  split_ifs <;> rfl

theorem step_left (h : c.ahead = x :: xs) : c.step.left = c.left - 1 := by
  simp only [step, h]
  split_ifs <;> rfl

theorem At.step (h : c.At (x :: xs)) : c.step.At xs :=
  ⟨step_ahead h.ahead, by rw [step_left h.ahead, h.left]; simp⟩

theorem At.steps {c : Cursor} (h : c.At (xs ++ ys)) : (c.steps xs.length).At ys := by
  induction xs generalizing c with
  | nil => exact h
  | cons x xs ih => exact ih h.step

theorem At.steps_two {x y : Char} (h : c.At (x :: y :: xs)) : (c.steps 2).At xs :=
  h.step.step

theorem At.span (h : c.At (xs ++ ys)) (hxs : ∀ x ∈ xs, p x = true)
    (hys : ∀ y ∈ ys.head?, p y = false) : c.span p = (xs, c.steps xs.length) := by
  rw [Cursor.span, h.ahead, takeWhile_append_of_head hxs hys]

theorem At.skip (h : c.At (xs ++ ys)) (hxs : ∀ x ∈ xs, p x = true)
    (hys : ∀ y ∈ ys.head?, p y = false) : c.skip p = c.steps xs.length := by
  rw [Cursor.skip, h.span hxs hys]

theorem At.span_none (h : c.At cs) (hcs : ∀ y ∈ cs.head?, p y = false) : c.span p = ([], c) := by
  have h : c.At ([] ++ cs) := h
  exact h.span (by simp) hcs

theorem At.lineBreak?_newline (h : c.At ('\n' :: xs)) : c.lineBreak? = some ('\n', c.step) := by
  rw [lineBreak?, h.ahead]
  rfl

theorem At.lineBreak?_none (h : c.At cs) (hcs : IsSolid cs) : c.lineBreak? = none := by
  rw [lineBreak?, h.ahead]
  cases cs with
  | nil => rfl
  | cons x xs => simp [(hcs x rfl).2]

theorem At.skipBlanks {n : Nat} (h : c.At (List.replicate n ' ' ++ cs)) (hcs : IsSolid cs) :
    c.skipBlanks = c.steps n := by
  have hskip := h.skip (p := (· == ' ')) (by simp) fun y hy => ?_
  · simpa [Cursor.skipBlanks] using hskip
  · by_contra hblank
    simp only [Bool.not_eq_false, beq_iff_eq] at hblank
    exact absurd (hcs y hy).1 (by simp [hblank])

theorem step_column (h : c.ahead = x :: xs) (hx : isBreak x = false) (hmark : x ≠ '\uFEFF') :
    c.step.column = c.column + 1 := by
  simp [step, h, hx, hmark]

theorem step_column_newline (h : c.ahead = '\n' :: xs) : c.step.column = 0 := by
  simp [step, h]

theorem step_line (h : c.ahead = x :: xs) (hx : isBreak x = false) : c.step.line = c.line := by
  simp only [step, h, hx]
  split_ifs <;> simp_all

theorem step_index (h : c.ahead = x :: xs) : c.step.index = c.index + 1 := by
  simp only [step, h]
  split_ifs <;> rfl

theorem steps_column (h : c.ahead = xs ++ ys) (hxs : IsInline xs) :
    (c.steps xs.length).column = c.column + xs.length := by
  induction xs generalizing c with
  | nil => rfl
  | cons x xs ih =>
    obtain ⟨hx, hmark⟩ := hxs x (by simp)
    have hstep := ih (step_ahead h) fun y hy => hxs y (by simp [hy])
    rw [List.length_cons, steps, hstep, step_column h hx hmark]
    omega

theorem steps_line (h : c.ahead = xs ++ ys) (hxs : IsInline xs) :
    (c.steps xs.length).line = c.line := by
  induction xs generalizing c with
  | nil => rfl
  | cons x xs ih =>
    rw [List.length_cons, steps, ih (step_ahead h) fun y hy => hxs y (by simp [hy]),
      step_line h (hxs x (by simp)).1]

theorem steps_index (h : c.ahead = xs ++ ys) :
    (c.steps xs.length).index = c.index + xs.length := by
  induction xs generalizing c with
  | nil => rfl
  | cons x xs ih =>
    rw [List.length_cons, steps, ih (step_ahead h), step_index h]
    omega

end Cursor

end LinkedCalls.Yaml
