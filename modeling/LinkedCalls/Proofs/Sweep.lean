import LinkedCalls.Proofs.Cascade
import LinkedCalls.Proofs.Moves

/-!
What a sweep reports. Whatever implementations do to the runner in the midst of it, a sweep goes
over the calls that were loaded when it started: each of them has its outcome or is skipped, in
their order. Calls are skipped only behind a failure, and only where the runner stops on errors.
-/
namespace LinkedCalls

namespace World

theorem Move.stopOnError {setting : Setting} {resets : Prop} {w w' : World}
    (h : w.Move setting resets w') : w'.runner.stopOnError = w.runner.stopOnError := by
  cases h with
  | ask prompt => rw [Services.ask_runner]
  | addCall call =>
    unfold World.addCall
    split
    · next runner hadd => rw [Runner.add_eq_ok hadd]
    · rfl
  | _ => rfl

theorem Moves.stopOnError {setting : Setting} {resets : Prop} {w w' : World}
    (h : Moves setting resets w w') : w'.runner.stopOnError = w.runner.stopOnError := by
  induction h with
  | refl => rfl
  | tail _ hmove ih => exact hmove.stopOnError.trans ih

theorem attempt_stopOnError (setting : Setting) (call : Call) (w : World) :
    (call.attempt setting (nestedRuns setting) w).2.runner.stopOnError = w.runner.stopOnError :=
  (attempt_moves (.inl trivial) (.inl trivial)).stopOnError

variable {setting : Setting} {w : World}

theorem sweep_cons_cases (setting : Setting) (call : Call) (calls : List Call) (w : World) :
    let ran := call.attempt setting (nestedRuns setting) w
    (ran.1.success = false ∧ w.runner.stopOnError = true ∧
        w.sweep setting (call :: calls) = haltsAt call calls ran) ∨
      ((ran.1.success = true ∨ w.runner.stopOnError = false) ∧
        w.sweep setting (call :: calls) = goesOn setting calls ran) := by
  intro ran
  have hsame : ran.2.runner.stopOnError = w.runner.stopOnError :=
    attempt_stopOnError setting call w
  rw [← hsame]
  exact sweep_cons_eq setting call calls w

theorem sweep_cons_of_goes_on {call : Call} {calls : List Call}
    (h : (call.attempt setting (nestedRuns setting) w).1.success = true ∨
      w.runner.stopOnError = false) :
    w.sweep setting (call :: calls) =
      goesOn setting calls (call.attempt setting (nestedRuns setting) w) := by
  rcases sweep_cons_cases setting call calls w with ⟨hfails, hstop, -⟩ | ⟨-, hsweep⟩
  · simp [hfails, hstop] at h
  · exact hsweep

theorem sweep_cons_of_fails {call : Call} {calls : List Call}
    (hfails : (call.attempt setting (nestedRuns setting) w).1.success = false)
    (hstop : w.runner.stopOnError = true) :
    w.sweep setting (call :: calls) =
      haltsAt call calls (call.attempt setting (nestedRuns setting) w) := by
  rcases sweep_cons_cases setting call calls w with ⟨-, -, hsweep⟩ | ⟨hgoes, -⟩
  · exact hsweep
  · simp [hfails, hstop] at hgoes

/-- every call that a sweep is given has its outcome or is skipped -/
theorem sweep_calls (calls : List Call) :
    (w.sweep setting calls).1.outcomes.map Outcome.call ++ (w.sweep setting calls).1.skipped =
      calls.map Call.id := by
  induction calls generalizing w with
  | nil => rfl
  | cons call calls ih =>
    rcases sweep_cons_cases setting call calls w with ⟨-, -, hsweep⟩ | ⟨-, hsweep⟩
    · rw [hsweep]
      rfl
    · rw [hsweep, List.map_cons, List.map_cons, List.cons_append, ih, Call.attempt_call]

theorem sweep_skipped (calls : List Call) (h : (w.sweep setting calls).1.skipped ≠ []) :
    w.runner.stopOnError = true ∧
      ∃ o, (w.sweep setting calls).1.outcomes.getLast? = some o ∧ o.success = false := by
  induction calls generalizing w with
  | nil => exact absurd rfl h
  | cons call calls ih =>
    rcases sweep_cons_cases setting call calls w with ⟨hfails, hstop, hsweep⟩ | ⟨-, hsweep⟩
    · rw [hsweep]
      exact ⟨hstop, _, rfl, hfails⟩
    · rw [hsweep] at h ⊢
      obtain ⟨hstop, o, hlast, hfails⟩ := ih h
      rw [attempt_stopOnError] at hstop
      exact ⟨hstop, o, by simp [List.getLast?_cons, hlast], hfails⟩

/-- each outcome is that of its call in the world that the calls before it leave -/
theorem sweep_outcome {calls : List Call} {j : Nat} {o : Outcome}
    (h : (w.sweep setting calls).1.outcomes[j]? = some o) :
    ∃ call, calls[j]? = some call ∧
      o = (call.attempt setting (nestedRuns setting) (w.sweep setting (calls.take j)).2).1 := by
  induction calls generalizing w j with
  | nil => simp [sweep] at h
  | cons call calls ih =>
    rcases sweep_cons_cases setting call calls w with ⟨-, -, hsweep⟩ | ⟨hgoes, hsweep⟩
    · rw [hsweep] at h
      rcases j with _ | j
      · exact ⟨call, rfl, (Option.some.inj h).symm⟩
      · simp at h
    · rw [hsweep] at h
      rcases j with _ | j
      · exact ⟨call, rfl, (Option.some.inj h).symm⟩
      · obtain ⟨other, hother, ho⟩ := ih h
        refine ⟨other, hother, ?_⟩
        rw [ho, List.take_succ_cons, sweep_cons_of_goes_on hgoes]

end World

namespace Demo

/-- adds a call, runs one that is loaded and clears the runner -/
def meddle : Definition where
  id := "meddle"
  implementation := some fun call _ =>
    .addCall { call with id := "demo.more" } fun _ =>
      .runCall (.text "demo.setContext") fun _ => .reset (.done .null)

def meddling : World where
  runner := { calls := [⟨"demo.meddle", "meddle", "", []⟩, ⟨"demo.setContext", "setContext", "", []⟩,
    chat] }

/-- the sweep does not notice that the runner was cleared; it stops at the call without parameters -/
example :
    let ended := meddling.runAll { setting with registry := meddle :: Registry.builtin }
    ended.1.outcomes.map Outcome.call = ["demo.meddle", "demo.setContext"] ∧
      ended.1.skipped = ["demo.startChat"] ∧ ended.2.runner.ids = [] := by
  exact ⟨rfl, rfl, rfl⟩

end Demo

end LinkedCalls
