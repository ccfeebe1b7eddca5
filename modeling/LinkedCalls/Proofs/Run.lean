import LinkedCalls.Proofs.Gate
import LinkedCalls.Proofs.Table

/-!
What runs do to the runner, where implementations leave it alone. One run drops the result of its
call and keeps the new one if it succeeds; a sweep does so call by call. Nothing else changes: the
calls stay, and so do the results of all other calls.
-/
namespace LinkedCalls

/-- it adds and runs no calls and resets nothing -/
def Routine.LeavesRunner : Routine → Prop
  | .done _ => True
  | .fail _ => True
  | .lookup _ next => ∀ v, (next v).LeavesRunner
  | .edit _ next => ∀ r, (next r).LeavesRunner
  | .tell _ _ next => ∀ r, (next r).LeavesRunner
  | .ask _ next => ∀ r, (next r).LeavesRunner
  | .addCall _ _ => False
  | .runCall _ _ => False
  | .reset _ => False
  | .setFlag _ _ next => next.LeavesRunner
  | .note _ next => next.LeavesRunner

def Setting.LeavesRunner (setting : Setting) : Prop :=
  ∀ d ∈ setting.registry, ∀ f, d.implementation = some f →
    ∀ call params, (f call params).LeavesRunner

theorem Definition.routine_of (d : Definition) {P : Routine → Prop}
    (hfail : ∀ failure, P (.fail failure))
    (h : ∀ f, d.implementation = some f → ∀ call params, P (f call params)) (call : Call)
    (params : Params) : P (d.routine call params) := by
  unfold Definition.routine
  split
  · next f hf => exact h f hf call params
  · exact hfail _

theorem Routine.leavesRunner_orFail {α : Type} {next : α → Routine}
    (h : ∀ x, (next x).LeavesRunner) (answer : Except Failure α) :
    (Routine.orFail next answer).LeavesRunner := by
  rcases answer with failure | x
  · trivial
  · exact h x

theorem Params.leavesRunner_require {next : Value → Routine} (h : ∀ v, (next v).LeavesRunner)
    (params : Params) (name : String) : (params.require name next).LeavesRunner := by
  unfold Params.require
  split
  · exact h _
  · trivial

theorem Builtin.mem_builtin {d : Definition} (hd : d ∈ Registry.builtin) :
    d = setContext ∨ d = showDialog ∨ d = startChat := by
  simpa [Registry.builtin, definitions, groups] using hd

theorem Builtin.routine_of_call {d : Definition} (hd : d ∈ Registry.builtin) (call call' : Call)
    (params : Params) : d.routine call params = d.routine call' params := by
  rcases mem_builtin hd with rfl | rfl | rfl <;> rfl

theorem Builtin.leavesRunner {s : Setting} (h : s.registry = Registry.builtin) :
    s.LeavesRunner := by
  intro d hd f hf call params
  rw [h] at hd
  rcases mem_builtin hd with rfl | rfl | rfl
  · obtain rfl : setContextRoutine = f := Option.some.inj hf
    refine Params.leavesRunner_require (fun key => ?_) _ _
    refine Params.leavesRunner_require (fun value => ?_) _ _
    refine Routine.leavesRunner_orFail (fun k => ?_) _
    intro written
    refine Routine.leavesRunner_orFail (fun _ => ?_) written
    trivial
  · obtain rfl : showDialogRoutine = f := Option.some.inj hf
    refine Params.leavesRunner_require (fun text => ?_) _ _
    intro shown
    refine Routine.leavesRunner_orFail (fun _ => ?_) shown
    trivial
  · obtain rfl : startChatRoutine = f := Option.some.inj hf
    intro answer
    refine Routine.leavesRunner_orFail (fun reply => ?_) answer
    split_ifs <;> trivial

def Services.answer (services : Services) (prompt : Value) : Except Failure Value :=
  services.partner.bind fun f => f prompt

theorem Services.ask_fst (services : Services) (prompt : Value) (w : World) :
    (services.ask prompt w).1 = services.answer prompt := by
  unfold Services.ask Services.answer
  cases services.partner with
  | error failure => rfl
  | ok f =>
    dsimp only [Except.bind]
    split
    · next reply hreply => exact hreply.symm
    · next failure hfailure => exact hfailure.symm

theorem Services.ask_snd (services : Services) (prompt : Value) (w : World) :
    ∃ exchanges journal, (services.ask prompt w).2 =
      { w with exchanges := exchanges, journal := journal } := by
  unfold Services.ask
  split
  · exact ⟨_, _, rfl⟩
  · dsimp only
    split
    · exact ⟨_, _, rfl⟩
    · exact ⟨_, _, rfl⟩

theorem Services.ask_runner (services : Services) (prompt : Value) (w : World) :
    (services.ask prompt w).2.runner = w.runner := by
  obtain ⟨exchanges, journal, hasked⟩ := services.ask_snd prompt w
  rw [hasked]

theorem Routine.LeavesRunner.exec {routine : Routine} (h : routine.LeavesRunner)
    (setting : Setting) (run : CallRunner) (w : World) :
    (routine.exec setting run w).2.runner = w.runner := by
  induction routine generalizing w with
  | done v => rfl
  | fail failure => rfl
  | lookup key next ih => exact ih _ (h _) w
  | edit e next ih => exact ih _ (h _) _
  | tell level text next ih => exact ih _ (h _) _
  | ask prompt next ih =>
    exact (ih _ (h _) _).trans (setting.services.ask_runner prompt w)
  | addCall call next ih => exact h.elim
  | runCall id next ih => exact h.elim
  | reset next ih => exact h.elim
  | setFlag flag on next ih => exact ih h _
  | note event next ih => exact ih h _

namespace Runner

/-- the runner after a run of a call that ended so -/
def settle (r : Runner) (id : String) : Except Failure Value → Runner
  | .ok v => (r.discard id).record id v
  | .error _ => r.discard id

def settleAll (r : Runner) (outcomes : List Outcome) : Runner :=
  outcomes.foldl (fun r o => r.settle o.call o.ending) r

@[simp] theorem settle_calls (r : Runner) (id : String) (ending : Except Failure Value) :
    (r.settle id ending).calls = r.calls := by
  cases ending <;> rfl

@[simp] theorem settle_stopOnError (r : Runner) (id : String) (ending : Except Failure Value) :
    (r.settle id ending).stopOnError = r.stopOnError := by
  cases ending <;> rfl

@[simp] theorem settleAll_calls (r : Runner) (outcomes : List Outcome) :
    (r.settleAll outcomes).calls = r.calls := by
  induction outcomes generalizing r with
  | nil => rfl
  | cons o outcomes ih => exact (ih _).trans (settle_calls _ _ _)

@[simp] theorem settleAll_stopOnError (r : Runner) (outcomes : List Outcome) :
    (r.settleAll outcomes).stopOnError = r.stopOnError := by
  induction outcomes generalizing r with
  | nil => rfl
  | cons o outcomes ih => exact (ih _).trans (settle_stopOnError _ _ _)

theorem settleAll_append (r : Runner) (os os' : List Outcome) :
    r.settleAll (os ++ os') = (r.settleAll os).settleAll os' :=
  List.foldl_append

theorem settle_distinct {r : Runner} (h : Table.Distinct r.results) (id : String)
    (ending : Except Failure Value) : Table.Distinct (r.settle id ending).results := by
  cases ending with
  | error failure => exact h.erase _
  | ok v => exact (h.erase _).insert _ _

theorem settleAll_distinct {r : Runner} (h : Table.Distinct r.results) (outcomes : List Outcome) :
    Table.Distinct (r.settleAll outcomes).results := by
  induction outcomes generalizing r with
  | nil => exact h
  | cons o outcomes ih => exact ih (settle_distinct h _ _)

theorem find?_settle_self {r : Runner} (h : Table.Distinct r.results) (id : String)
    (ending : Except Failure Value) :
    Table.find? (r.settle id ending).results (.text id) = ending.toOption := by
  have hgone := h.find?_erase_self id
  cases ending with
  | error failure => exact hgone
  | ok v =>
    have hresults : (r.settle id (.ok v)).results =
        Table.erase r.results (.text id) ++ [(.text id, v)] :=
      Table.insert_of_find?_eq_none hgone
    rw [hresults, Table.find?_append, hgone]
    simp [Table.find?, Scalar.same, Except.toOption]

theorem find?_settle_of_ne {r : Runner} {id other : String} (h : id ≠ other)
    (ending : Except Failure Value) :
    Table.find? (r.settle id ending).results (.text other) =
      Table.find? r.results (.text other) := by
  cases ending with
  | error failure => exact Table.find?_erase_of_ne h
  | ok v => exact (Table.find?_insert_of_ne h).trans (Table.find?_erase_of_ne h)

theorem find?_settle {r : Runner} (h : Table.Distinct r.results) (id other : String)
    (ending : Except Failure Value) :
    Table.find? (r.settle id ending).results (.text other) =
      if id = other then ending.toOption else Table.find? r.results (.text other) := by
  split
  · next heq => rw [← heq, find?_settle_self h]
  · next hne => exact find?_settle_of_ne hne ending

end Runner

theorem Outcome.success_iff {o : Outcome} : o.success = true ↔ ∃ v, o.ending = .ok v := by
  rcases hending : o.ending with failure | v <;> simp [success, hending]

/-- an outcome without the time that the run took -/
def Outcome.untimed (o : Outcome) : Outcome := { o with duration := .zero }

theorem Outcome.ending_of_untimed {o p : Outcome} (h : o.untimed = p.untimed) :
    o.ending = p.ending := by
  have hending : o.untimed.ending = p.untimed.ending := by rw [h]
  exact hending

theorem Outcome.success_of_untimed {o p : Outcome} (h : o.untimed = p.untimed) :
    o.success = p.success := by
  rw [success, success, ending_of_untimed h]

/-- what runs leave behind does not depend on how long they took -/
theorem Runner.settleAll_untimed (r : Runner) (outcomes : List Outcome) :
    r.settleAll (outcomes.map Outcome.untimed) = r.settleAll outcomes :=
  List.foldl_map

section Run

variable {setting : Setting} {run : CallRunner} {call : Call} {w : World}

theorem Call.run_runner (h : setting.LeavesRunner) (run : CallRunner) (call : Call) (w : World) :
    (call.run setting run .kept w).2.runner =
      w.runner.settle call.id (call.run setting run .kept w).1 := by
  rcases call.run_cases setting run .kept w with
    ⟨events, failure, -, hrun⟩ | ⟨events, d, params, -, hd, hrun⟩
  · rw [hrun]
    rfl
  · have hexec := (d.routine_of (fun _ => trivial) (h d hd) call params).exec setting run
      ((Results.kept.discard call.id w).note events)
    rw [hrun]
    rcases hends : (d.routine call params).exec setting run
      ((Results.kept.discard call.id w).note events) with ⟨failure | v, w'⟩
    · rw [hends] at hexec
      exact hexec
    · rw [hends] at hexec
      exact congrArg (·.record call.id v) hexec

theorem Call.attempt_snd (setting : Setting) (run : CallRunner) (call : Call) (w : World) :
    ∃ clock journal, (call.attempt setting run w).2 =
      { (call.run setting run .kept w.readClock.2).2 with clock := clock, journal := journal } := by
  unfold Call.attempt
  dsimp only
  split
  · exact ⟨_, _, rfl⟩
  · exact ⟨_, _, rfl⟩

theorem Call.attempt_call : (call.attempt setting run w).1.call = call.id := rfl

theorem Call.attempt_ending :
    (call.attempt setting run w).1.ending =
      (call.run setting run .kept w.readClock.2).1 := rfl

theorem Call.attempt_untimed :
    (call.attempt setting run w).1.untimed =
      ⟨call.id, call.operation, (call.run setting run .kept w.readClock.2).1, .zero⟩ := rfl

theorem Call.attempt_runner (h : setting.LeavesRunner) (run : CallRunner) (call : Call)
    (w : World) :
    (call.attempt setting run w).2.runner =
      w.runner.settle call.id (call.attempt setting run w).1.ending := by
  obtain ⟨clock, journal, hended⟩ := call.attempt_snd setting run w
  rw [Call.attempt_ending, hended]
  exact Call.run_runner h run call w.readClock.2

theorem Call.attempt_distinct (h : setting.LeavesRunner) (hw : Table.Distinct w.runner.results)
    (run : CallRunner) (call : Call) :
    Table.Distinct (call.attempt setting run w).2.runner.results := by
  rw [Call.attempt_runner h]
  exact Runner.settle_distinct hw _ _

end Run

namespace World

variable {setting : Setting} {w : World}

/-- a sweep that ends with the run of its first call and skips the rest -/
abbrev haltsAt (call : Call) (calls : List Call) (ran : Outcome × World) : RunReport × World :=
  (⟨[ran.1], calls.map Call.id⟩, ran.2.note (stoppedAfter call.id (calls.map Call.id)))

/-- a sweep that goes on with the rest behind the run of its first call -/
abbrev goesOn (setting : Setting) (calls : List Call) (ran : Outcome × World) :
    RunReport × World :=
  (⟨ran.1 :: (ran.2.sweep setting calls).1.outcomes, (ran.2.sweep setting calls).1.skipped⟩,
    (ran.2.sweep setting calls).2)

/-- all that a sweep can do at its first call -/
theorem sweep_cons_eq (setting : Setting) (call : Call) (calls : List Call) (w : World) :
    let ran := call.attempt setting (nestedRuns setting) w
    (ran.1.success = false ∧ ran.2.runner.stopOnError = true ∧
        w.sweep setting (call :: calls) = haltsAt call calls ran) ∨
      ((ran.1.success = true ∨ ran.2.runner.stopOnError = false) ∧
        w.sweep setting (call :: calls) = goesOn setting calls ran) := by
  intro ran
  cases hsuccess : ran.1.success with
  | true => exact .inr ⟨.inl rfl, by simp only [sweep, ran, hsuccess]; rfl⟩
  | false =>
    cases hstop : ran.2.runner.stopOnError with
    | true => exact .inl ⟨rfl, rfl, by simp only [sweep, ran, hsuccess, hstop]; rfl⟩
    | false => exact .inr ⟨.inr rfl, by simp only [sweep, ran, hsuccess, hstop]; rfl⟩

theorem sweep_runner (h : setting.LeavesRunner) (calls : List Call) :
    (w.sweep setting calls).2.runner =
      w.runner.settleAll (w.sweep setting calls).1.outcomes := by
  induction calls generalizing w with
  | nil => rfl
  | cons call calls ih =>
    have hattempt := Call.attempt_runner h (nestedRuns setting) call w
    rcases sweep_cons_eq setting call calls w with ⟨-, -, hsweep⟩ | ⟨-, hsweep⟩
    · rw [hsweep]
      exact hattempt
    · rw [hsweep]
      dsimp only
      rw [ih, hattempt]
      rfl

theorem runAll_runner (h : setting.LeavesRunner) (w : World) :
    (w.runAll setting).2.runner = w.runner.settleAll (w.runAll setting).1.outcomes :=
  sweep_runner h w.runner.calls

section Going

variable (h : setting.LeavesRunner) (hon : w.runner.stopOnError = false)
include h hon

theorem goes_on (call : Call) :
    (call.attempt setting (nestedRuns setting) w).2.runner.stopOnError = false := by
  rw [Call.attempt_runner h, Runner.settle_stopOnError, hon]

theorem sweep_cons (call : Call) (calls : List Call) :
    w.sweep setting (call :: calls) =
      goesOn setting calls (call.attempt setting (nestedRuns setting) w) := by
  rcases sweep_cons_eq setting call calls w with ⟨-, hstop, -⟩ | ⟨-, hsweep⟩
  · rw [goes_on h hon] at hstop
    cases hstop
  · exact hsweep

theorem sweep_append (calls calls' : List Call) :
    w.sweep setting (calls ++ calls') =
      (⟨(w.sweep setting calls).1.outcomes ++
          ((w.sweep setting calls).2.sweep setting calls').1.outcomes,
        ((w.sweep setting calls).2.sweep setting calls').1.skipped⟩,
        ((w.sweep setting calls).2.sweep setting calls').2) := by
  induction calls generalizing w with
  | nil => rfl
  | cons call calls ih =>
    rw [List.cons_append, sweep_cons h hon, sweep_cons h hon, goesOn, ih (goes_on h hon call)]
    rfl

theorem sweep_length (calls : List Call) :
    (w.sweep setting calls).1.outcomes.length = calls.length := by
  induction calls generalizing w with
  | nil => rfl
  | cons call calls ih =>
    rw [sweep_cons h hon, List.length_cons, List.length_cons, ih (goes_on h hon call)]

end Going

theorem call_of_mem_sweep {calls : List Call} {o : Outcome}
    (h : o ∈ (w.sweep setting calls).1.outcomes) : ∃ call ∈ calls, o.call = call.id := by
  induction calls generalizing w with
  | nil => cases h
  | cons call calls ih =>
    rcases sweep_cons_eq setting call calls w with ⟨-, -, hsweep⟩ | ⟨-, hsweep⟩
    · rw [hsweep] at h
      rw [List.mem_singleton.1 h]
      exact ⟨call, List.mem_cons_self, rfl⟩
    · rw [hsweep] at h
      rcases List.mem_cons.1 h with rfl | h
      · exact ⟨call, List.mem_cons_self, rfl⟩
      · obtain ⟨other, hother, hcall⟩ := ih h
        exact ⟨other, List.mem_cons_of_mem _ hother, hcall⟩

end World

end LinkedCalls
