import LinkedCalls.Proofs.Leftovers
import LinkedCalls.Proofs.Sweep

/-!
A sweep is its calls run one by one. As long as no implementation adds calls or resets the runner,
each call is found under its id when its turn comes, so a sweep has the outcomes that running the
calls by their ids has, one after another, and ends in the same world.
-/
namespace LinkedCalls

/-- it adds no calls and resets nothing; it may run calls -/
def Routine.KeepsCalls : Routine → Prop
  | .done _ => True
  | .fail _ => True
  | .lookup _ next => ∀ v, (next v).KeepsCalls
  | .edit _ next => ∀ b, (next b).KeepsCalls
  | .tell _ _ next => ∀ r, (next r).KeepsCalls
  | .ask _ next => ∀ r, (next r).KeepsCalls
  | .addCall _ _ => False
  | .runCall _ next => ∀ r, (next r).KeepsCalls
  | .reset _ => False
  | .setFlag _ _ next => next.KeepsCalls
  | .note _ next => next.KeepsCalls

def Setting.KeepsCalls (setting : Setting) : Prop :=
  ∀ d ∈ setting.registry, ∀ f, d.implementation = some f →
    ∀ call params, (f call params).KeepsCalls

theorem Routine.LeavesRunner.keepsCalls {routine : Routine} (h : routine.LeavesRunner) :
    routine.KeepsCalls := by
  induction routine with
  | done v => trivial
  | fail failure => trivial
  | lookup key next ih => exact fun v => ih v (h v)
  | edit e next ih => exact fun b => ih b (h b)
  | tell level text next ih => exact fun r => ih r (h r)
  | ask prompt next ih => exact fun r => ih r (h r)
  | addCall call next ih => exact h.elim
  | runCall id next ih => exact h.elim
  | reset next ih => exact h.elim
  | setFlag flag on next ih => exact ih h
  | note event next ih => exact ih h

theorem Results.conclude_calls (call : Call) (ended : Except Failure Value × World) :
    (Results.kept.conclude call ended).2.runner.calls = ended.2.runner.calls := by
  rcases ended with ⟨failure | v, w⟩ <;> rfl

section Calls

variable {setting : Setting} {run : CallRunner}
  (hrun : ∀ id w, (run id w).2.runner.calls = w.runner.calls)
include hrun

theorem Routine.KeepsCalls.exec {routine : Routine} (h : routine.KeepsCalls) (w : World) :
    (routine.exec setting run w).2.runner.calls = w.runner.calls := by
  induction routine generalizing w with
  | done v => rfl
  | fail failure => rfl
  | lookup key next ih => exact ih _ (h _) w
  | edit e next ih => exact ih _ (h _) _
  | tell level text next ih => exact ih _ (h _) _
  | ask prompt next ih =>
    exact (ih _ (h _) _).trans (congrArg Runner.calls (setting.services.ask_runner prompt w))
  | addCall call next ih => exact h.elim
  | runCall id next ih => exact (ih _ (h _) _).trans (hrun id w)
  | reset next ih => exact h.elim
  | setFlag flag on next ih => exact ih h _
  | note event next ih => exact ih h _

theorem Call.run_calls (h : setting.KeepsCalls) (call : Call) (w : World) :
    (call.run setting run .kept w).2.runner.calls = w.runner.calls := by
  rcases call.run_cases setting run .kept w with
    ⟨events, failure, -, hends⟩ | ⟨events, d, params, -, hd, hends⟩
  · rw [hends]
    rfl
  · have hroutine := d.routine_of (fun _ => trivial) (h d hd) call params
    rw [hends, Results.conclude_calls]
    exact hroutine.exec hrun _

theorem Call.attempt_calls (h : setting.KeepsCalls) (call : Call) (w : World) :
    (call.attempt setting run w).2.runner.calls = w.runner.calls := by
  obtain ⟨clock, journal, hended⟩ := call.attempt_snd setting run w
  rw [hended]
  exact Call.run_calls hrun h call w.readClock.2

end Calls

/-- asking for a run came to no success -/
def ranBadly : Except Failure Outcome → Bool
  | .ok o => !o.success
  | .error _ => true

namespace World

/-- runs the calls with these ids one after another -/
def runEach (setting : Setting) : List String → World → List (Except Failure Outcome) × World
  | [], w => ([], w)
  | id :: ids, w =>
    let (answer, w) := runCall setting (.text id) w
    let (answers, w) := runEach setting ids w
    (answer :: answers, w)

variable {setting : Setting} {w : World}

theorem runCallWithin_calls (h : setting.KeepsCalls) (depth : Nat) (id : Scalar) (w : World) :
    (runCallWithin setting depth id w).2.runner.calls = w.runner.calls := by
  induction depth generalizing id w with
  | zero => rfl
  | succ depth ih =>
    unfold runCallWithin
    split
    · rfl
    · exact Call.attempt_calls ih h _ w

theorem attempt_calls (h : setting.KeepsCalls) (call : Call) (w : World) :
    (call.attempt setting (nestedRuns setting) w).2.runner.calls = w.runner.calls :=
  Call.attempt_calls (runCallWithin_calls h _) h call w

theorem runEach_take (setting : Setting) (ids : List String) (n : Nat) (w : World) :
    (w.runEach setting (ids.take n)).1 = (w.runEach setting ids).1.take n := by
  induction ids generalizing n w with
  | nil => simp [runEach]
  | cons id ids ih =>
    cases n with
    | zero => rfl
    | succ n => exact congrArg _ (ih n _)

def Finds (w : World) (calls : List Call) : Prop :=
  ∀ call ∈ calls, w.runner.call? (.text call.id) = some call

theorem finds_calls (h : w.runner.ids.Nodup) : w.Finds w.runner.calls := by
  intro call hcall
  exact (find?_eq_some_iff_of_nodup h).2 ⟨hcall, rfl⟩

theorem Finds.attempt (h : setting.KeepsCalls) {call : Call} {calls : List Call}
    (hfinds : w.Finds (call :: calls)) :
    (call.attempt setting (nestedRuns setting) w).2.Finds calls := by
  intro later hlater
  rw [Runner.call?, attempt_calls h]
  exact hfinds later (List.mem_cons_of_mem _ hlater)

variable (setting) in
theorem runEach_cons {call : Call} {calls : List Call} (hfinds : w.Finds (call :: calls))
    (ids : List String) :
    w.runEach setting (call.id :: ids) =
      (.ok (call.attempt setting (nestedRuns setting) w).1 ::
          ((call.attempt setting (nestedRuns setting) w).2.runEach setting ids).1,
        ((call.attempt setting (nestedRuns setting) w).2.runEach setting ids).2) := by
  simp only [runEach, runCall_eq, hfinds call List.mem_cons_self]

/-- a sweep that is not to stop does what running each call does -/
theorem sweep_of_going (h : setting.KeepsCalls) (hgoing : w.runner.stopOnError = false)
    {calls : List Call} (hfinds : w.Finds calls) :
    w.runEach setting (calls.map Call.id) =
      ((w.sweep setting calls).1.outcomes.map .ok, (w.sweep setting calls).2) := by
  induction calls generalizing w with
  | nil => rfl
  | cons call calls ih =>
    have hrest := ih (w := (call.attempt setting (nestedRuns setting) w).2)
      (by rw [attempt_stopOnError, hgoing]) (hfinds.attempt h)
    rw [List.map_cons, runEach_cons setting hfinds, hrest, sweep_cons_of_goes_on (.inr hgoing)]
    rfl

/-- where the first run fails, none comes before the first failure -/
theorem findIdx_runEach_of_fails {call : Call} {calls : List Call}
    (hfinds : w.Finds (call :: calls))
    (hfails : (call.attempt setting (nestedRuns setting) w).1.success = false)
    (ids : List String) :
    (w.runEach setting (call.id :: ids)).1.findIdx ranBadly = 0 := by
  rw [runEach_cons setting hfinds, List.findIdx_cons]
  simp [ranBadly, hfails]

theorem findIdx_runEach_of_succeeds {call : Call} {calls : List Call}
    (hfinds : w.Finds (call :: calls))
    (hsuccess : (call.attempt setting (nestedRuns setting) w).1.success = true)
    (ids : List String) :
    (w.runEach setting (call.id :: ids)).1.findIdx ranBadly =
      ((call.attempt setting (nestedRuns setting) w).2.runEach setting ids).1.findIdx ranBadly +
        1 := by
  rw [runEach_cons setting hfinds, List.findIdx_cons]
  simp [ranBadly, hsuccess]

/-- a sweep that is to stop does what running each call up to the first failure does -/
theorem sweep_of_stopping (h : setting.KeepsCalls) (hstop : w.runner.stopOnError = true)
    {calls : List Call} (hfinds : w.Finds calls) :
    let n := (w.runEach setting (calls.map Call.id)).1.findIdx ranBadly + 1
    let each := w.runEach setting ((calls.map Call.id).take n)
    (w.sweep setting calls).1.outcomes.map .ok = each.1 ∧
      (w.sweep setting calls).1.skipped = (calls.map Call.id).drop n ∧
      ∃ notes, (w.sweep setting calls).2 = each.2.note notes := by
  -- on the calls: at a failure the count is one and the sweep ends, else it counts on
  induction calls generalizing w with
  | nil => exact ⟨rfl, rfl, [], by simp [note, runEach, sweep]⟩
  | cons call calls ih =>
    dsimp only
    rcases sweep_cons_cases setting call calls w with ⟨hfails, -, hsweep⟩ | ⟨hgoes, hsweep⟩
    · rw [hsweep, List.map_cons (f := Call.id), findIdx_runEach_of_fails hfinds hfails,
        List.take_succ_cons, List.take_zero, runEach_cons setting hfinds]
      exact ⟨rfl, rfl, _, rfl⟩
    · have hsuccess : (call.attempt setting (nestedRuns setting) w).1.success = true :=
        hgoes.resolve_right (by simp [hstop])
      obtain ⟨houtcomes, hskipped, notes, hended⟩ :=
        ih (w := (call.attempt setting (nestedRuns setting) w).2)
          (by rw [attempt_stopOnError, hstop]) (hfinds.attempt h)
      rw [hsweep, List.map_cons (f := Call.id), findIdx_runEach_of_succeeds hfinds hsuccess,
        List.take_succ_cons, runEach_cons setting hfinds]
      exact ⟨congrArg _ houtcomes, hskipped, notes, hended⟩

/-- Running all calls is running each. Where implementations neither add calls nor reset the runner
(they may run calls), and no two calls share an id: if the runner does not stop on errors, a sweep
has the outcomes, with their durations, that running the loaded calls by their ids has, one after
another in their order, and ends in the same world but for notes in the journal. If it does, the
same holds of these runs cut off behind the first one that fails. -/
theorem runAll_runs_each (h : setting.KeepsCalls) (w : World) (hids : w.runner.ids.Nodup) :
    let answers := (w.runEach setting w.runner.ids).1
    let report := (w.runAll setting).1
    let ended := (w.runAll setting).2
    (w.runner.stopOnError = false →
      report.outcomes.map .ok = answers ∧ report.skipped = [] ∧
        ∃ notes, ended = (w.runEach setting w.runner.ids).2.note notes) ∧
    (w.runner.stopOnError = true →
      let n := answers.findIdx ranBadly + 1
      let each := w.runEach setting (w.runner.ids.take n)
      report.outcomes.map .ok = each.1 ∧ each.1 = answers.take n ∧
        report.skipped = w.runner.ids.drop n ∧ ∃ notes, ended = each.2.note notes) := by
  intro answers report ended
  have hfinds := finds_calls hids
  constructor
  · intro hgoing
    have hsweep := sweep_of_going h hgoing hfinds
    have hskipped : report.skipped = [] := by
      by_contra hne
      obtain ⟨hstop, -⟩ := sweep_skipped _ hne
      rw [hgoing] at hstop
      cases hstop
    refine ⟨congrArg Prod.fst hsweep.symm, hskipped, [report.finished], ?_⟩
    exact congrArg (fun each => each.2.note [report.finished]) hsweep.symm
  · intro hstop n each
    obtain ⟨houtcomes, hskipped, notes, hended⟩ := sweep_of_stopping h hstop hfinds
    refine ⟨houtcomes, runEach_take setting w.runner.ids n w, hskipped,
      notes ++ [report.finished], ?_⟩
    show (w.sweep setting w.runner.calls).2.note [report.finished] = _
    rw [hended]
    exact congrArg (fun journal => { each.2 with journal := journal }) (List.append_assoc _ _ _)

end World

namespace Demo

def nudge : Definition where
  id := "nudge"
  implementation := some fun _ _ => .runCall (.text chat.id) fun _ => .done (.text "asked")

def nudging : Setting := { setting with registry := nudge :: Registry.builtin }

/-- a chat that is run before its turn and fails there, as nobody is there to chat with -/
def nudged : World where
  runner := { calls := [⟨"demo.nudge", "nudge", "", []⟩, showReply, chat] }
  clock := { ticks := [.ofInt 1, .ofInt 2, .ofInt 3] }

/-- so there is no reply to show, and the chat is not run again -/
theorem nudged_runs :
    nudging.KeepsCalls ∧ nudged.runner.ids.Nodup ∧ nudged.runner.stopOnError = true ∧
      (nudged.runAll nudging).1.outcomes.map .ok =
        (nudged.runEach nudging ["demo.nudge", showReply.id]).1 ∧
      (nudged.runAll nudging).1.skipped = [chat.id] := by
  have hkeeps : nudging.KeepsCalls := by
    intro d hd f hf call params
    rcases List.mem_cons.1 hd with rfl | hd
    · obtain rfl := Option.some.inj hf
      exact fun _ => trivial
    · exact (Builtin.leavesRunner (s := setting) rfl d hd f hf call params).keepsCalls
  have hids : nudged.runner.ids.Nodup := by decide
  obtain ⟨-, hstops⟩ := World.runAll_runs_each hkeeps nudged hids
  obtain ⟨houtcomes, -, hskipped, -⟩ := hstops rfl
  have hfirst : (nudged.runEach nudging nudged.runner.ids).1.findIdx ranBadly = 1 := rfl
  rw [hfirst] at houtcomes hskipped
  exact ⟨hkeeps, hids, rfl, houtcomes, hskipped⟩

end Demo

end LinkedCalls
