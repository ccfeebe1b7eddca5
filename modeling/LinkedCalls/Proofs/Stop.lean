import LinkedCalls.Proofs.Sweep

/-!
Stopping on errors. A sweep that stops does what a sweep that goes on does, up to and including the
first failed call, and nothing more: runs read the store, the flags and the results, and none of
these depends on whether the sweep is to stop.
-/
namespace LinkedCalls

/-- the worlds agree on all that calls can read -/
structure World.Alike (w w' : World) : Prop where
  store : w.store = w'.store
  flags : w.flags = w'.flags
  results : w.runner.results = w'.runner.results

namespace World.Alike

theorem symm {w w' : World} (h : w.Alike w') : w'.Alike w :=
  ⟨h.store.symm, h.flags.symm, h.results.symm⟩

theorem trans {w w' w'' : World} (h : w.Alike w') (h' : w'.Alike w'') : w.Alike w'' :=
  ⟨h.store.trans h'.store, h.flags.trans h'.flags, h.results.trans h'.results⟩

end World.Alike

theorem Services.ask_alike (services : Services) (prompt : Value) (w : World) :
    (services.ask prompt w).2.Alike w := by
  obtain ⟨exchanges, journal, hasked⟩ := services.ask_snd prompt w
  rw [hasked]
  exact ⟨rfl, rfl, rfl⟩

theorem Routine.LeavesRunner.exec_alike {routine : Routine} (h : routine.LeavesRunner)
    (setting : Setting) (run : CallRunner) {w w' : World} (hw : w.Alike w') :
    (routine.exec setting run w).1 = (routine.exec setting run w').1 ∧
      (routine.exec setting run w).2.Alike (routine.exec setting run w').2 := by
  induction routine generalizing w w' with
  | done v => exact ⟨rfl, hw⟩
  | fail failure => exact ⟨rfl, hw⟩
  | lookup key next ih =>
    simp only [Routine.exec, hw.store]
    exact ih _ (h _) hw
  | edit e next ih =>
    have hedit : (w.edit setting.behaviour e).1 = (w'.edit setting.behaviour e).1 ∧
        (w.edit setting.behaviour e).2.Alike (w'.edit setting.behaviour e).2 := by
      unfold World.edit
      rw [hw.store]
      exact ⟨rfl, rfl, hw.flags, hw.results⟩
    simp only [Routine.exec, hedit.1]
    exact ih _ (h _) hedit.2
  | tell level text next ih => exact ih _ (h _) ⟨hw.store, hw.flags, hw.results⟩
  | ask prompt next ih =>
    have hasked := setting.services.ask_alike prompt w
    have hasked' := setting.services.ask_alike prompt w'
    simp only [Routine.exec, setting.services.ask_fst]
    exact ih _ (h _) (hasked.trans (hw.trans hasked'.symm))
  | addCall call next ih => exact h.elim
  | runCall id next ih => exact h.elim
  | reset next ih => exact h.elim
  | setFlag flag on next ih => exact ih h ⟨hw.store, by rw [hw.flags], hw.results⟩
  | note event next ih => exact ih h ⟨hw.store, hw.flags, hw.results⟩

theorem Results.conclude_alike (call : Call) {ended ended' : Except Failure Value × World}
    (hending : ended.1 = ended'.1) (hw : ended.2.Alike ended'.2) :
    (Results.kept.conclude call ended).1 = (Results.kept.conclude call ended').1 ∧
      (Results.kept.conclude call ended).2.Alike (Results.kept.conclude call ended').2 := by
  obtain ⟨ending, w⟩ := ended
  obtain ⟨ending', w'⟩ := ended'
  obtain rfl : ending = ending' := hending
  cases ending with
  | error failure => exact ⟨rfl, hw⟩
  | ok v =>
    have hrecorded : Table.insert w.runner.results (.text call.id) v =
        Table.insert w'.runner.results (.text call.id) v := by rw [hw.results]
    exact ⟨rfl, hw.store, hw.flags, hrecorded⟩

section Run

variable {setting : Setting} (h : setting.LeavesRunner) (run : CallRunner) {w w' : World}
include h

theorem Call.run_alike (call : Call) (hw : w.Alike w') :
    (call.run setting run .kept w).1 = (call.run setting run .kept w').1 ∧
      (call.run setting run .kept w).2.Alike (call.run setting run .kept w').2 := by
  have hdropped : Table.erase w.runner.results (.text call.id) =
      Table.erase w'.runner.results (.text call.id) := by rw [hw.results]
  have hothers : Results.kept.others call w = Results.kept.others call w' :=
    congrArg some hdropped
  rcases call.run_cases setting run .kept w with
    ⟨events, failure, hprepare, hrun⟩ | ⟨events, d, params, hprepare, hd, hrun⟩
  · rw [hw.flags, hw.store, hothers] at hprepare
    rw [hrun, Call.run_of_prepare_error hprepare]
    exact ⟨rfl, hw.store, hw.flags, hdropped⟩
  · rw [hw.flags, hw.store, hothers] at hprepare
    rw [hrun, Call.run_of_prepare_ok hprepare]
    have hstart : ((Results.kept.discard call.id w).note events).Alike
        ((Results.kept.discard call.id w').note events) := ⟨hw.store, hw.flags, hdropped⟩
    have hroutine := d.routine_of (fun _ => trivial) (h d hd) call params
    obtain ⟨hending, hended⟩ := hroutine.exec_alike setting run hstart
    exact Results.conclude_alike call hending hended

omit h in
theorem Call.attempt_alike_run (call : Call) :
    (call.attempt setting run w).2.Alike (call.run setting run .kept w.readClock.2).2 := by
  obtain ⟨clock, journal, hended⟩ := call.attempt_snd setting run w
  rw [hended]
  exact ⟨rfl, rfl, rfl⟩

/-- in worlds that are alike a call has the same outcome, but for the time it takes -/
theorem Call.attempt_alike (call : Call) (hw : w.Alike w') :
    (call.attempt setting run w).1.untimed = (call.attempt setting run w').1.untimed ∧
      (call.attempt setting run w).2.Alike (call.attempt setting run w').2 := by
  have hstart : w.readClock.2.Alike w'.readClock.2 := ⟨hw.store, hw.flags, hw.results⟩
  obtain ⟨hending, hended⟩ := Call.run_alike h run call hstart
  constructor
  · rw [Call.attempt_untimed, Call.attempt_untimed, hending]
  · exact (Call.attempt_alike_run run call).trans (hended.trans (Call.attempt_alike_run run call).symm)

end Run

namespace World

variable {setting : Setting} {w w' : World}

/-- the sweep that stops is the one that goes on, cut behind the first failure: after `n` calls that
succeed it does the next one, and leaves the rest -/
theorem sweep_cut (h : setting.LeavesRunner) (hw : w.Alike w')
    (hgoing : w.runner.stopOnError = false) (hstop : w'.runner.stopOnError = true)
    (calls : List Call) (n : Nat)
    (hbefore : ∀ o ∈ (w.sweep setting calls).1.outcomes.take n, o.success = true)
    (hfails : ∀ o, (w.sweep setting calls).1.outcomes[n]? = some o → o.success = false) :
    (w'.sweep setting calls).1.outcomes.map Outcome.untimed =
        ((w.sweep setting calls).1.outcomes.take (n + 1)).map Outcome.untimed ∧
      (w'.sweep setting calls).1.skipped = (calls.drop (n + 1)).map Call.id ∧
      (w.sweep setting (calls.take (n + 1))).2.Alike (w'.sweep setting calls).2 := by
  -- on the calls, with the place of the cut: at zero the sweep that stops does so right here
  induction calls generalizing w w' n with
  | nil => exact ⟨rfl, rfl, hw⟩
  | cons call calls ih =>
    obtain ⟨hsame, halike⟩ := Call.attempt_alike h (nestedRuns setting) call hw
    have hsuccess := Outcome.success_of_untimed hsame
    rw [sweep_cons h hgoing] at hbefore hfails ⊢
    rw [List.take_succ_cons, List.take_succ_cons, List.drop_succ_cons, sweep_cons h hgoing]
    cases n with
    | zero =>
      have hfailed := hfails _ rfl
      rw [hsuccess] at hfailed
      rw [sweep_cons_of_fails hfailed hstop]
      exact ⟨congrArg (fun o => [o]) hsame.symm, rfl, halike.store, halike.flags, halike.results⟩
    | succ n =>
      rw [List.take_succ_cons] at hbefore
      obtain ⟨hhead, hrest⟩ := List.forall_mem_cons.1 hbefore
      rw [hsuccess] at hhead
      obtain ⟨houtcomes, hskipped, hended⟩ := ih halike (goes_on h hgoing call)
        (by rw [attempt_stopOnError, hstop]) n hrest hfails
      rw [sweep_cons_of_goes_on (.inl hhead)]
      refine ⟨?_, hskipped, hended⟩
      rw [List.map_cons, List.map_cons, hsame, houtcomes]

theorem runAll_cut (h : setting.LeavesRunner) (hw : w.Alike w')
    (hcalls : w'.runner.calls = w.runner.calls) (hgoing : w.runner.stopOnError = false)
    (hstop : w'.runner.stopOnError = true) (n : Nat)
    (hbefore : ∀ o ∈ (w.runAll setting).1.outcomes.take n, o.success = true)
    (hfails : ∀ o, (w.runAll setting).1.outcomes[n]? = some o → o.success = false) :
    (w'.runAll setting).1.outcomes.map Outcome.untimed =
        ((w.runAll setting).1.outcomes.take (n + 1)).map Outcome.untimed ∧
      (w'.runAll setting).1.skipped = w.runner.ids.drop (n + 1) ∧
      (w.before setting (n + 1)).Alike (w'.runAll setting).2 := by
  obtain ⟨houtcomes, hskipped, hended⟩ := sweep_cut h hw hgoing hstop w.runner.calls n hbefore hfails
  unfold runAll
  rw [hcalls, Runner.ids, ← List.map_drop]
  exact ⟨houtcomes, hskipped, hended.store, hended.flags, hended.results⟩

theorem find?_of_skipped (h : setting.LeavesRunner) (hw : w.runner.WellFormed) {id : String}
    (hid : id ∈ (w.runAll setting).1.skipped) :
    Table.find? (w.runAll setting).2.runner.results (.text id) =
      Table.find? w.runner.results (.text id) := by
  have hids := hw.ids
  rw [Runner.ids, ← sweep_calls w.runner.calls] at hids
  rw [runAll_runner h]
  refine Runner.find?_settleAll_of_not_mem hw.results fun hran => ?_
  exact absurd rfl ((List.nodup_append.1 hids).2.2 id hran id hid)

def stopping (stop : Bool) (w : World) : World :=
  { w with runner := { w.runner with stopOnError := stop } }

/-- Stopping is a prefix of going on. From worlds that differ at most in the clock: where the sweep
that goes on meets no failure, the one that stops does the same to the end. Otherwise it has the
outcomes up to the first failure, skips all calls behind it, and ends in the store and with the
results that the other one had right after that failure; so the skipped calls keep the results that
they had before. -/
theorem stopped_sweep_is_cut {setting : Setting} (h : setting.LeavesRunner) (w : World)
    (hw : w.runner.WellFormed) (clock : Clock) :
    let going := w.stopping false
    let full := going.runAll setting
    let cut := ({ w with clock := clock }.stopping true).runAll setting
    ((∀ o ∈ full.1.outcomes, o.success = true) →
      cut.1.outcomes.map Outcome.untimed = full.1.outcomes.map Outcome.untimed ∧
      cut.1.skipped = [] ∧ cut.2.store = full.2.store ∧
      cut.2.runner.results = full.2.runner.results) ∧
    ((¬∀ o ∈ full.1.outcomes, o.success = true) →
      ∃ (before : List Outcome) (failed : Outcome) (after : List Outcome),
        full.1.outcomes = before ++ failed :: after ∧
        (∀ o ∈ before, o.success = true) ∧ failed.success = false ∧
        cut.1.outcomes.map Outcome.untimed = (before ++ [failed]).map Outcome.untimed ∧
        cut.1.skipped = w.runner.ids.drop (before.length + 1) ∧
        cut.2.store = (going.before setting (before.length + 1)).store ∧
        cut.2.runner.results = (going.before setting (before.length + 1)).runner.results ∧
        ∀ id ∈ cut.1.skipped, Table.find? cut.2.runner.results (.text id) =
          Table.find? w.runner.results (.text id)) := by
  intro going full cut
  have halike : going.Alike ({ w with clock := clock }.stopping true) := ⟨rfl, rfl, rfl⟩
  have hlength : full.1.outcomes.length = going.runner.calls.length := runAll_length h rfl
  constructor
  · intro hall
    have hend : full.1.outcomes[going.runner.calls.length]? = none :=
      List.getElem?_eq_none (by omega)
    obtain ⟨houtcomes, hskipped, hended⟩ := runAll_cut h halike rfl rfl rfl
      going.runner.calls.length (fun o ho => hall o (List.mem_of_mem_take ho))
      (fun o ho => by cases hend.symm.trans ho)
    rw [List.take_of_length_le (Nat.le_succ_of_le (Nat.le_of_eq hlength))] at houtcomes
    rw [List.drop_of_length_le (by simp [Runner.ids])] at hskipped
    rw [World.before, List.take_of_length_le (Nat.le_succ _)] at hended
    exact ⟨houtcomes, hskipped, hended.store.symm, hended.results.symm⟩
  · intro hfailure
    obtain ⟨failed, before, after, hsplit, hbefore, hfailed⟩ := exists_firstWithout hfailure
    rw [Bool.not_eq_true] at hfailed
    have htake : full.1.outcomes.take before.length = before := by rw [hsplit, List.take_left]
    have hat : full.1.outcomes[before.length]? = some failed := by simp [hsplit]
    obtain ⟨houtcomes, hskipped, hended⟩ := runAll_cut h halike rfl rfl rfl before.length
      (fun o ho => hbefore o (htake ▸ ho))
      (fun o ho => by rw [← Option.some.inj (hat.symm.trans ho), hfailed])
    have hstopping : ({ w with clock := clock }.stopping true).runner.WellFormed :=
      ⟨hw.ids, hw.results⟩
    have hkept : ∀ id ∈ cut.1.skipped, Table.find? cut.2.runner.results (.text id) =
        Table.find? w.runner.results (.text id) := by
      intro id hid
      exact find?_of_skipped h hstopping hid
    have hcut : full.1.outcomes.take (before.length + 1) = before ++ [failed] := by
      rw [List.take_add_one, htake, hat, Option.toList_some]
    refine ⟨before, failed, after, hsplit, hbefore, hfailed, ?_, hskipped, hended.store.symm,
      hended.results.symm, hkept⟩
    rw [← hcut]
    exact houtcomes

end World

namespace Demo

/-- nobody is there to chat with, so the reply is not shown again, but that it was is still known -/
theorem abandoned_cut :
    setting.LeavesRunner ∧ abandoned.runner.WellFormed ∧
      showReply.id ∈ ((abandoned.stopping true).runAll setting).1.skipped ∧
      Table.find? ((abandoned.stopping true).runAll setting).2.runner.results
        (.text showReply.id) = some .null := by
  have hleaves : setting.LeavesRunner := Builtin.leavesRunner rfl
  have hw : abandoned.runner.WellFormed := ⟨by decide, by decide⟩
  have hskipped : showReply.id ∈ ((abandoned.stopping true).runAll setting).1.skipped :=
    List.mem_singleton.2 rfl
  have hfailure : ¬∀ o ∈ ((abandoned.stopping false).runAll setting).1.outcomes,
      o.success = true :=
    fun hall => Bool.false_ne_true (hall _ List.mem_cons_self)
  obtain ⟨-, hcut⟩ := World.stopped_sweep_is_cut hleaves abandoned hw {}
  obtain ⟨_, _, _, -, -, -, -, -, -, -, hkept⟩ := hcut hfailure
  exact ⟨hleaves, hw, hskipped, hkept showReply.id hskipped⟩

end Demo

end LinkedCalls
