import LinkedCalls.Proofs.Effect
import LinkedCalls.Proofs.History
import LinkedCalls.Proofs.Sweep

/-!
Sweeping twice. Where calls link backward only, to results of calls before them and to entries that
neither they nor calls after them write, a second sweep shows each call what the first one showed
it. So it repeats the first one, and as it writes what is there already, it changes nothing.
-/
namespace LinkedCalls

namespace World

variable {setting : Setting} {w w' : World} {call : Call} {calls : List Call}

/-- a sweep gets to the call at a place, and the run of it writes this key of the store -/
def WritesAt (setting : Setting) (calls : List Call) (w : World) (j : Nat) (key : String) : Prop :=
  ∃ call, calls[j]? = some call ∧ j < (w.sweep setting calls).1.outcomes.length ∧
    call.Writes setting (w.sweep setting (calls.take j)).2 key

theorem writesAt_zero {key : String} :
    w.WritesAt setting (call :: calls) 0 key ↔ call.Writes setting w key := by
  have hlength : 0 < (w.sweep setting (call :: calls)).1.outcomes.length := by
    rcases sweep_cons_cases setting call calls w with ⟨-, -, hsweep⟩ | ⟨-, hsweep⟩
    · rw [hsweep]
      exact Nat.one_pos
    · rw [hsweep]
      exact Nat.succ_pos _
  constructor
  · rintro ⟨first, hfirst, -, hwrites⟩
    obtain rfl := Option.some.inj hfirst
    exact hwrites
  · intro hwrites
    exact ⟨call, rfl, hlength, hwrites⟩

theorem writesAt_succ (h : (call.attempt setting (nestedRuns setting) w).1.success = true ∨
    w.runner.stopOnError = false) {j : Nat} {key : String} :
    w.WritesAt setting (call :: calls) (j + 1) key ↔
      (call.attempt setting (nestedRuns setting) w).2.WritesAt setting calls j key := by
  unfold WritesAt
  rw [sweep_cons_of_goes_on h, List.take_succ_cons, sweep_cons_of_goes_on h]
  simp only [List.getElem?_cons_succ, List.length_cons, Nat.add_lt_add_iff_right]

/-- no call links to a later call, nor to an entry that it or a later call writes in a sweep -/
structure RunsForward (setting : Setting) (calls : List Call) (w : World) : Prop where
  targets : calls.Pairwise fun a b => b.id ∉ a.targets
  keys : ∀ (i j : Nat) (call : Call), i ≤ j → calls[i]? = some call →
    ∀ key ∈ call.contextKeys, ¬w.WritesAt setting calls j key

theorem RunsForward.tail (h : w.RunsForward setting (call :: calls))
    (hgoes : (call.attempt setting (nestedRuns setting) w).1.success = true ∨
      w.runner.stopOnError = false) :
    (call.attempt setting (nestedRuns setting) w).2.RunsForward setting calls where
  targets := h.targets.tail
  keys := by
    intro i j other hij hother key hkey hwrites
    exact h.keys (i + 1) (j + 1) other (Nat.succ_le_succ hij) hother key hkey
      ((writesAt_succ hgoes).2 hwrites)

/-- the worlds agree on all but the entries that a sweep over the calls writes in the first of them,
and the results of these calls -/
structure Repeats (setting : Setting) (calls : List Call) (w w' : World) : Prop where
  flags : w.flags = w'.flags
  stopOnError : w.runner.stopOnError = w'.runner.stopOnError
  distinct : Table.Distinct w.runner.results
  distinct_right : Table.Distinct w'.runner.results
  entries : ∀ key, (∀ j, ¬w.WritesAt setting calls j key) →
    Table.find? w.store.entries (.text key) = Table.find? w'.store.entries (.text key)
  results : ∀ id, id ∉ calls.map Call.id →
    Table.find? w.runner.results (.text id) = Table.find? w'.runner.results (.text id)

theorem Repeats.refl (setting : Setting) (calls : List Call) {w : World}
    (h : Table.Distinct w.runner.results) : Repeats setting calls w w :=
  ⟨rfl, rfl, h, h, fun _ _ => rfl, fun _ _ => rfl⟩

/-- the first of calls that run forward sees the same in both worlds -/
theorem Repeats.seesSame (h : Repeats setting (call :: calls) w w')
    (hforward : w.RunsForward setting (call :: calls)) : call.SeesSame w w' where
  flags := h.flags
  entries := by
    intro key hkey
    exact h.entries key fun j => hforward.keys 0 j call (Nat.zero_le j) rfl key hkey
  results := by
    intro target htarget hne
    refine h.results target fun hmem => ?_
    rcases List.mem_cons.1 hmem with hself | hlater
    · exact hne hself
    · obtain ⟨later, hin, rfl⟩ := List.mem_map.1 hlater
      exact List.rel_of_pairwise_cons hforward.targets hin htarget

def opened (setting : Setting) (stop : Bool) (program : Program) (w : World) : World :=
  (({ w with runner := { stopOnError := stop } } : World).act setting (.load program)).2

theorem opened_eq (setting : Setting) (stop : Bool) (program : Program) (w : World) :
    w.opened setting stop program =
      ({ w with runner := { calls := program.calls, stopOnError := stop } } : World).note
        [Runner.loaded program] := by
  have hload : ({ stopOnError := stop } : Runner).load program =
      .ok { calls := program.calls, stopOnError := stop } :=
    Runner.load_of_fresh fun _ _ => List.not_mem_nil
  unfold opened act
  simp only [hload]

variable (hregistry : setting.registry = Registry.builtin) (hquiet : setting.behaviour.Quiet)
include hregistry hquiet

theorem Repeats.tail (h : Repeats setting (call :: calls) w w')
    (hforward : w.RunsForward setting (call :: calls))
    (hgoes : (call.attempt setting (nestedRuns setting) w).1.success = true ∨
      w.runner.stopOnError = false) :
    Repeats setting calls (call.attempt setting (nestedRuns setting) w).2
      (call.attempt setting (nestedRuns setting) w').2 := by
  have hleaves : setting.LeavesRunner := Builtin.leavesRunner hregistry
  obtain ⟨huntimed, e, he, hgains, hgains'⟩ := (h.seesSame hforward).attempt_eq hregistry hquiet
    h.distinct h.distinct_right (nestedRuns setting)
  refine ⟨?_, ?_, Call.attempt_distinct hleaves h.distinct _ _,
    Call.attempt_distinct hleaves h.distinct_right _ _, ?_, ?_⟩
  · rw [hgains.flags, hgains'.flags, h.flags]
  · rw [attempt_stopOnError, attempt_stopOnError, h.stopOnError]
  · intro key hkey
    refine hgains.find?_congr hgains' fun hunwritten => h.entries key fun j => ?_
    cases j with
    | zero =>
      rw [writesAt_zero]
      rintro ⟨f, hf, hwritten⟩
      obtain rfl := Option.some.inj (he.symm.trans hf)
      exact hunwritten hwritten
    | succ j =>
      rw [writesAt_succ hgoes]
      exact hkey j
  · intro id hid
    rw [Call.attempt_runner hleaves, Call.attempt_runner hleaves, Runner.find?_settle h.distinct,
      Runner.find?_settle h.distinct_right, Outcome.ending_of_untimed huntimed]
    split
    · rfl
    · next hne =>
      refine h.results id fun hmem => ?_
      rcases List.mem_cons.1 hmem with hself | hlater
      · exact hne hself.symm
      · exact hid hlater

/-- a sweep over calls that run forward goes the same way in worlds that agree on all else -/
theorem sweep_repeats (hforward : w.RunsForward setting calls) (h : Repeats setting calls w w') :
    (w.sweep setting calls).1.outcomes.map Outcome.untimed =
        (w'.sweep setting calls).1.outcomes.map Outcome.untimed ∧
      (w.sweep setting calls).1.skipped = (w'.sweep setting calls).1.skipped ∧
      ∃ writes messages, w.Gains (w.sweep setting calls).2 writes messages ∧
        w'.Gains (w'.sweep setting calls).2 writes messages ∧
        ∀ key ∈ writes.map Prod.fst, ∃ j, w.WritesAt setting calls j key := by
  -- on the calls: each sees the same in both worlds, and leaves them agreeing for the rest
  induction calls generalizing w w' with
  | nil => exact ⟨rfl, rfl, [], [], .refl w, .refl w', fun key hkey => absurd hkey List.not_mem_nil⟩
  | cons call calls ih =>
    obtain ⟨huntimed, e, he, hgains, hgains'⟩ := (h.seesSame hforward).attempt_eq hregistry hquiet
      h.distinct h.distinct_right (nestedRuns setting)
    have hwritten : ∀ key ∈ e.writes.map Prod.fst, w.WritesAt setting (call :: calls) 0 key :=
      fun key hkey => writesAt_zero.2 ⟨e, he, hkey⟩
    have hsuccess := Outcome.success_of_untimed huntimed
    rcases sweep_cons_cases setting call calls w with ⟨hfails, hstop, hsweep⟩ | ⟨hgoes, hsweep⟩
    · rw [hsweep, sweep_cons_of_fails (hsuccess ▸ hfails) (h.stopOnError ▸ hstop)]
      refine ⟨congrArg (fun o => [o]) huntimed, rfl, e.writes, e.messages, ?_, ?_,
        fun key hkey => ⟨0, hwritten key hkey⟩⟩
      · exact hgains.note _
      · exact hgains'.note _
    · have hgoes' : (call.attempt setting (nestedRuns setting) w').1.success = true ∨
          w'.runner.stopOnError = false := by
        rwa [← hsuccess, ← h.stopOnError]
      obtain ⟨houtcomes, hskipped, writes, messages, hrest, hrest', hlater⟩ :=
        ih (hforward.tail hgoes) (h.tail hregistry hquiet hforward hgoes)
      rw [hsweep, sweep_cons_of_goes_on hgoes']
      refine ⟨?_, hskipped, _, _, hgains.trans hrest, hgains'.trans hrest', fun key hkey => ?_⟩
      · rw [List.map_cons, List.map_cons, huntimed, houtcomes]
      · rw [List.map_append, List.mem_append] at hkey
        rcases hkey with hkey | hkey
        · exact ⟨0, hwritten key hkey⟩
        · obtain ⟨j, hj⟩ := hlater key hkey
          exact ⟨j + 1, (writesAt_succ hgoes).2 hj⟩

theorem Repeats.runAll (hforward : w.RunsForward setting w.runner.calls)
    (hempty : w.runner.results = []) :
    Repeats setting w.runner.calls w (w.runAll setting).2 := by
  have hdistinct : Table.Distinct w.runner.results := by
    rw [hempty]
    exact List.Pairwise.nil
  have hrunner := runAll_runner (Builtin.leavesRunner hregistry) w
  obtain ⟨-, -, writes, messages, hgains, -, hwritten⟩ := sweep_repeats hregistry hquiet hforward
    (.refl setting w.runner.calls hdistinct)
  refine ⟨hgains.flags.symm, ?_, hdistinct, ?_, ?_, ?_⟩
  · rw [hrunner, Runner.settleAll_stopOnError]
  · rw [hrunner]
    exact Runner.settleAll_distinct hdistinct _
  · intro key hkey
    refine ((hgains.note _).find?_of_not_mem fun hmem => ?_).symm
    obtain ⟨j, hj⟩ := hwritten key hmem
    exact hkey j hj
  · intro id hid
    rw [hrunner, Runner.find?_settleAll_of_not_mem hdistinct]
    intro hmem
    obtain ⟨o, ho, rfl⟩ := List.mem_map.1 hmem
    obtain ⟨call, hcall, hrun⟩ := call_of_mem_sweep ho
    exact hid (hrun ▸ List.mem_map_of_mem hcall)

/-- Running a program once more changes nothing, where its calls run forward: no call links to the
result of a later one, nor to an entry that it or a later one writes in the first sweep. The program
is loaded into a fresh runner over the built-in operations, the store holds whatever it holds, and
no listener writes. Then the second sweep has the outcomes of the first, durations aside, and skips
what that skipped; it shows the same messages again and leaves the entries of the store and the
results as they are. -/
theorem rerun_changes_nothing (w : World) (stop : Bool) (program : Program)
    (hforward : (w.opened setting stop program).RunsForward setting program.calls) :
    let first := (w.opened setting stop program).runAll setting
    let second := first.2.runAll setting
    second.1.outcomes.map Outcome.untimed = first.1.outcomes.map Outcome.untimed ∧
      second.1.skipped = first.1.skipped ∧
      (∃ shown, first.2.messages = w.messages ++ shown ∧
        second.2.messages = first.2.messages ++ shown) ∧
      second.2.store.entries = first.2.store.entries ∧
      second.2.runner.results = first.2.runner.results := by
  intro first second
  have hleaves : setting.LeavesRunner := Builtin.leavesRunner hregistry
  have hstart := opened_eq setting stop program w
  have hcalls : (w.opened setting stop program).runner.calls = program.calls := by rw [hstart]; rfl
  have hempty : (w.opened setting stop program).runner.results = [] := by rw [hstart]; rfl
  have hshown : (w.opened setting stop program).messages = w.messages := by rw [hstart]; rfl
  rw [← hcalls] at hforward
  have hfirst : first.2.runner =
      (w.opened setting stop program).runner.settleAll first.1.outcomes :=
    runAll_runner hleaves _
  have hsecond : second.2.runner = first.2.runner.settleAll second.1.outcomes :=
    runAll_runner hleaves first.2
  have hsame : first.2.sweep setting (w.opened setting stop program).runner.calls =
      first.2.sweep setting first.2.runner.calls := by rw [hfirst, Runner.settleAll_calls]
  obtain ⟨houtcomes, hskipped, writes, messages, hgains, hgains', -⟩ :=
    sweep_repeats hregistry hquiet hforward (.runAll hregistry hquiet hforward hempty)
  rw [hsame] at houtcomes hskipped hgains'
  refine ⟨houtcomes.symm, hskipped.symm, ⟨messages, ?_, hgains'.messages⟩, ?_, ?_⟩
  · rw [← hshown]
    exact hgains.messages
  · have hwritten : first.2.store.entries = Table.write _ writes := hgains.entries
    have hrewritten : second.2.store.entries = Table.write first.2.store.entries writes :=
      hgains'.entries
    rw [hrewritten, hwritten, Table.write_write_self]
  · have hremembers := (Runner.accounts_nil _ hempty).toRemembers.settleAll first.1.outcomes
    rw [hsecond, hfirst, (hremembers.settleAll second.1.outcomes).results, hremembers.results,
      List.nil_append]
    exact Runner.kept_append_of_untimed houtcomes.symm

end World

namespace Demo

def hello : Program := HelloWorld.program "demo" "."

def hailed : Message := ⟨.text "Info", .text HelloWorld.greeting⟩

/-- the greeting is shown once more; nobody is there to chat with, so the last call fails again -/
theorem hello_rerun :
    setting.registry = Registry.builtin ∧ setting.behaviour.Quiet ∧
      (World.opened setting true hello {}).RunsForward setting hello.calls ∧
      let first := (World.opened setting true hello {}).runAll setting
      let second := first.2.runAll setting
      first.2.messages = [hailed] ∧ second.2.messages = [hailed, hailed] ∧
        second.2.store.entries = first.2.store.entries := by
  have hquiet : setting.behaviour.Quiet := fun _ _ => trivial
  have hforward : (World.opened setting true hello {}).RunsForward setting hello.calls := by
    refine ⟨by decide, ?_⟩
    rintro i j call hij hcall key hkey ⟨other, hother, -, e, he, hwritten⟩
    obtain rfl : i = 1 := by
      match i with
      | 0 =>
        obtain rfl := Option.some.inj hcall
        cases hkey
      | 1 => rfl
      | 2 =>
        obtain rfl := Option.some.inj hcall
        cases hkey
      | i + 3 => cases hcall
    match j with
    | 0 => cases hij
    | 1 =>
      obtain rfl := Option.some.inj hother
      obtain rfl := Option.some.inj he
      cases hwritten
    | 2 =>
      obtain rfl := Option.some.inj hother
      obtain rfl := Option.some.inj he
      cases hwritten
    | j + 3 => cases hother
  obtain ⟨-, -, ⟨shown, hfirst, hsecond⟩, hentries, -⟩ :=
    World.rerun_changes_nothing rfl hquiet {} true hello hforward
  have hshown : [hailed] = shown := hfirst
  rw [← hshown] at hsecond
  exact ⟨rfl, hquiet, hforward, rfl, hsecond, hentries⟩

end Demo

end LinkedCalls
