import LinkedCalls.Proofs.Run
import Mathlib.Data.List.Induction

/-!
The results and the history of a runner. The history holds every run since the last reset; the
results are those of the runs that no later run of the same call replaces, as far as they succeeded,
in the order in which they ended.
-/
namespace LinkedCalls

/-- the runs that no later run of the same call replaces -/
def standing : List Outcome → List Outcome
  | [] => []
  | o :: os => if os.any (·.call == o.call) then standing os else o :: standing os

def lastRun? (history : List Outcome) (id : String) : Option Outcome :=
  history.reverse.find? (·.call == id)

/-- the results that a history leaves behind -/
def kept (history : List Outcome) : Table Value :=
  ((standing history).filter Outcome.success).map fun o => (.text o.call, o.result)

theorem standing_snoc (history : List Outcome) (o : Outcome) :
    standing (history ++ [o]) = (standing history).filter (·.call != o.call) ++ [o] := by
  induction history with
  | nil => simp [standing]
  | cons p history ih =>
    simp only [standing, List.cons_append, List.any_append, List.any_cons, List.any_nil, ih,
      Bool.or_false]
    cases hlater : history.any (·.call == p.call) with
    | true => simp only [Bool.true_or, if_true]
    | false =>
      by_cases hcall : p.call = o.call
      · simp [hcall]
      · simp [hcall, Ne.symm hcall]

/-- of runs that are all made again the later ones stand -/
theorem standing_append {history later : List Outcome}
    (h : ∀ o ∈ history, o.call ∈ later.map Outcome.call) :
    standing (history ++ later) = standing later := by
  induction history with
  | nil => rfl
  | cons o history ih =>
    obtain ⟨ho, hrest⟩ := List.forall_mem_cons.1 h
    have hagain : (history ++ later).any (·.call == o.call) = true := by
      obtain ⟨p, hp, hcall⟩ := List.mem_map.1 ho
      exact List.any_eq_true.2 ⟨p, List.mem_append_right _ hp, beq_iff_eq.2 hcall⟩
    rw [List.cons_append, standing, if_pos hagain, ih hrest]

theorem lastRun?_snoc (history : List Outcome) (o : Outcome) (id : String) :
    lastRun? (history ++ [o]) id = if o.call = id then some o else lastRun? history id := by
  by_cases h : o.call = id <;> simp [lastRun?, h]

theorem mem_of_lastRun? {history : List Outcome} {id : String} {o : Outcome}
    (h : lastRun? history id = some o) : o ∈ history ∧ o.call = id :=
  ⟨List.mem_reverse.1 (List.mem_of_find?_eq_some h), by simpa using List.find?_some h⟩

theorem lastRun?_eq_none {history : List Outcome} {id : String}
    (h : id ∉ history.map Outcome.call) : lastRun? history id = none := by
  rcases hlast : lastRun? history id with _ | o
  · rfl
  · obtain ⟨hmem, rfl⟩ := mem_of_lastRun? hlast
    exact absurd (List.mem_map_of_mem hmem) h

theorem Outcome.toOption_ending {o : Outcome} {v : Value} :
    o.ending.toOption = some v ↔ o.ending = .ok v := by
  cases o.ending <;> simp [Except.toOption]

/-- the entry that a run leaves, none if it failed -/
def Outcome.entry (o : Outcome) : Table Value :=
  match o.ending with
  | .ok v => [(.text o.call, v)]
  | .error _ => []

theorem kept_snoc (history : List Outcome) (o : Outcome) :
    kept (history ++ [o]) =
      (kept history).filter (fun e => !e.1.same (.text o.call)) ++ o.entry := by
  have hlast : ([o].filter Outcome.success).map (fun o => (Scalar.text o.call, o.result)) =
      o.entry := by
    rcases hending : o.ending with failure | v <;>
      simp [Outcome.success, Outcome.entry, Outcome.result, hending]
  rw [kept, standing_snoc, List.filter_append, List.map_append, hlast, kept, List.filter_map,
    List.filter_filter, List.filter_filter]
  congr 3
  funext p
  exact Bool.and_comm _ _

namespace Runner

/-- after some runs a call has the result of the last of them that was of it, or else its old one -/
theorem find?_settleAll {r : Runner} (h : Table.Distinct r.results) (outcomes : List Outcome)
    (id : String) :
    Table.find? (r.settleAll outcomes).results (.text id) =
      match lastRun? outcomes id with
      | some o => o.ending.toOption
      | none => Table.find? r.results (.text id) := by
  induction outcomes using List.reverseRecOn with
  | nil => rfl
  | append_singleton outcomes o ih =>
    have hlast : r.settleAll (outcomes ++ [o]) = (r.settleAll outcomes).settle o.call o.ending :=
      settleAll_append r outcomes [o]
    rw [hlast, lastRun?_snoc]
    by_cases hcall : o.call = id
    · rw [if_pos hcall, ← hcall, find?_settle_self (settleAll_distinct h outcomes)]
    · rw [if_neg hcall, find?_settle_of_ne hcall, ih]

theorem find?_settleAll_of_not_mem {r : Runner} (h : Table.Distinct r.results)
    {outcomes : List Outcome} {id : String} (hid : id ∉ outcomes.map Outcome.call) :
    Table.find? (r.settleAll outcomes).results (.text id) =
      Table.find? r.results (.text id) := by
  rw [find?_settleAll h, lastRun?_eq_none hid]

/-- the results are those that the history leaves behind -/
structure Remembers (r : Runner) (history : List Outcome) : Prop where
  distinct : Table.Distinct r.results
  results : r.results = kept history

theorem Remembers.settle {r : Runner} {history : List Outcome} (h : r.Remembers history)
    (o : Outcome) : (r.settle o.call o.ending).Remembers (history ++ [o]) where
  distinct := settle_distinct h.distinct _ _
  results := by
    have herase : Table.erase r.results (.text o.call) =
        (kept history).filter fun e => !e.1.same (.text o.call) := by
      rw [h.distinct.erase_eq_filter, h.results]
    rw [kept_snoc, ← herase]
    rcases hending : o.ending with failure | v
    · simp [Runner.settle, Runner.discard, Outcome.entry, hending]
    · simp only [Runner.settle, Runner.record, Runner.discard, Outcome.entry, hending]
      exact Table.insert_of_find?_eq_none (h.distinct.find?_erase_self o.call)

theorem Remembers.settleAll {r : Runner} {history : List Outcome} (h : r.Remembers history)
    (outcomes : List Outcome) : (r.settleAll outcomes).Remembers (history ++ outcomes) := by
  induction outcomes generalizing r history with
  | nil => simpa [Runner.settleAll] using h
  | cons o outcomes ih =>
    have hrest := ih (h.settle o)
    rw [List.append_assoc] at hrest
    exact hrest

theorem settleAll_empty (history : List Outcome) : (settleAll {} history).results = kept history :=
  have hempty : ({} : Runner).Remembers [] := ⟨List.Pairwise.nil, rfl⟩
  (hempty.settleAll history).results

theorem kept_untimed (history : List Outcome) :
    kept (history.map Outcome.untimed) = kept history := by
  rw [← settleAll_empty, ← settleAll_empty, settleAll_untimed]

theorem kept_append_of_untimed {history later : List Outcome}
    (h : later.map Outcome.untimed = history.map Outcome.untimed) :
    kept (history ++ later) = kept history := by
  have hcalls : later.map Outcome.call = history.map Outcome.call := by
    have hmapped := congrArg (List.map Outcome.call) h
    rwa [List.map_map, List.map_map] at hmapped
  have hagain : ∀ o ∈ history, o.call ∈ later.map Outcome.call := by
    intro o ho
    rw [hcalls]
    exact List.mem_map_of_mem ho
  calc kept (history ++ later)
      = kept later := by rw [kept, standing_append hagain, kept]
    _ = kept (later.map Outcome.untimed) := (kept_untimed later).symm
    _ = kept history := by rw [h, kept_untimed]

theorem find?_kept (history : List Outcome) (id : String) :
    Table.find? (kept history) (.text id) =
      (lastRun? history id).bind fun o => o.ending.toOption := by
  have hdistinct : Table.Distinct ({} : Runner).results := List.Pairwise.nil
  rw [← settleAll_empty, find?_settleAll hdistinct]
  cases lastRun? history id <;> rfl

/-- a result is the value that the last run of its call returned -/
theorem Remembers.find?_iff {r : Runner} {history : List Outcome} (h : r.Remembers history)
    (id : String) (v : Value) :
    Table.find? r.results (.text id) = some v ↔
      ∃ o, lastRun? history id = some o ∧ o.ending = .ok v := by
  rw [h.results, find?_kept, Option.bind_eq_some_iff]
  exact exists_congr fun o => and_congr_right fun _ => Outcome.toOption_ending

theorem Remembers.hasResult_iff {r : Runner} {history : List Outcome} (h : r.Remembers history)
    (id : String) :
    r.hasResult id = true ↔ ∃ o, lastRun? history id = some o ∧ o.success = true := by
  simp only [hasResult, Table.has, Option.isSome_iff_exists, h.find?_iff, Outcome.success_iff]
  constructor
  · rintro ⟨v, o, hlast, hending⟩
    exact ⟨o, hlast, v, hending⟩
  · rintro ⟨o, hlast, v, hending⟩
    exact ⟨v, o, hlast, hending⟩

theorem Remembers.keys_eq {r : Runner} {history : List Outcome} (h : r.Remembers history) :
    Table.keys r.results =
      ((standing history).filter Outcome.success).map fun o => .text o.call := by
  rw [h.results, kept, Table.keys, List.map_map]
  rfl

/-- a remembered history whose runs were of calls that are loaded -/
structure Accounts (r : Runner) (history : List Outcome) : Prop extends r.Remembers history where
  loaded : ∀ o ∈ history, o.call ∈ r.ids

theorem Accounts.settleAll {r : Runner} {history outcomes : List Outcome} (h : r.Accounts history)
    (hids : ∀ o ∈ outcomes, o.call ∈ r.ids) :
    (r.settleAll outcomes).Accounts (history ++ outcomes) where
  toRemembers := h.toRemembers.settleAll outcomes
  loaded := by
    intro o ho
    rw [ids, settleAll_calls]
    rcases List.mem_append.1 ho with ho | ho
    · exact h.loaded o ho
    · exact hids o ho

theorem Accounts.append {r : Runner} {history : List Outcome} (h : r.Accounts history)
    (calls : List Call) : { r with calls := r.calls ++ calls }.Accounts history where
  distinct := h.distinct
  results := h.results
  loaded := by
    intro o ho
    simp only [ids, List.map_append]
    exact List.mem_append_left _ (h.loaded o ho)

theorem add_eq_ok {r r' : Runner} {call : Call} (h : r.add call = .ok r') :
    r' = { r with calls := r.calls ++ [call] } := by
  unfold add at h
  split at h
  · cases h
  · exact (Except.ok.inj h).symm

theorem load_eq_ok {r r' : Runner} {program : Program} (h : r.load program = .ok r') :
    r' = { r with calls := r.calls ++ program.calls } := by
  unfold load at h
  split at h
  · cases h
  · exact (Except.ok.inj h).symm

theorem has_iff (r : Runner) (id : String) : r.has id = true ↔ id ∈ r.ids := by
  simp [has, ids]

theorem load_of_fresh {r : Runner} {program : Program}
    (h : ∀ call ∈ program.calls, call.id ∉ r.ids) :
    r.load program = .ok { r with calls := r.calls ++ program.calls } := by
  have hnone : program.calls.find? (r.has ·.id) = none := by
    rw [List.find?_eq_none]
    intro call hcall hhas
    exact h call hcall ((r.has_iff call.id).1 hhas)
  unfold load
  rw [hnone]

theorem accounts_nil (r : Runner) (h : r.results = []) : r.Accounts [] where
  distinct := by
    rw [h]
    exact List.Pairwise.nil
  results := h
  loaded := by simp

end Runner

/-- what can be asked of a runner -/
inductive Action where
  | addCall (call : Call)
  | load (program : Program)
  | runCall (id : Scalar)
  | runAll
  | reset

namespace World

def act (setting : Setting) (w : World) : Action → List Outcome × World
  | .addCall call => ([], (w.addCall call).2)
  | .load program =>
    match w.runner.load program with
    | .ok runner => ([], { w with runner := runner }.note [Runner.loaded program])
    | .error _ => ([], w)
  | .runCall id =>
    match runCall setting id w with
    | (.ok outcome, w) => ([outcome], w)
    | (.error _, w) => ([], w)
  | .runAll => ((w.runAll setting).1.outcomes, (w.runAll setting).2)
  | .reset => ([], { w with runner := w.runner.reset })

/-- an action on a world of which the runs since the last reset are known -/
def live (setting : Setting) (past : List Outcome × World) (action : Action) :
    List Outcome × World :=
  match action with
  | .reset => ([], (past.2.act setting .reset).2)
  | action => (past.1 ++ (past.2.act setting action).1, (past.2.act setting action).2)

theorem runCall_eq (setting : Setting) (id : Scalar) (w : World) :
    runCall setting id w =
      match w.runner.call? id with
      | none => (.error (unknownCall id), w)
      | some call =>
        (.ok (call.attempt setting (nestedRuns setting) w).1,
          (call.attempt setting (nestedRuns setting) w).2) := rfl

theorem mem_of_callWithId {calls : List Call} {id : Scalar} {call : Call}
    (h : callWithId calls id = some call) : call ∈ calls := by
  unfold callWithId at h
  split at h
  · exact List.mem_of_find?_eq_some h
  · cases h

variable {setting : Setting} {history : List Outcome} {w : World}

theorem accounts_sweep (hleaves : setting.LeavesRunner) (h : w.runner.Accounts history)
    {calls : List Call} (hcalls : ∀ call ∈ calls, call ∈ w.runner.calls) :
    (w.sweep setting calls).2.runner.Accounts
      (history ++ (w.sweep setting calls).1.outcomes) := by
  rw [sweep_runner hleaves]
  refine h.settleAll fun o ho => ?_
  obtain ⟨call, hcall, hid⟩ := call_of_mem_sweep ho
  exact hid ▸ List.mem_map_of_mem (hcalls call hcall)

theorem accounts_runCall (hleaves : setting.LeavesRunner) (h : w.runner.Accounts history)
    (id : Scalar) :
    (w.act setting (.runCall id)).2.runner.Accounts
      (history ++ (w.act setting (.runCall id)).1) := by
  simp only [act, runCall_eq]
  rcases hcall : w.runner.call? id with _ | call
  · simpa using h
  · dsimp only
    rw [Call.attempt_runner hleaves]
    have hloaded : ∀ o ∈ [(call.attempt setting (nestedRuns setting) w).1],
        o.call ∈ w.runner.ids := by
      intro o ho
      rw [List.mem_singleton.1 ho]
      exact List.mem_map_of_mem (mem_of_callWithId hcall)
    exact h.settleAll hloaded

theorem accounts_live (hleaves : setting.LeavesRunner) (past : List Outcome × World)
    (h : past.2.runner.Accounts past.1) (action : Action) :
    (live setting past action).2.runner.Accounts (live setting past action).1 := by
  cases action with
  | addCall call =>
    simp only [live, act, addCall, List.append_nil]
    split
    · next runner hadd =>
      rw [Runner.add_eq_ok hadd]
      exact h.append [call]
    · exact h
  | load program =>
    simp only [live, act]
    split
    · next runner hload =>
      rw [List.append_nil, Runner.load_eq_ok hload]
      exact h.append program.calls
    · rw [List.append_nil]
      exact h
  | runCall id => exact accounts_runCall hleaves h id
  | runAll => exact accounts_sweep hleaves h fun _ => id
  | reset => exact Runner.accounts_nil _ rfl

theorem accounts_foldl (hleaves : setting.LeavesRunner) (actions : List Action)
    (past : List Outcome × World) (h : past.2.runner.Accounts past.1) :
    (actions.foldl (live setting) past).2.runner.Accounts (actions.foldl (live setting) past).1 := by
  induction actions generalizing past with
  | nil => exact h
  | cons action actions ih => exact ih _ (accounts_live hleaves past h action)

/-- At every point of every sequence of actions on a fresh runner, also in the midst of a sweep, the
results are those of the calls whose last run since the last reset succeeded, with the values that
these runs returned and in the order in which they ended; and all these calls are loaded. -/
theorem results_tell_history (hleaves : setting.LeavesRunner) (w : World) (stop : Bool)
    (actions : List Action) (n : Nat) :
    let past := actions.foldl (live setting) ([], { w with runner := { stopOnError := stop } })
    let sweep := past.2.sweep setting (past.2.runner.calls.take n)
    let history := past.1 ++ sweep.1.outcomes
    let runner := sweep.2.runner
    (∀ id, runner.hasResult id = true ↔
      ∃ o, lastRun? history id = some o ∧ o.success = true) ∧
    (∀ id v, Table.find? runner.results (.text id) = some v ↔
      ∃ o, lastRun? history id = some o ∧ o.ending = .ok v) ∧
    Table.keys runner.results =
      ((standing history).filter Outcome.success).map (fun o => .text o.call) ∧
    ∀ id, runner.hasResult id = true → id ∈ runner.ids := by
  intro past sweep history runner
  have hpast : past.2.runner.Accounts past.1 :=
    accounts_foldl hleaves actions _ (Runner.accounts_nil _ rfl)
  have hrunner : runner.Accounts history :=
    accounts_sweep hleaves hpast fun _ hcall => List.mem_of_mem_take hcall
  refine ⟨hrunner.hasResult_iff, hrunner.find?_iff, hrunner.keys_eq, fun id hid => ?_⟩
  obtain ⟨o, hlast, -⟩ := (hrunner.hasResult_iff id).1 hid
  obtain ⟨hmem, rfl⟩ := mem_of_lastRun? hlast
  exact hrunner.loaded o hmem

end World

namespace Demo

def greeting : Setting :=
  { setting with services := { setting.services with chat := some fun _ => .ok (.text "hello") } }

def chat : Call where
  id := "demo.startChat"
  operation := "startChat"
  params := []

def chatAgain : List Action :=
  [.addCall chat, .addCall showReply, .runAll, .runCall (.text chat.id)]

/-- the result of the chat is now the last one, and it is that of the last chat -/
theorem chatAgain_results :
    greeting.LeavesRunner ∧
      let past := chatAgain.foldl (World.live greeting) ([], { runner := { stopOnError := true } })
      Table.keys past.2.runner.results = [.text showReply.id, .text chat.id] ∧
        ∃ o, lastRun? past.1 chat.id = some o ∧ o.ending = .ok (.text "hello") := by
  have hleaves : greeting.LeavesRunner := Builtin.leavesRunner rfl
  obtain ⟨-, hget, -, -⟩ := World.results_tell_history hleaves {} true chatAgain 0
  refine ⟨hleaves, rfl, ?_⟩
  simpa [World.sweep] using (hget chat.id (.text "hello")).1 rfl

end Demo

end LinkedCalls
