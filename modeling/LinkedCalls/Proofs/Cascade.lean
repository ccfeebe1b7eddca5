import LinkedCalls.Proofs.History
import Mathlib.Data.List.Nodup
import Mathlib.Logic.Relation

/-!
How failures spread through a sweep that goes on after them. A call that links to a result which is
not there fails before its implementation. After a failed run there is no result of its call, and
none comes back before the next sweep, so the failure takes every later call along that depends on
it through links.
-/
namespace LinkedCalls

theorem Table.find?_erase_eq_none {α : Type} {t : Table α} {s : String} (key : Scalar)
    (h : t.find? (.text s) = none) : (t.erase key).find? (.text s) = none := by
  rw [find?_eq_none_iff] at h ⊢
  exact fun e he => h e (List.eraseP_sublist.subset he)

theorem lastRun?_of_nodup {outcomes : List Outcome} (h : (outcomes.map Outcome.call).Nodup)
    {o : Outcome} (ho : o ∈ outcomes) : lastRun? outcomes o.call = some o := by
  rcases hlast : lastRun? outcomes o.call with _ | last
  · have hnone := List.find?_eq_none.1 hlast o (List.mem_reverse.2 ho)
    simp at hnone
  · obtain ⟨hmem, hcall⟩ := mem_of_lastRun? hlast
    rw [List.inj_on_of_nodup_map h hmem ho hcall]

namespace Call

section Link

variable {setting : Setting} {run : CallRunner} {call : Call} {w : World} {target : String}

theorem not_invokes_of_missing (htarget : target ∈ call.targets)
    (h : Table.find? (Table.erase w.runner.results (.text call.id)) (.text target) = none) :
    ¬∃ params, call.Invokes setting run .kept w params := by
  rintro ⟨params, hinvokes⟩
  obtain ⟨d, hd, -⟩ := invokes_iff_admitted.1 hinvokes
  obtain ⟨p, hp, hlink⟩ := mem_targets.1 htarget
  obtain ⟨-, hsome⟩ := linked_iff.1 hd.linked p hp target hlink
  have hnone : linkedResult (Results.kept.others call w) target = none := h
  rw [hnone] at hsome
  cases hsome

theorem attempt_of_missing (htarget : target ∈ call.targets)
    (h : Table.find? (Table.erase w.runner.results (.text call.id)) (.text target) = none) :
    (call.attempt setting run w).1.success = false ∧
      ¬∃ params, call.Invokes setting run .kept w.readClock.2 params := by
  have hnot : ¬∃ params, call.Invokes setting run .kept w.readClock.2 params :=
    not_invokes_of_missing htarget h
  obtain ⟨failure, haway⟩ :=
    (call.turnedAway_or_invokes setting run .kept w.readClock.2).resolve_right hnot
  rw [Outcome.success, attempt_ending, haway.ends]
  exact ⟨rfl, hnot⟩

theorem Invokes.linked_value {params : Params} {p : Param}
    (h : call.Invokes setting run .kept w params) (hw : Table.Distinct w.runner.results)
    (hp : p ∈ call.params) (hlink : p.link = some (.operation target)) :
    ∃ v rs, call.resolve w.flags w.store (Results.kept.others call w) = .ok rs ∧
      (⟨p, v⟩ : Resolved) ∈ rs ∧ Table.find? w.runner.results (.text target) = some v := by
  obtain ⟨d, hd, -⟩ := invokes_iff_admitted.1 h
  have hall := linked_iff.1 hd.linked
  obtain ⟨-, hsome⟩ := hall p hp target hlink
  obtain ⟨v, hv⟩ := Option.isSome_iff_exists.1 hsome
  have hfound : Table.find? (Table.erase w.runner.results (.text call.id)) (.text target) = some v :=
    hv
  have hne : call.id ≠ target := by
    rintro rfl
    rw [hw.find?_erase_self] at hfound
    cases hfound
  have hcurrent : p.current w.store (Results.kept.others call w) = v := by
    simp [Param.current, hlink, hv]
  refine ⟨v, _, resolve_of_resolvable hall, ?_, ?_⟩
  · exact List.mem_map.2 ⟨p, hp, by rw [hcurrent]⟩
  · rwa [Table.find?_erase_of_ne hne] at hfound

end Link

end Call

/-- no call is loaded twice, and none has two results -/
structure Runner.WellFormed (r : Runner) : Prop where
  ids : r.ids.Nodup
  results : Table.Distinct r.results

namespace World

/-- the world in which a sweep over the loaded calls comes to the call at a place -/
def before (setting : Setting) (w : World) (j : Nat) : World :=
  (w.sweep setting (w.runner.calls.take j)).2

/-- the call at a place fails in a sweep over the loaded calls -/
def FailsAt (setting : Setting) (w : World) (j : Nat) : Prop :=
  ∃ o, (w.runAll setting).1.outcomes[j]? = some o ∧ o.success = false

/-- the call at a place reaches its implementation in a sweep over the loaded calls -/
def InvokesAt (setting : Setting) (w : World) (j : Nat) (params : Params) : Prop :=
  ∃ call, w.runner.calls[j]? = some call ∧
    call.Invokes setting (nestedRuns setting) .kept (w.before setting j).readClock.2 params

/-- the call at a place links to the result of the one at an earlier place -/
def Feeds (w : World) (i j : Nat) : Prop :=
  i < j ∧ ∃ a b, w.runner.calls[i]? = some a ∧ w.runner.calls[j]? = some b ∧ a.id ∈ b.targets

section Sweep

variable {setting : Setting} {w : World} (h : setting.LeavesRunner)
  (hon : w.runner.stopOnError = false)
include h hon

theorem runAll_split (j : Nat) :
    (w.runAll setting).1.outcomes = (w.sweep setting (w.runner.calls.take j)).1.outcomes ++
      ((w.before setting j).sweep setting (w.runner.calls.drop j)).1.outcomes := by
  have happend := sweep_append h hon (w.runner.calls.take j) (w.runner.calls.drop j)
  rw [List.take_append_drop] at happend
  exact congrArg (·.1.outcomes) happend

theorem runAll_length : (w.runAll setting).1.outcomes.length = w.runner.calls.length :=
  sweep_length h hon _

theorem runAll_outcome (j : Nat) :
    (w.runAll setting).1.outcomes[j]? = w.runner.calls[j]?.map fun call =>
      (call.attempt setting (nestedRuns setting) (w.before setting j)).1 := by
  rcases hcall : w.runner.calls[j]? with _ | call
  · have hend := List.getElem?_eq_none_iff.1 hcall
    rw [← runAll_length h hon] at hend
    exact List.getElem?_eq_none hend
  · obtain ⟨hj, hget⟩ := List.getElem?_eq_some_iff.1 hcall
    have hlength : (w.sweep setting (w.runner.calls.take j)).1.outcomes.length = j := by
      rw [sweep_length h hon, List.length_take]
      omega
    have hbefore : (w.before setting j).runner.stopOnError = false := by
      rw [before, sweep_runner h, Runner.settleAll_stopOnError, hon]
    rw [runAll_split h hon j, List.getElem?_append_right (by omega), hlength,
      List.drop_eq_getElem_cons hj, hget, sweep_cons h hbefore]
    simp

theorem take_runAll (j : Nat) :
    (w.runAll setting).1.outcomes.take j =
      (w.sweep setting (w.runner.calls.take j)).1.outcomes := by
  have hlength := sweep_length h hon (w.runner.calls.take j)
  rw [List.length_take] at hlength
  rw [runAll_split h hon j]
  by_cases hj : j ≤ w.runner.calls.length
  · exact List.take_left' (by omega)
  · rw [List.drop_of_length_le (by omega), sweep, List.append_nil]
    exact List.take_of_length_le (by omega)

theorem before_runner (j : Nat) :
    (w.before setting j).runner = w.runner.settleAll ((w.runAll setting).1.outcomes.take j) := by
  rw [take_runAll h hon, before, sweep_runner h]

theorem runAll_calls : (w.runAll setting).1.outcomes.map Outcome.call = w.runner.ids := by
  apply List.ext_getElem?
  intro j
  rw [List.getElem?_map, runAll_outcome h hon, Runner.ids, List.getElem?_map, Option.map_map]
  rfl

/-- a sweep comes to a call with the results of the calls before it, as far as they succeeded, and
the old results of the rest -/
theorem find?_before (hw : w.runner.WellFormed) (j : Nat) (id : String) :
    Table.find? (w.before setting j).runner.results (.text id) =
      match lastRun? ((w.runAll setting).1.outcomes.take j) id with
      | some o => o.ending.toOption
      | none => Table.find? w.runner.results (.text id) := by
  rw [before_runner h hon]
  exact Runner.find?_settleAll hw.results _ id

theorem failsAt_of_missing {j : Nat} {call : Call} {target : String}
    (hcall : w.runner.calls[j]? = some call) (htarget : target ∈ call.targets)
    (hmissing : Table.find? (w.before setting j).runner.results (.text target) = none) :
    w.FailsAt setting j ∧ ¬∃ params, w.InvokesAt setting j params := by
  obtain ⟨hfails, hnot⟩ : (call.attempt setting (nestedRuns setting) (w.before setting j)).1.success
      = false ∧ _ := Call.attempt_of_missing htarget (Table.find?_erase_eq_none _ hmissing)
  constructor
  · refine ⟨_, ?_, hfails⟩
    rw [runAll_outcome h hon, hcall, Option.map_some]
  · rintro ⟨params, other, hother, hinvokes⟩
    obtain rfl : call = other := Option.some.inj (hcall.symm.trans hother)
    exact hnot ⟨params, hinvokes⟩

/-- one link of the cascade -/
theorem failsAt_of_feeds (hw : w.runner.WellFormed) {i j : Nat} (hfeeds : w.Feeds i j)
    (hi : w.FailsAt setting i) :
    w.FailsAt setting j ∧ ¬∃ params, w.InvokesAt setting j params := by
  obtain ⟨hij, a, b, ha, hb, hlink⟩ := hfeeds
  obtain ⟨o, ho, hfails⟩ := hi
  have hcall : o.call = a.id := by
    have hrun := runAll_outcome h hon i
    rw [ho, ha, Option.map_some] at hrun
    rw [Option.some.inj hrun, Call.attempt_call]
  have hmem : o ∈ (w.runAll setting).1.outcomes.take j := by
    apply List.mem_of_getElem?
    rw [List.getElem?_take_of_lt hij, ho]
  have hnodup : (((w.runAll setting).1.outcomes.take j).map Outcome.call).Nodup := by
    rw [List.map_take, runAll_calls h hon]
    exact hw.ids.sublist (List.take_sublist j _)
  refine failsAt_of_missing h hon hb hlink ?_
  rw [find?_before h hon hw, ← hcall, lastRun?_of_nodup hnodup hmem]
  rcases hending : o.ending with failure | v
  · simp [Except.toOption, hending]
  · simp [Outcome.success, hending] at hfails

theorem failsAt_of_later (hw : w.runner.WellFormed) (hempty : w.runner.results = []) {j k : Nat}
    {a b : Call} (hjk : j < k) (ha : w.runner.calls[j]? = some a)
    (hb : w.runner.calls[k]? = some b) (hlink : b.id ∈ a.targets) :
    w.FailsAt setting j ∧ ¬∃ params, w.InvokesAt setting j params := by
  refine failsAt_of_missing h hon ha hlink ?_
  have hunrun : b.id ∉ ((w.runAll setting).1.outcomes.take j).map Outcome.call := by
    rw [List.map_take, runAll_calls h hon]
    intro hearlier
    obtain ⟨i, hi⟩ := List.mem_iff_getElem?.1 hearlier
    have hij : i < j := by
      by_contra hge
      rw [List.getElem?_take_eq_none (by omega)] at hi
      cases hi
    have hk : w.runner.ids[k]? = some b.id := by
      rw [Runner.ids, List.getElem?_map, hb, Option.map_some]
    have hlt := (List.getElem?_eq_some_iff.1 hk).1
    rw [List.getElem?_take_of_lt hij, ← hk] at hi
    exact absurd hi (List.nodup_iff_getElem?_ne_getElem?.1 hw.ids i k (by omega) hlt)
  rw [find?_before h hon hw, lastRun?_eq_none hunrun, hempty]
  rfl

end Sweep

/-- Failures cascade along links. In a sweep that goes on after failures, the outcome at each place
is that of its call in the world that the calls before leave; the calls that depend on a failed one
through a chain of links fail with it and do not reach their implementations; a call that links to
itself fails in every state, and so does one that links to a later call where no results are left
from before. What a linked parameter stands for in a call that does reach its implementation is what
the last run of its target returned, which succeeded: in this sweep, or else before it, whatever
history the old results come from. -/
theorem failures_cascade {setting : Setting} (h : setting.LeavesRunner) (w : World)
    (hw : w.runner.WellFormed) (hon : w.runner.stopOnError = false) :
    (∀ j, (w.runAll setting).1.outcomes[j]? = w.runner.calls[j]?.map fun call : Call =>
      (call.attempt setting (nestedRuns setting) (w.before setting j)).1) ∧
    (∀ i j, Relation.TransGen w.Feeds i j → w.FailsAt setting i →
      w.FailsAt setting j ∧ ¬∃ params, w.InvokesAt setting j params) ∧
    (∀ (run : CallRunner) (w' : World) (call : Call), Table.Distinct w'.runner.results →
      call.id ∈ call.targets → (call.attempt setting run w').1.success = false ∧
        ¬∃ params, call.Invokes setting run .kept w'.readClock.2 params) ∧
    (w.runner.results = [] → ∀ j k a b, j < k → w.runner.calls[j]? = some a →
      w.runner.calls[k]? = some b → b.id ∈ a.targets →
        w.FailsAt setting j ∧ ¬∃ params, w.InvokesAt setting j params) ∧
    ∀ j call params, w.runner.calls[j]? = some call →
      call.Invokes setting (nestedRuns setting) .kept (w.before setting j).readClock.2 params →
      ∀ p ∈ call.params, ∀ target, p.link = some (.operation target) →
        ∃ v rs, call.resolve (w.before setting j).flags (w.before setting j).store
            (Results.kept.others call (w.before setting j)) = .ok rs ∧
          (⟨p, v⟩ : Resolved) ∈ rs ∧
          ((∃ o, lastRun? ((w.runAll setting).1.outcomes.take j) target = some o ∧
              o.ending = .ok v) ∨
            lastRun? ((w.runAll setting).1.outcomes.take j) target = none ∧
              Table.find? w.runner.results (.text target) = some v) ∧
          ∀ history, w.runner.results = kept history →
            ∃ o, lastRun? (history ++ (w.runAll setting).1.outcomes.take j) target = some o ∧
              o.ending = .ok v := by
  refine ⟨runAll_outcome h hon, ?_, ?_, ?_, ?_⟩
  · intro i j hchain hi
    induction hchain with
    | single hfeeds => exact failsAt_of_feeds h hon hw hfeeds hi
    | tail _ hfeeds ih => exact failsAt_of_feeds h hon hw hfeeds ih.1
  · intro run w' call hw' hself
    exact Call.attempt_of_missing hself (hw'.find?_erase_self call.id)
  · intro hempty j k a b hjk ha hb hlink
    exact failsAt_of_later h hon hw hempty hjk ha hb hlink
  · intro j call params hcall hinvokes p hp target hlink
    have hdistinct : Table.Distinct (w.before setting j).runner.results := by
      rw [before_runner h hon]
      exact Runner.settleAll_distinct hw.results _
    obtain ⟨v, rs, hresolve, hmem, hfound⟩ := hinvokes.linked_value hdistinct hp hlink
    refine ⟨v, rs, hresolve, hmem, ?_, fun history hhistory => ?_⟩
    · have hlast : Table.find? (w.before setting j).runner.results (.text target) = some v := hfound
      rw [find?_before h hon hw] at hlast
      rcases hrun : lastRun? ((w.runAll setting).1.outcomes.take j) target with _ | o
      · rw [hrun] at hlast
        exact .inr ⟨rfl, hlast⟩
      · rw [hrun] at hlast
        exact .inl ⟨o, rfl, Outcome.toOption_ending.1 hlast⟩
    · have hbefore : (w.before setting j).runner.Remembers
          (history ++ (w.runAll setting).1.outcomes.take j) := by
        rw [before_runner h hon]
        exact Runner.Remembers.settleAll ⟨hw.results, hhistory⟩ _
      exact (hbefore.find?_iff target v).1 hfound

end World

namespace Demo

/-- a chat that was held before and whose reply was shown, now with nobody to chat with -/
def abandoned : World where
  runner := { calls := [chat, showReply]
              results := chatted.runner.results
              stopOnError := false }

/-- the old reply is not shown again -/
theorem abandoned_showReply :
    setting.LeavesRunner ∧ abandoned.runner.WellFormed ∧
      abandoned.FailsAt setting 0 ∧ abandoned.FailsAt setting 1 := by
  have hleaves : setting.LeavesRunner := Builtin.leavesRunner rfl
  have hw : abandoned.runner.WellFormed := ⟨by decide, by decide⟩
  have hchat : abandoned.FailsAt setting 0 := ⟨_, rfl, rfl⟩
  have hfeeds : abandoned.Feeds 0 1 := ⟨by decide, chat, showReply, rfl, rfl, by decide⟩
  obtain ⟨-, hcascade, -⟩ := World.failures_cascade hleaves abandoned hw rfl
  exact ⟨hleaves, hw, hchat, (hcascade 0 1 (.single hfeeds) hchat).1⟩

end Demo

end LinkedCalls
