import LinkedCalls.Proofs.Effect

/-!
A call depends on what it declares. The keys and the ids that its links name are all of the store
and of the results that its resolution reads; what a run of a built-in operation comes to, what it
writes and what it shows follow from these and from the services of the host.
-/
namespace LinkedCalls

namespace Call

variable {flags : Flags} {store : Store} {cache : Option (Table Value)} {call : Call}

theorem resolve_eq_error {failure : Failure}
    (h : call.resolve flags store cache = .error failure) :
    ∃ fault, failure = .unresolvedLink fault := by
  by_cases hall : ∀ p ∈ call.params, p.Resolvable flags cache
  · rw [resolve_of_resolvable hall] at h
    cases h
  · obtain ⟨p, hp⟩ := exists_firstWithout hall
    obtain ⟨target, hlink⟩ := Param.link_of_not_resolvable hp.lacks
    rw [resolve_of_first hp hlink] at h
    exact ⟨_, (Except.error.inj h).symm⟩

variable {setting : Setting} {results results' : Results} {w w' : World}

/-- in worlds that a call reads the same, runs of a built-in operation come to the same -/
theorem ReadsSame.run_alike (h : call.ReadsSame results results' w w')
    (hbuiltin : ∀ d, setting.registry.get? call.operation = some d → d ∈ Registry.builtin)
    (hw : Table.Distinct w.runner.results) (hw' : Table.Distinct w'.runner.results)
    (run run' : CallRunner) :
    let ended := call.run setting run results w
    let ended' := call.run setting run' results' w'
    ∃ e : Effect, e.Single ∧
      (ended.1 = e.ending ∧ w.Undergoes setting.behaviour ended.2 e.writes e.messages) ∧
      ended'.1 = e.ending ∧ w'.Undergoes setting.behaviour ended'.2 e.writes e.messages := by
  intro ended ended'
  obtain ⟨e, he, hsingle⟩ := Builtin.exists_effectIn? hbuiltin results w
  have he' : call.effectIn? setting results' w' = some e :=
    (h.effectIn?_eq hw hw' setting).symm.trans he
  exact ⟨e, hsingle, run_undergoes he run, run_undergoes he' run'⟩

/-- A call depends on what it declares. Whatever its operation and the flags are, it resolves alike
where the entries and the results that its links name are alike: to the same parameters, or to the
same link that stays open. So a run of a built-in operation, by the services of one host, ends
alike and has the same effect in worlds that agree on those entries and results, whatever else is in
them and also if they differ on the result of the call itself: it writes the same value under the
same key, if it writes at all, and shows the same message, if it shows one. -/
theorem depends_on_links (call : Call) :
    (∀ (flags : Flags) (store store' : Store) (cache cache' : Option (Table Value)),
      (∀ key ∈ call.contextKeys, store.get (.text key) = store'.get (.text key)) →
      (∀ target ∈ call.targets, linkedResult cache target = linkedResult cache' target) →
      call.resolve flags store cache = call.resolve flags store' cache' ∧
        ∀ failure, call.resolve flags store cache = .error failure →
          ∃ fault, failure = .unresolvedLink fault) ∧
    ∀ (setting : Setting) (results results' : Results) (w w' : World),
      (∀ d, setting.registry.get? call.operation = some d → d ∈ Registry.builtin) →
      Table.Distinct w.runner.results → Table.Distinct w'.runner.results →
      call.ReadsSame results results' w w' →
      let ended := w.runOperation setting results call
      let ended' := w'.runOperation setting results' call
      ended.1 = ended'.1 ∧
        ∃ (writes : List (String × Value)) (messages : List Message),
          writes.length ≤ 1 ∧ messages.length ≤ 1 ∧
            w.Undergoes setting.behaviour ended.2 writes messages ∧
            w'.Undergoes setting.behaviour ended'.2 writes messages := by
  refine ⟨fun flags store store' cache cache' hkeys hresults => ?_,
    fun setting results results' w w' hbuiltin hw hw' hsame => ?_⟩
  · exact ⟨resolve_congr hkeys hresults, fun failure hfails => resolve_eq_error hfails⟩
  · intro ended ended'
    obtain ⟨e, hsingle, ⟨hending, hdone⟩, hending', hdone'⟩ :=
      hsame.run_alike hbuiltin hw hw' (World.nestedRuns setting) (World.nestedRuns setting)
    exact ⟨hending.trans hending'.symm, e.writes, e.messages, hsingle.writes, hsingle.messages,
      hdone, hdone'⟩

end Call

namespace Demo

/-- another world with the same reply: it has entries and results of its own, no call is loaded, and
the reply was not shown before -/
def elsewhere : World where
  store := { entries := [(.text "color", .text "red")] }
  runner := { calls := [], results := [(.text "demo.startChat", .text "hello"),
    (.text "demo.paint", .text "red")] }
  messages := [⟨.text "Info", .text "red"⟩]

theorem elsewhere_readsSame : showReply.ReadsSame .kept .kept chatted elsewhere where
  flags := rfl
  entries := by rintro key ⟨⟩
  results := by
    rintro target htarget -
    obtain rfl := List.mem_singleton.1 htarget
    rfl

/-- the reply is shown here as it is there, behind what was shown before -/
theorem elsewhere_shows :
    showReply.ReadsSame .kept .kept chatted elsewhere ∧
      (chatted.runOperation setting .kept showReply).2.messages =
        [⟨.text "Warning", .text "hello"⟩] ∧
      (elsewhere.runOperation setting .kept showReply).2.messages =
        [⟨.text "Info", .text "red"⟩, ⟨.text "Warning", .text "hello"⟩] := by
  have hshown : (chatted.runOperation setting .kept showReply).2.messages =
      [⟨.text "Warning", .text "hello"⟩] := rfl
  obtain ⟨-, writes, messages, -, -, hdone, hdone'⟩ := (Call.depends_on_links showReply).2 setting
    .kept .kept chatted elsewhere (fun d hd => (Registry.get?_eq_some hd).1) (by decide) (by decide)
    elsewhere_readsSame
  have hmessages : messages = [⟨.text "Warning", .text "hello"⟩] :=
    hdone.messages.symm.trans hshown
  refine ⟨elsewhere_readsSame, hshown, ?_⟩
  rw [hdone'.messages, hmessages]
  rfl

end Demo

end LinkedCalls
