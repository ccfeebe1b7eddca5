import LinkedCalls.Proofs.Effect

/-!
The order of parameters. The names of a call are unique, so what it supplies under a name is the
same in every order, and decoding goes by the schema. A link that stays open, a name that is missing
and one that is unknown are found in every order, if not the same one first; so a call in another
order is turned away if the call is, and else hands over the same parameters.
-/
namespace LinkedCalls

/-- whether the operation's own check lets parameters of different names pass does not depend on
their order -/
def Definition.OrderFree (d : Definition) : Prop :=
  ∀ inspect, d.inspect = some inspect → ∀ ps qs : List Param, (ps.map Param.name).Nodup →
    ps.Perm qs → ((inspect ps).Passes ↔ (inspect qs).Passes)

/-- a call of the same operation under the same id, with the parameters in another order -/
structure Call.Reorders (call other : Call) : Prop where
  id : other.id = call.id
  operation : other.operation = call.operation
  names : (call.params.map Param.name).Nodup
  perm : call.params.Perm other.params

namespace Call.Reorders

variable {call other : Call} {registry : Registry} {flags : Flags} {store : Store}
  {cache : Option (Table Value)} {d : Definition}

theorem symm (h : call.Reorders other) : other.Reorders call where
  id := h.id.symm
  operation := h.operation.symm
  names := (h.perm.map Param.name).nodup_iff.1 h.names
  perm := h.perm.symm

theorem param?_eq (h : call.Reorders other) (name : String) :
    other.param? name = call.param? name :=
  (find?_eq_of_perm h.perm h.names name).symm

theorem effective_eq (h : call.Reorders other) (spec : ParamSpec) :
    other.effective store cache spec = call.effective store cache spec := by
  unfold effective current
  rw [lastParam?_eq h.symm.names, lastParam?_eq h.names, h.param?_eq]

theorem admittedParams_eq (h : call.Reorders other) :
    other.admittedParams store cache d = call.admittedParams store cache d := by
  unfold admittedParams
  simp only [h.effective_eq]

theorem unobjected (h : call.Reorders other) (hd : registry.get? call.operation = some d)
    (hfree : d.OrderFree) (hun : call.Unobjected registry flags) :
    other.Unobjected registry flags := by
  have hd' : registry.get? other.operation = some d := by rw [h.operation, hd]
  obtain ⟨hmissing, hunknown, hinspect⟩ := (unobjected_iff hd).1 hun
  refine (unobjected_iff hd').2 ⟨?_, fun hstrict => ?_, fun inspect hsome => ?_⟩
  · simp only [Definition.missing?, h.param?_eq]
    exact hmissing
  · have hknown := Definition.unknown?_eq_none_iff.1 (hunknown hstrict)
    exact Definition.unknown?_eq_none_iff.2 fun p hp => hknown p (h.perm.mem_iff.2 hp)
  · exact (hfree inspect hsome _ _ h.names h.perm).1 (hinspect inspect hsome)

theorem admitted (h : call.Reorders other) (hfree : d.OrderFree)
    (hadmitted : call.Admitted registry flags store cache d) :
    other.Admitted registry flags store cache d where
  registered := by rw [h.operation, hadmitted.registered]
  unobjected := h.unobjected hadmitted.registered hfree hadmitted.unobjected
  linked := linked_iff.2 fun p hp => linked_iff.1 hadmitted.linked p (h.perm.mem_iff.2 hp)
  fits := fun spec hspec => by
    rw [h.effective_eq]
    exact hadmitted.fits spec hspec

section Run

variable {setting : Setting} {run : CallRunner} {results : Results} {w : World} {params : Params}

theorem others_eq (h : call.Reorders other) (results : Results) (w : World) :
    results.others other w = results.others call w := by
  unfold Results.others
  rw [h.id]

theorem invokes (h : call.Reorders other)
    (hfree : ∀ d, setting.registry.get? call.operation = some d → d.OrderFree)
    (hinvokes : call.Invokes setting run results w params) :
    other.Invokes setting run results w params := by
  obtain ⟨d, hadmitted, rfl⟩ := invokes_iff_admitted.1 hinvokes
  refine invokes_iff_admitted.2 ⟨d, ?_, ?_⟩
  · rw [h.others_eq]
    exact h.admitted (hfree d hadmitted.registered) hadmitted
  · rw [h.others_eq, h.admittedParams_eq]

theorem turnedAway_or_invokes (h : call.Reorders other)
    (hfree : ∀ d, setting.registry.get? call.operation = some d → d.OrderFree)
    (run : CallRunner) (results : Results) (w : World) :
    ((∃ failure, call.TurnedAway setting run results w failure) ∧
      ∃ failure, other.TurnedAway setting run results w failure) ∨
    ∃ params, call.Invokes setting run results w params ∧
      other.Invokes setting run results w params := by
  rcases call.turnedAway_or_invokes setting run results w with haway | ⟨params, hinvokes⟩
  · rcases other.turnedAway_or_invokes setting run results w with haway' | ⟨params, hinvokes⟩
    · exact .inl ⟨haway, haway'⟩
    · have hfree' : ∀ d, setting.registry.get? other.operation = some d → d.OrderFree := by
        rw [h.operation]
        exact hfree
      exact .inr ⟨params, h.symm.invokes hfree' hinvokes, hinvokes⟩
  · exact .inr ⟨params, hinvokes, h.invokes hfree hinvokes⟩

end Run

end Call.Reorders

namespace Builtin

theorem orderFree {d : Definition} (hd : d ∈ Registry.builtin) : d.OrderFree := by
  rintro inspect hinspect ps qs - hperm
  rcases mem_builtin hd with rfl | rfl | rfl
  · cases hinspect
  · obtain rfl : inspectDialog = inspect := Option.some.inj hinspect
    simp only [inspectDialog_passes_iff, hperm.mem_iff]
  · cases hinspect

theorem validate_fst {registry : Registry} {call : Call}
    (h : ∀ d, registry.get? call.operation = some d → d ∈ Registry.builtin) (flags : Flags) :
    (registry.validate flags call).1 = [] := by
  cases hget : registry.get? call.operation with
  | none => simp only [Registry.validate, hget]
  | some d =>
    rw [Call.validate_of_get? hget, Definition.validate]
    split
    · rfl
    · split
      · rfl
      · rcases mem_builtin (h d hget) with rfl | rfl | rfl <;> rfl

end Builtin

namespace Call

section Builtin

variable {setting : Setting} {call other : Call}

/-- in both orders a run of a built-in operation ends alike, but for the failure that it ends with
if it is turned away, and leaves the same world -/
theorem Reorders.run_alike (h : call.Reorders other)
    (hbuiltin : ∀ d, setting.registry.get? call.operation = some d → d ∈ Registry.builtin)
    (run : CallRunner) (results : Results) (w : World) :
    let ended := call.run setting run results w
    let ended' := other.run setting run results w
    ended'.1.toOption = ended.1.toOption ∧ ended'.2 = ended.2 := by
  have hbuiltin' : ∀ d, setting.registry.get? other.operation = some d → d ∈ Registry.builtin := by
    rw [h.operation]
    exact hbuiltin
  have hfree : ∀ d, setting.registry.get? call.operation = some d → d.OrderFree :=
    fun d hd => Builtin.orderFree (hbuiltin d hd)
  intro ended ended'
  rcases h.turnedAway_or_invokes hfree run results w with
    ⟨⟨failure, haway⟩, failure', haway'⟩ | ⟨params, hinvokes, -⟩
  · have hended : ended = (.error failure, (results.discard call.id w).note []) := by
      rw [← Builtin.validate_fst hbuiltin w.flags]
      exact haway.ends
    have hended' : ended' = (.error failure', (results.discard call.id w).note []) := by
      rw [← Builtin.validate_fst hbuiltin' w.flags, ← h.id]
      exact haway'.ends
    rw [hended, hended']
    exact ⟨rfl, rfl⟩
  · obtain ⟨d, hadmitted, -⟩ := invokes_iff_admitted.1 hinvokes
    have hd : d ∈ Registry.builtin := hbuiltin d hadmitted.registered
    have hadmitted' : other.Admitted setting.registry w.flags w.store
        (results.others other w) d := by
      rw [h.others_eq]
      exact h.admitted (Builtin.orderFree hd) hadmitted
    have hended : ended' = ended := by
      refine (run_of_prepare_ok hadmitted'.prepare).trans
        (Eq.trans ?_ (run_of_prepare_ok hadmitted.prepare).symm)
      rw [h.others_eq, h.admittedParams_eq, Builtin.routine_of_call hd other call,
        Builtin.validate_fst hbuiltin, Builtin.validate_fst hbuiltin', h.id]
      unfold Results.conclude
      rw [h.id]
    rw [hended]
    exact ⟨rfl, rfl⟩

theorem Reorders.attempt_alike (h : call.Reorders other)
    (hbuiltin : ∀ d, setting.registry.get? call.operation = some d → d ∈ Registry.builtin)
    (run : CallRunner) (w : World) :
    let ended := call.attempt setting run w
    let ended' := other.attempt setting run w
    ended'.1.success = ended.1.success ∧ ended'.1.result = ended.1.result ∧
      ended'.2.store = ended.2.store ∧ ended'.2.messages = ended.2.messages ∧
      ended'.2.runner = ended.2.runner := by
  obtain ⟨hending, hnext⟩ := h.run_alike hbuiltin run .kept w.readClock.2
  simp only [attempt]
  rcases hrun : call.run setting run .kept w.readClock.2 with ⟨failure | v, next⟩ <;>
    rcases hrun' : other.run setting run .kept w.readClock.2 with ⟨failure' | v', next'⟩ <;>
    rw [hrun, hrun'] at hending hnext
  · obtain rfl : next' = next := hnext
    exact ⟨rfl, rfl, rfl, rfl, rfl⟩
  · cases hending
  · cases hending
  · obtain rfl : next' = next := hnext
    obtain rfl : v' = v := Option.some.inj hending
    exact ⟨rfl, rfl, rfl, rfl, rfl⟩

end Builtin

/-- The order of the parameters of a call carries no meaning where the operation's own check does
not depend on it, and the checks of the built-in operations do not. In whatever world it runs, the
call is turned away in both orders, though perhaps for different reasons, or its implementation is
reached in both with the same parameters in the order of the schema. For a built-in operation both
runs then succeed or both fail, with the same result, and leave the same world behind, with its
store, messages and results; so do timed runs. -/
theorem order_carries_no_meaning (setting : Setting) (results : Results) (w : World)
    {call other : Call} (h : call.Reorders other) :
    ((∀ d, setting.registry.get? call.operation = some d → d.OrderFree) →
      ((∃ failure, call.TurnedAway setting (World.nestedRuns setting) results w failure) ∧
        ∃ failure, other.TurnedAway setting (World.nestedRuns setting) results w failure) ∨
      ∃ params, call.Invokes setting (World.nestedRuns setting) results w params ∧
        other.Invokes setting (World.nestedRuns setting) results w params) ∧
    (∀ d ∈ Registry.builtin, d.OrderFree) ∧
    ((∀ d, setting.registry.get? call.operation = some d → d ∈ Registry.builtin) →
      (let ended := w.runOperation setting results call
       let ended' := w.runOperation setting results other
       ended'.1.toOption = ended.1.toOption ∧ ended'.2 = ended.2) ∧
      ∀ run, let ended := call.attempt setting run w
        let ended' := other.attempt setting run w
        ended'.1.success = ended.1.success ∧ ended'.1.result = ended.1.result ∧
          ended'.2.store = ended.2.store ∧ ended'.2.messages = ended.2.messages ∧
          ended'.2.runner = ended.2.runner) := by
  refine ⟨fun hfree => h.turnedAway_or_invokes hfree _ results w,
    fun d hd => Builtin.orderFree hd, fun hbuiltin => ⟨?_, fun run => ?_⟩⟩
  · exact h.run_alike hbuiltin _ results w
  · exact h.attempt_alike hbuiltin run w

end Call

namespace Demo

def showReplyTurned : Call := { showReply with params := showReply.params.reverse }

/-- what is shown in one order is shown in the other -/
theorem showReply_turned :
    showReply.Reorders showReplyTurned ∧ showReplyTurned ≠ showReply ∧
      (∀ d, setting.registry.get? showReply.operation = some d → d ∈ Registry.builtin) ∧
      (∃ params, showReply.Invokes setting (World.nestedRuns setting) .kept chatted params ∧
        showReplyTurned.Invokes setting (World.nestedRuns setting) .kept chatted params) ∧
      (chatted.runOperation setting .kept showReplyTurned).2.messages =
        [⟨.text "Warning", .text "hello"⟩] := by
  have hturned : showReply.Reorders showReplyTurned :=
    ⟨rfl, rfl, by decide, (List.reverse_perm _).symm⟩
  have hbuiltin : ∀ d, setting.registry.get? showReply.operation = some d →
      d ∈ Registry.builtin := fun d hd => (Registry.get?_eq_some hd).1
  obtain ⟨hreached, hfree, hruns⟩ :=
    Call.order_carries_no_meaning setting .kept chatted hturned
  refine ⟨hturned, by decide, hbuiltin, ?_, ?_⟩
  · rcases hreached fun d hd => hfree d (hbuiltin d hd) with ⟨⟨failure, haway⟩, -⟩ | hboth
    · exact absurd (Call.invokes_iff_admitted.2 ⟨_, showReply_admitted, rfl⟩)
        (haway.unreached _)
    · exact hboth
  · rw [(hruns hbuiltin).1.2]
    rfl

end Demo

end LinkedCalls
