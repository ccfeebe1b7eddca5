import LinkedCalls.Builtin
import LinkedCalls.Engine
import LinkedCalls.Proofs.Resolution

/-!
The gate before an implementation. A run invokes the implementation of its operation exactly when
the operation is registered, nothing is objected to the call, its links lead to results and every
spec is met. Any other run is refused with the first of these that fails, and leaves the world as it
was but for the dropped result and the events of the check.
-/
namespace LinkedCalls

/-- the registry with another implementation of one operation -/
def Registry.implementing (r : Registry) (operation : String) (f : Call → Params → Routine) :
    Registry :=
  r.map fun d => if d.id = operation then { d with implementation := some f } else d

def Setting.implementing (s : Setting) (operation : String) (f : Call → Params → Routine) :
    Setting :=
  { s with registry := s.registry.implementing operation f }

namespace Results

/-- how a run ends once its implementation was carried out: a result is kept, a failure is not -/
def conclude (r : Results) (call : Call) :
    Except Failure Value × World → Except Failure Value × World
  | (.error failure, w) => (.error failure, w)
  | (.ok v, w) => (.ok v, r.record call.id v w)

/-- the results that a run of a call can link to; its own earlier one is not among them -/
def others (r : Results) (call : Call) (w : World) : Option (Table Value) :=
  r.of (r.discard call.id w)

theorem discard_flags (r : Results) (id : String) (w : World) : (r.discard id w).flags = w.flags := by
  cases r <;> rfl

theorem discard_store (r : Results) (id : String) (w : World) : (r.discard id w).store = w.store := by
  cases r <;> rfl

end Results

theorem Value.record_inj {fields fields' : List (String × Value)}
    (h : Value.record fields = .record fields') : fields = fields' :=
  (List.map_inj_right (by simp [Prod.ext_iff])).1 (Value.map.inj h)

theorem Failure.message_rejected (o : Objection) :
    (Failure.invalidCall (.rejected o)).message = "Invalid operation: " ++ o.message := rfl

namespace Call

/-- a run hands these parameters to the implementation of its operation, once: whatever is put in
the place of that implementation, the run ends as this does when it is carried out on them -/
def Invokes (setting : Setting) (run : CallRunner) (results : Results) (call : Call) (w : World)
    (params : Params) : Prop :=
  ∃ start : World, ∀ f : Call → Params → Routine,
    call.run (setting.implementing call.operation f) run results w =
      results.conclude call ((f call params).exec setting run start)

def Unobjected (registry : Registry) (flags : Flags) (call : Call) : Prop :=
  ∃ objection, (registry.validate flags call).2 = .ok objection ∧
    ∀ o, objection = some o → o.message = ""

/-- a run ends before the implementation of its operation, with this failure: no parameters are handed
over, and the world is as it was but for the dropped result and the events of the check -/
structure TurnedAway (setting : Setting) (run : CallRunner) (results : Results) (call : Call)
    (w : World) (failure : Failure) : Prop where
  ends : call.run setting run results w = (.error failure,
    (results.discard call.id w).note (setting.registry.validate w.flags call).1)
  unreached : ∀ params, ¬call.Invokes setting run results w params

/-- no parameter is linked to a result, or links are on and every result linked to is there -/
def Linked (flags : Flags) (cache : Option (Table Value)) (call : Call) : Prop :=
  call.targets = [] ∨ flags.operationLinks = true ∧
    ∃ results, cache = some results ∧
      ∀ target ∈ call.targets, Table.has results (.text target) = true

/-- what opens the gate to the implementation of a definition -/
structure Admitted (registry : Registry) (flags : Flags) (store : Store)
    (cache : Option (Table Value)) (call : Call) (d : Definition) : Prop where
  registered : registry.get? call.operation = some d
  unobjected : call.Unobjected registry flags
  linked : call.Linked flags cache
  fits : ∀ spec ∈ d.params, spec.Fits (call.effective store cache spec)

/-- what closes the gate, each failure only where those above it do not apply -/
inductive Refused (registry : Registry) (flags : Flags) (store : Store)
    (cache : Option (Table Value)) (call : Call) : Failure → Prop where
  | unknown : registry.get? call.operation = none →
      Refused registry flags store cache call (.unknownOperation call.operation)
  | objected {d : Definition} {o : Objection} : registry.get? call.operation = some d →
      (registry.validate flags call).2 = .ok (some o) → o.message ≠ "" →
      Refused registry flags store cache call (.invalidCall (.rejected o))
  | unlinked {d : Definition} {p : Param} {target : String} :
      registry.get? call.operation = some d → call.Unobjected registry flags →
      FirstWithout (Param.Resolvable flags cache) call.params p →
      p.link = some (.operation target) →
      Refused registry flags store cache call (.unresolvedLink (call.linkFault flags p target))
  | unmet {d : Definition} {spec : ParamSpec} :
      registry.get? call.operation = some d → call.Unobjected registry flags →
      call.Linked flags cache →
      FirstWithout (fun spec => spec.Fits (call.effective store cache spec)) d.params spec →
      Refused registry flags store cache call
        (.invalidCall (d.callFault spec (call.effective store cache spec)))

theorem mem_targets {call : Call} {target : String} :
    target ∈ call.targets ↔ ∃ p ∈ call.params, p.link = some (.operation target) := by
  simp only [targets, List.mem_filterMap]
  constructor
  · rintro ⟨p, hp, hlink⟩
    split at hlink
    · next other hother => exact ⟨p, hp, hother.trans (by rw [Option.some.inj hlink])⟩
    · cases hlink
  · rintro ⟨p, hp, hlink⟩
    exact ⟨p, hp, by simp [hlink]⟩

theorem linked_iff {flags : Flags} {cache : Option (Table Value)} {call : Call} :
    call.Linked flags cache ↔ ∀ p ∈ call.params, p.Resolvable flags cache := by
  constructor
  · rintro (hnone | ⟨hon, results, rfl, hall⟩) p hp target hlink
    · have hmem := mem_targets.2 ⟨p, hp, hlink⟩
      rw [hnone] at hmem
      cases hmem
    · exact ⟨hon, linkedResult_isSome_iff.2 ⟨results, rfl, hall target (mem_targets.2 ⟨p, hp, hlink⟩)⟩⟩
  · intro hall
    rcases htargets : call.targets with _ | ⟨target, rest⟩
    · exact .inl htargets
    · right
      have hfound : ∀ t ∈ call.targets, flags.operationLinks = true ∧
          (linkedResult cache t).isSome = true := by
        intro t ht
        obtain ⟨p, hp, hlink⟩ := mem_targets.1 ht
        exact hall p hp t hlink
      obtain ⟨hon, hsome⟩ := hfound target (by simp [htargets])
      obtain ⟨results, hcache, -⟩ := linkedResult_isSome_iff.1 hsome
      refine ⟨hon, results, hcache, fun t ht => ?_⟩
      obtain ⟨other, hother, hhas⟩ := linkedResult_isSome_iff.1 (hfound t ht).2
      rw [hcache] at hother
      rw [Option.some.inj hother]
      exact hhas

section Prepare

variable {registry : Registry} {flags : Flags} {store : Store} {cache : Option (Table Value)}
  {call : Call} {d : Definition}

theorem validate_of_get? (hd : registry.get? call.operation = some d) :
    registry.validate flags call = d.validate flags call := by
  simp [Registry.validate, hd]

theorem prepare_of_unknown (h : registry.get? call.operation = none) :
    call.prepare registry flags store cache =
      ((registry.validate flags call).1, .error (.unknownOperation call.operation)) := by
  simp [prepare, Registry.validate, h]

theorem prepare_of_objected {o : Objection} (hd : registry.get? call.operation = some d)
    (ho : (registry.validate flags call).2 = .ok (some o)) (hne : o.message ≠ "") :
    call.prepare registry flags store cache =
      ((registry.validate flags call).1, .error (.invalidCall (.rejected o))) := by
  rw [validate_of_get? hd] at ho ⊢
  rcases hcheck : d.validate flags call with ⟨events, verdict⟩
  rw [hcheck] at ho
  obtain rfl : verdict = .ok (some o) := ho
  simp [prepare, hd, hcheck, Option.filter, hne]

theorem prepare_fst (registry : Registry) (flags : Flags) (store : Store)
    (cache : Option (Table Value)) (call : Call) :
    (call.prepare registry flags store cache).1 = (registry.validate flags call).1 := by
  cases hget : registry.get? call.operation with
  | none => rw [prepare_of_unknown hget]
  | some d =>
    rw [validate_of_get? hget]
    rcases hcheck : d.validate flags call with ⟨events, failure | objection⟩
    · simp only [prepare, hget, hcheck]
    · simp only [prepare, hget, hcheck]
      split
      · rfl
      · split <;> rfl

theorem prepare_of_unobjected (hd : registry.get? call.operation = some d)
    (h : call.Unobjected registry flags) :
    call.prepare registry flags store cache =
      ((registry.validate flags call).1,
        match call.resolve flags store cache with
        | .error failure => .error failure
        | .ok resolved => (d.decode resolved).map fun params => (d, params)) := by
  obtain ⟨objection, hverdict, hsilent⟩ := h
  rw [validate_of_get? hd] at hverdict ⊢
  rcases hcheck : d.validate flags call with ⟨events, verdict⟩
  rw [hcheck] at hverdict
  obtain rfl : verdict = .ok objection := hverdict
  have hnone : objection.filter (·.message != "") = none := by
    rcases objection with _ | o
    · rfl
    · simp [Option.filter, hsilent o rfl]
  simp only [prepare, hd, hcheck, hnone]
  cases call.resolve flags store cache <;> rfl

theorem prepare_of_unlinked {p : Param} {target : String}
    (hd : registry.get? call.operation = some d) (h : call.Unobjected registry flags)
    (hp : FirstWithout (Param.Resolvable flags cache) call.params p)
    (hlink : p.link = some (.operation target)) :
    call.prepare registry flags store cache =
      ((registry.validate flags call).1,
        .error (.unresolvedLink (call.linkFault flags p target))) := by
  rw [prepare_of_unobjected hd h, resolve_of_first hp hlink]

theorem prepare_of_linked (hd : registry.get? call.operation = some d)
    (h : call.Unobjected registry flags) (hlinked : call.Linked flags cache) :
    call.prepare registry flags store cache =
      ((registry.validate flags call).1,
        (d.decode (call.params.map fun p => ⟨p, p.current store cache⟩)).map fun params =>
          (d, params)) := by
  rw [prepare_of_unobjected hd h, resolve_of_resolvable (linked_iff.1 hlinked)]

theorem prepare_of_unmet {spec : ParamSpec} (hd : registry.get? call.operation = some d)
    (h : call.Unobjected registry flags) (hlinked : call.Linked flags cache)
    (hspec : FirstWithout (fun spec => spec.Fits (call.effective store cache spec)) d.params spec) :
    call.prepare registry flags store cache =
      ((registry.validate flags call).1,
        .error (.invalidCall (d.callFault spec (call.effective store cache spec)))) := by
  simp only [← spec_effective] at hspec ⊢
  rw [prepare_of_linked hd h hlinked, Definition.decode, Definition.decodeSpecs_of_first hspec]
  rfl

/-- the parameters that the gate lets through: the entries of the specs, in their order -/
def admittedParams (store : Store) (cache : Option (Table Value)) (call : Call) (d : Definition) :
    Params :=
  d.params.filterMap fun spec => spec.entry? (call.effective store cache spec)

theorem Admitted.prepare (h : call.Admitted registry flags store cache d) :
    call.prepare registry flags store cache =
      ((registry.validate flags call).1, .ok (d, call.admittedParams store cache d)) := by
  have hfits := h.fits
  unfold admittedParams
  simp only [← spec_effective] at hfits ⊢
  rw [prepare_of_linked h.registered h.unobjected h.linked, Definition.decode,
    Definition.decodeSpecs_of_fits hfits]
  rfl

theorem Refused.prepare {failure : Failure} (h : call.Refused registry flags store cache failure) :
    call.prepare registry flags store cache =
      ((registry.validate flags call).1, .error failure) := by
  cases h with
  | unknown hnone => exact prepare_of_unknown hnone
  | objected hd ho hne => exact prepare_of_objected hd ho hne
  | unlinked hd hun hp hlink => exact prepare_of_unlinked hd hun hp hlink
  | unmet hd hun hlinked hspec => exact prepare_of_unmet hd hun hlinked hspec

/-- only what the gate admits is prepared, whatever the check of the operation does -/
theorem admitted_of_prepare {events : List Event} {params : Params}
    (h : call.prepare registry flags store cache = (events, .ok (d, params))) :
    call.Admitted registry flags store cache d ∧ params = call.admittedParams store cache d := by
  rcases hget : registry.get? call.operation with _ | e
  · simp [Call.prepare, hget] at h
  · have hun : call.Unobjected registry flags := by
      rw [Unobjected, validate_of_get? hget]
      simp only [Call.prepare, hget] at h
      split at h
      · cases h
      · next objection hcheck =>
        refine ⟨objection, by rw [hcheck], fun o ho => ?_⟩
        by_contra hne
        simp [ho, Option.filter, hne] at h
    rw [prepare_of_unobjected hget hun] at h
    rcases hresolve : call.resolve flags store cache with failure | resolved
    · simp [hresolve] at h
    · obtain ⟨hall, rfl⟩ := resolve_eq_ok hresolve
      rcases hdecode : e.decode (call.params.map fun p => ⟨p, p.current store cache⟩) with
        failure | decoded
      · simp [hresolve, hdecode, Except.map] at h
      · simp only [hresolve, hdecode, Except.map, Prod.mk.injEq, Except.ok.injEq] at h
        obtain ⟨-, rfl, rfl⟩ := h
        obtain ⟨hfits, hparams⟩ := Definition.decode_eq_ok hdecode
        simp only [spec_effective] at hfits hparams
        exact ⟨⟨hget, hun, linked_iff.2 hall, hfits⟩, hparams⟩

theorem verdict_of_answers
    (h : ∀ d inspect, registry.get? call.operation = some d → d.inspect = some inspect →
      ∃ verdict, (inspect call.params).verdict = .ok verdict) :
    ∃ objection, (registry.validate flags call).2 = .ok objection := by
  rcases hget : registry.get? call.operation with _ | d
  · exact ⟨_, by simp only [Registry.validate, hget]; rfl⟩
  · rw [validate_of_get? hget]
    unfold Definition.validate
    split
    · exact ⟨_, rfl⟩
    · split
      · exact ⟨_, rfl⟩
      · split
        · next inspect hinspect =>
          obtain ⟨verdict, hverdict⟩ := h d inspect hget hinspect
          exact ⟨_, by simp only [Inspection.objection, hverdict]; rfl⟩
        · exact ⟨_, rfl⟩

/-- where the check of the operation answers, a call is admitted or refused -/
theorem admitted_or_refused
    (hcheck : ∃ verdict, (registry.validate flags call).2 = .ok verdict) :
    (∃ d, call.Admitted registry flags store cache d) ∨
      ∃ failure, call.Refused registry flags store cache failure := by
  obtain ⟨objection, hverdict⟩ := hcheck
  rcases hget : registry.get? call.operation with _ | d
  · exact .inr ⟨_, .unknown hget⟩
  · by_cases hun : call.Unobjected registry flags
    · by_cases hlinked : call.Linked flags cache
      · by_cases hfits : ∀ spec ∈ d.params, spec.Fits (call.effective store cache spec)
        · exact .inl ⟨d, hget, hun, hlinked, hfits⟩
        · obtain ⟨spec, hspec⟩ := exists_firstWithout hfits
          exact .inr ⟨_, .unmet hget hun hlinked hspec⟩
      · obtain ⟨p, hp⟩ := exists_firstWithout fun hall => hlinked (linked_iff.2 hall)
        obtain ⟨target, hlink⟩ := Param.link_of_not_resolvable hp.lacks
        exact .inr ⟨_, .unlinked hget hun hp hlink⟩
    · rcases objection with _ | o
      · exact absurd ⟨none, hverdict, by simp⟩ hun
      · refine .inr ⟨_, .objected hget hverdict fun hempty => hun ⟨some o, hverdict, ?_⟩⟩
        rintro other hother
        rwa [← Option.some.inj hother]

end Prepare

theorem exec_registry (setting : Setting) (registry : Registry) (run : CallRunner)
    (routine : Routine) (w : World) :
    routine.exec { setting with registry := registry } run w = routine.exec setting run w := by
  induction routine generalizing w with
  | done v => rfl
  | fail failure => rfl
  | lookup key next ih => exact ih _ _
  | edit e next ih => exact ih _ _
  | tell level text next ih => exact ih _ _
  | ask prompt next ih => exact ih _ _
  | addCall call next ih => exact ih _ _
  | runCall id next ih => exact ih _ _
  | reset next ih => exact ih _
  | setFlag flag on next ih => exact ih _
  | note event next ih => exact ih _

theorem get?_implementing (registry : Registry) (operation : String)
    (f : Call → Params → Routine) :
    (registry.implementing operation f).get? operation =
      (registry.get? operation).map fun d => { d with implementation := some f } := by
  induction registry with
  | nil => rfl
  | cons d registry ih =>
    by_cases hd : d.id = operation
    · simp [Registry.implementing, Registry.get?, hd]
    · have hcons : ∀ r : Registry, Registry.get? (d :: r) operation = r.get? operation := by
        simp [Registry.get?, hd]
      simp only [Registry.implementing, List.map_cons, hd, if_false, hcons] at ih ⊢
      exact ih

theorem decodeSpecs_implementation (d : Definition) (f : Call → Params → Routine)
    (supplied : List Resolved) (specs : List ParamSpec) :
    Definition.decodeSpecs { d with implementation := some f } supplied specs =
      d.decodeSpecs supplied specs := by
  induction specs with
  | nil => rfl
  | cons spec specs ih =>
    simp only [Definition.decodeSpecs, ih]
    rfl

theorem prepare_implementing (registry : Registry) (flags : Flags) (store : Store)
    (cache : Option (Table Value)) (call : Call) (f : Call → Params → Routine) :
    call.prepare (registry.implementing call.operation f) flags store cache =
      ((call.prepare registry flags store cache).1,
        (call.prepare registry flags store cache).2.map fun e =>
          ({ e.1 with implementation := some f }, e.2)) := by
  unfold prepare
  rw [get?_implementing]
  cases registry.get? call.operation with
  | none => rfl
  | some d =>
    have hcheck : Definition.validate { d with implementation := some f } flags call =
        d.validate flags call := rfl
    simp only [Option.map_some, hcheck]
    rcases d.validate flags call with ⟨events, failure | objection⟩
    · rfl
    · dsimp only
      cases objection.filter (·.message != "") with
      | some o => rfl
      | none =>
        cases call.resolve flags store cache with
        | error failure => rfl
        | ok resolved =>
          simp only [Definition.decode, decodeSpecs_implementation]
          cases d.decodeSpecs resolved d.params <;> rfl

section Run

variable {setting : Setting} {run : CallRunner} {results : Results} {call : Call} {w : World}

theorem run_of_prepare_error {events : List Event} {failure : Failure}
    (h : call.prepare setting.registry w.flags w.store (results.others call w) =
      (events, .error failure)) :
    call.run setting run results w =
      (.error failure, (results.discard call.id w).note events) := by
  rw [← results.discard_flags call.id, ← results.discard_store call.id, Results.others] at h
  simp only [Call.run, h]

theorem run_of_prepare_ok {events : List Event} {d : Definition} {params : Params}
    (h : call.prepare setting.registry w.flags w.store (results.others call w) =
      (events, .ok (d, params))) :
    call.run setting run results w = results.conclude call
      ((d.routine call params).exec setting run ((results.discard call.id w).note events)) := by
  rw [← results.discard_flags call.id, ← results.discard_store call.id, Results.others] at h
  simp only [Call.run, h]
  split <;> simp_all [Results.conclude]

/-- all that a run can do: it ends before the implementation, or carries out that of a registered
operation on what was prepared for it -/
theorem run_cases (setting : Setting) (run : CallRunner) (results : Results) (call : Call)
    (w : World) :
    (∃ events failure,
      call.prepare setting.registry w.flags w.store (results.others call w) =
        (events, .error failure) ∧
      call.run setting run results w =
        (.error failure, (results.discard call.id w).note events)) ∨
    ∃ events d params,
      call.prepare setting.registry w.flags w.store (results.others call w) =
        (events, .ok (d, params)) ∧
      d ∈ setting.registry ∧
      call.run setting run results w = results.conclude call
        ((d.routine call params).exec setting run ((results.discard call.id w).note events)) := by
  rcases hprepare : call.prepare setting.registry w.flags w.store (results.others call w) with
    ⟨events, failure | ⟨d, params⟩⟩
  · exact .inl ⟨events, failure, rfl, run_of_prepare_error hprepare⟩
  · have hadmitted := (admitted_of_prepare hprepare).1
    exact .inr ⟨events, d, params, rfl, (Registry.get?_eq_some hadmitted.registered).1,
      run_of_prepare_ok hprepare⟩

theorem invokes_iff_prepare {params : Params} :
    call.Invokes setting run results w params ↔
      ∃ events d, call.prepare setting.registry w.flags w.store (results.others call w) =
        (events, .ok (d, params)) := by
  have himpl : ∀ f : Call → Params → Routine,
      call.prepare (setting.implementing call.operation f).registry w.flags w.store
        (results.others call w) = _ :=
    prepare_implementing setting.registry w.flags w.store (results.others call w) call
  rcases hprepare : call.prepare setting.registry w.flags w.store (results.others call w) with
    ⟨events, failure | ⟨d, prepared⟩⟩ <;> simp only [hprepare, Except.map] at himpl
  · constructor
    · rintro ⟨start, hstart⟩
      have hends := (run_of_prepare_error (himpl fun _ _ => .done .null)).symm.trans (hstart _)
      cases congrArg Prod.fst hends
    · rintro ⟨_, _, h⟩
      cases congrArg Prod.snd h
  · have hrun : ∀ f : Call → Params → Routine,
        call.run (setting.implementing call.operation f) run results w = results.conclude call
          ((f call prepared).exec setting run ((results.discard call.id w).note events)) := by
      intro f
      rw [run_of_prepare_ok (himpl f)]
      exact congrArg _ (exec_registry setting _ run (f call prepared) _)
    constructor
    · rintro ⟨start, hstart⟩
      -- an implementation that gives back what it was handed
      have hends := (hrun fun _ ps => .done (.record ps)).symm.trans (hstart _)
      have hrecord : Value.record prepared = .record params :=
        Except.ok.inj (congrArg Prod.fst hends)
      rw [Value.record_inj hrecord]
      exact ⟨events, d, rfl⟩
    · rintro ⟨_, _, h⟩
      obtain ⟨-, -, rfl⟩ : events = _ ∧ d = _ ∧ prepared = params := by simpa using h
      exact ⟨_, hrun⟩

theorem invokes_iff_admitted {params : Params} :
    call.Invokes setting run results w params ↔
      ∃ d, call.Admitted setting.registry w.flags w.store (results.others call w) d ∧
        params = call.admittedParams w.store (results.others call w) d := by
  rw [invokes_iff_prepare]
  constructor
  · rintro ⟨events, d, h⟩
    exact ⟨d, admitted_of_prepare h⟩
  · rintro ⟨d, hd, rfl⟩
    exact ⟨_, d, hd.prepare⟩

/-- an admitted run is that of the implementation registered, which every registered one has -/
theorem Admitted.run_eq {d : Definition} (hreachable : setting.registry.Reachable)
    (h : call.Admitted setting.registry w.flags w.store (results.others call w) d)
    (run : CallRunner) :
    ∃ f, d.implementation = some f ∧
      call.run setting run results w = results.conclude call
        ((f call (call.admittedParams w.store (results.others call w) d)).exec setting run
          ((results.discard call.id w).note (setting.registry.validate w.flags call).1)) := by
  obtain ⟨f, hf⟩ := Option.isSome_iff_exists.1 (hreachable.definition h.registered).implemented
  refine ⟨f, hf, ?_⟩
  rw [run_of_prepare_ok h.prepare, Definition.routine, hf]

theorem Refused.run_eq {failure : Failure}
    (h : call.Refused setting.registry w.flags w.store (results.others call w) failure) :
    call.run setting run results w = (.error failure,
      (results.discard call.id w).note (setting.registry.validate w.flags call).1) :=
  run_of_prepare_error h.prepare

theorem Refused.not_invokes {failure : Failure} {params : Params}
    (h : call.Refused setting.registry w.flags w.store (results.others call w) failure) :
    ¬call.Invokes setting run results w params := by
  rw [invokes_iff_prepare]
  rintro ⟨events, d, hprepare⟩
  rw [h.prepare] at hprepare
  cases congrArg Prod.snd hprepare

theorem Refused.turnedAway {failure : Failure}
    (h : call.Refused setting.registry w.flags w.store (results.others call w) failure) :
    call.TurnedAway setting run results w failure :=
  ⟨h.run_eq, fun _ => h.not_invokes⟩

/-- a run reaches the implementation or ends before it, whatever the check of the operation does -/
theorem turnedAway_or_invokes (setting : Setting) (run : CallRunner) (results : Results)
    (call : Call) (w : World) :
    (∃ failure, call.TurnedAway setting run results w failure) ∨
      ∃ params, call.Invokes setting run results w params := by
  rcases call.run_cases setting run results w with
    ⟨events, failure, hprepare, hrun⟩ | ⟨events, d, params, hprepare, -, -⟩
  · have hevents := prepare_fst setting.registry w.flags w.store (results.others call w) call
    rw [hprepare] at hevents
    refine .inl ⟨failure, hevents ▸ hrun, fun params hinvokes => ?_⟩
    obtain ⟨_, _, hprepare'⟩ := invokes_iff_prepare.1 hinvokes
    cases congrArg Prod.snd (hprepare.symm.trans hprepare')
  · exact .inr ⟨params, invokes_iff_prepare.2 ⟨events, d, hprepare⟩⟩

end Run

/-- The execution gate: a run invokes the implementation of the call's operation, once, exactly when
the gate admits the call; otherwise it ends with the first failure that closes the gate. -/
theorem run_gate (setting : Setting) (run : CallRunner) (results : Results) (call : Call)
    (w : World) (hreachable : setting.registry.Reachable)
    (hanswers : ∀ d inspect, setting.registry.get? call.operation = some d →
      d.inspect = some inspect → ∃ verdict, (inspect call.params).verdict = .ok verdict) :
    ((∃ params, call.Invokes setting run results w params) ↔
      ∃ d, call.Admitted setting.registry w.flags w.store (results.others call w) d) ∧
    (∀ d, call.Admitted setting.registry w.flags w.store (results.others call w) d →
      ∃ f params, d.implementation = some f ∧ call.Invokes setting run results w params ∧
        call.run setting run results w = results.conclude call
          ((f call params).exec setting run
            ((results.discard call.id w).note (setting.registry.validate w.flags call).1))) ∧
    ((¬∃ params, call.Invokes setting run results w params) ↔
      ∃ failure, call.Refused setting.registry w.flags w.store (results.others call w) failure) ∧
    (∀ failure,
      call.Refused setting.registry w.flags w.store (results.others call w) failure →
        call.run setting run results w = (.error failure,
          (results.discard call.id w).note (setting.registry.validate w.flags call).1)) ∧
    ∀ o : Objection,
      (Failure.invalidCall (.rejected o)).message = "Invalid operation: " ++ o.message := by
  have hiff : (∃ params, call.Invokes setting run results w params) ↔
      ∃ d, call.Admitted setting.registry w.flags w.store (results.others call w) d := by
    simp only [invokes_iff_admitted]
    constructor
    · rintro ⟨_, d, hd, -⟩
      exact ⟨d, hd⟩
    · rintro ⟨d, hd⟩
      exact ⟨_, d, hd, rfl⟩
  refine ⟨hiff, ?_, ?_, fun failure h => h.run_eq, Failure.message_rejected⟩
  · intro d hd
    obtain ⟨f, hf, hrun⟩ := hd.run_eq hreachable run
    exact ⟨f, _, hf, invokes_iff_admitted.2 ⟨d, hd, rfl⟩, hrun⟩
  · constructor
    · intro hnot
      have htotal : (∃ d, call.Admitted setting.registry w.flags w.store
          (results.others call w) d) ∨ ∃ failure, call.Refused setting.registry w.flags w.store
            (results.others call w) failure :=
        admitted_or_refused (verdict_of_answers hanswers)
      exact htotal.resolve_left fun hadmitted => hnot (hiff.2 hadmitted)
    · rintro ⟨failure, hrefused⟩ ⟨params, hinvokes⟩
      exact hrefused.not_invokes hinvokes

end Call

namespace Demo

/-- a host with the built-in operations, whose display takes every message -/
def setting : Setting where
  registry := Registry.builtin
  services := ⟨fun _ _ => .ok (), fun _ _ => [], none⟩
  behaviour := .none
  room := 1

theorem reachable_builtin : Registry.builtin.Reachable :=
  .registerAll Builtin.definitions .empty

def showReply : Call where
  id := "demo.showDialog"
  operation := "showDialog"
  params := [{ name := "text", link := some (.operation "demo.startChat") },
    { name := "level", value := .text "Warning" }]

/-- a world in which the chat was held, and its reply shown before -/
def chatted : World where
  runner := { calls := [showReply]
              results := [(.text "demo.startChat", .text "hello"),
                (.text "demo.showDialog", .null)] }

theorem showReply_admitted :
    showReply.Admitted setting.registry chatted.flags chatted.store
      (Results.kept.others showReply chatted) Builtin.showDialog where
  registered := rfl
  unobjected := ⟨none, rfl, by simp⟩
  linked := .inr ⟨rfl, _, rfl, by decide⟩
  fits := by
    intro spec hspec
    simp only [Builtin.showDialog, List.mem_cons, List.not_mem_nil, or_false] at hspec
    rcases hspec with rfl | rfl
    · exact .inl (.string _)
    · exact .inl (.string _)

/-- the reply reaches the display -/
theorem showReply_invokes :
    setting.registry.Reachable ∧
      ∃ params, showReply.Invokes setting (World.nestedRuns setting) .kept chatted params :=
  ⟨reachable_builtin,
    (Call.run_gate setting (World.nestedRuns setting) .kept showReply chatted reachable_builtin
      (by
        intro d inspect hd hinspect
        obtain rfl : Builtin.showDialog = d := Option.some.inj hd
        obtain rfl : Builtin.inspectDialog = inspect := Option.some.inj hinspect
        exact ⟨none, rfl⟩)).1.2 ⟨_, showReply_admitted⟩⟩

end Demo

end LinkedCalls
