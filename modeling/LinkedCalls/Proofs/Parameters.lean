import LinkedCalls.Proofs.Check
import Mathlib.Data.List.Nodup

/-!
The parameters that an implementation gets. Whatever stands in the store and in the results, they
are the values of the call and the defaults of the schema, each under its name, once, in the order
of the schema and of the declared type.
-/
namespace LinkedCalls

/-- the parameters are what a schema makes of the values supplied under its names -/
structure Definition.Takes (d : Definition) (supplied : String → Value) (params : Params) :
    Prop where
  names : (params.map Prod.fst).Sublist (d.params.map ParamSpec.name)
  once : (params.map Prod.fst).Nodup
  required : ∀ spec ∈ d.params, spec.required = true → spec.name ∈ params.map Prod.fst
  typed : ∀ spec ∈ d.params, ∀ v, (spec.name, v) ∈ params → v.HasType spec.type
  value : ∀ spec ∈ d.params, supplied spec.name ≠ .null →
    (spec.name, supplied spec.name) ∈ params
  default : ∀ spec ∈ d.params, supplied spec.name = .null → spec.default ≠ .null →
    (spec.name, spec.default) ∈ params
  omitted : ∀ spec ∈ d.params, supplied spec.name = .null → spec.default = .null →
    spec.name ∉ params.map Prod.fst

theorem entries_sublist (value : ParamSpec → Value) (specs : List ParamSpec) :
    ((specs.filterMap fun spec => spec.entry? (value spec)).map Prod.fst).Sublist
      (specs.map ParamSpec.name) := by
  induction specs with
  | nil => exact List.Sublist.refl _
  | cons spec specs ih =>
    simp only [List.filterMap_cons, ParamSpec.entry?, List.map_cons] at ih ⊢
    cases (value spec).isNull with
    | true => exact ih.cons _
    | false => exact ih.cons_cons _

theorem mem_entries {value : ParamSpec → Value} {specs : List ParamSpec} {name : String}
    {v : Value} :
    (name, v) ∈ specs.filterMap (fun spec => spec.entry? (value spec)) ↔
      ∃ spec ∈ specs, spec.name = name ∧ value spec = v ∧ v ≠ .null := by
  simp only [List.mem_filterMap, ParamSpec.entry?, ne_eq, ← Value.isNull_iff]
  constructor
  · rintro ⟨spec, hspec, hentry⟩
    split at hentry
    · cases hentry
    · next hnull =>
      obtain ⟨rfl, rfl⟩ := Prod.mk.inj (Option.some.inj hentry)
      exact ⟨spec, hspec, rfl, rfl, hnull⟩
  · rintro ⟨spec, hspec, rfl, rfl, hnull⟩
    exact ⟨spec, hspec, by simp [hnull]⟩

namespace Call

variable {registry : Registry} {flags : Flags} {store : Store} {cache : Option (Table Value)}
  {call : Call} {d : Definition}

theorem mem_admittedParams (hd : d.WellFormed) {spec : ParamSpec} (hspec : spec ∈ d.params)
    {v : Value} :
    (spec.name, v) ∈ call.admittedParams store cache d ↔
      call.effective store cache spec = v ∧ v ≠ .null := by
  rw [admittedParams, mem_entries]
  constructor
  · rintro ⟨other, hother, hname, hv⟩
    rwa [← List.inj_on_of_nodup_map hd.names hother hspec hname]
  · rintro ⟨hv, hnull⟩
    exact ⟨spec, hspec, rfl, hv, hnull⟩

theorem effective_of_ne_null {spec : ParamSpec} (h : call.current store cache spec.name ≠ .null) :
    call.effective store cache spec = call.current store cache spec.name := by
  rw [effective, if_neg (by rwa [Value.isNull_iff])]

theorem effective_of_null {spec : ParamSpec} (h : call.current store cache spec.name = .null) :
    call.effective store cache spec = spec.default := by
  rw [effective, if_pos (Value.isNull_iff.2 h)]

theorem Admitted.takes (hd : d.WellFormed) (h : call.Admitted registry flags store cache d) :
    d.Takes (call.current store cache) (call.admittedParams store cache d) where
  names := entries_sublist _ _
  once := (entries_sublist _ _).nodup hd.names
  required := by
    intro spec hspec hrequired
    rcases h.fits spec hspec with htype | ⟨-, hopt⟩
    · have hne : call.effective store cache spec ≠ .null := by
        intro hnull
        rw [hnull] at htype
        exact Value.not_hasType_null htype
      exact List.mem_map.2 ⟨_, (mem_admittedParams hd hspec).2 ⟨rfl, hne⟩, rfl⟩
    · rw [hopt] at hrequired
      cases hrequired
  typed := by
    intro spec hspec v hv
    obtain ⟨rfl, hne⟩ := (mem_admittedParams hd hspec).1 hv
    rcases h.fits spec hspec with htype | ⟨hnull, -⟩
    · exact htype
    · exact absurd hnull hne
  value := by
    intro spec hspec hne
    exact (mem_admittedParams hd hspec).2 ⟨effective_of_ne_null hne, hne⟩
  default := by
    intro spec hspec hnull hne
    exact (mem_admittedParams hd hspec).2 ⟨effective_of_null hnull, hne⟩
  omitted := by
    intro spec hspec hnull hdefault hmem
    obtain ⟨⟨name, v⟩, hv, rfl⟩ := List.mem_map.1 hmem
    obtain ⟨heff, hne⟩ := (mem_admittedParams hd hspec).1 hv
    exact hne (heff.symm.trans ((effective_of_null hnull).trans hdefault))

variable {spec : ParamSpec}

/-- a spec finds the value that is in effect among the parameters admitted -/
theorem find?_admittedParams (hd : d.WellFormed) (hspec : spec ∈ d.params)
    (hne : call.effective store cache spec ≠ .null) :
    ((call.admittedParams store cache d).find? (·.1 == spec.name)).map Prod.snd =
      some (call.effective store cache spec) := by
  have hmem := (mem_admittedParams hd hspec).2 ⟨rfl, hne⟩
  have hsome : ((call.admittedParams store cache d).find? (·.1 == spec.name)).isSome = true :=
    List.find?_isSome.2 ⟨_, hmem, by simp⟩
  obtain ⟨⟨name, v⟩, hfound⟩ := Option.isSome_iff_exists.1 hsome
  obtain rfl : name = spec.name := by simpa using List.find?_some hfound
  obtain ⟨rfl, -⟩ := (mem_admittedParams hd hspec).1 (List.mem_of_find?_eq_some hfound)
  rw [hfound]
  rfl

theorem require_admittedParams (hd : d.WellFormed) (hspec : spec ∈ d.params)
    (hne : call.effective store cache spec ≠ .null) (next : Value → Routine) :
    (call.admittedParams store cache d).require spec.name next =
      next (call.effective store cache spec) := by
  obtain ⟨e, he, hvalue⟩ := Option.map_eq_some_iff.1 (find?_admittedParams hd hspec hne)
  rw [Params.require, he, ← hvalue]

theorem getD_admittedParams (hd : d.WellFormed) (hspec : spec ∈ d.params)
    (hne : call.effective store cache spec ≠ .null) (default : Value) :
    (call.admittedParams store cache d).getD spec.name default =
      call.effective store cache spec := by
  rw [Params.getD, find?_admittedParams hd hspec hne, Option.getD_some]

theorem effective_of_default_null (h : spec.default = .null) :
    call.effective store cache spec = call.current store cache spec.name := by
  unfold effective
  split
  · next hnull => rw [h, Value.isNull_iff.1 hnull]
  · rfl

theorem Admitted.requires (h : call.Admitted registry flags store cache d) (hd : d.WellFormed)
    (hspec : spec ∈ d.params) (hrequired : spec.required = true) (htype : spec.type = "string")
    (hdefault : spec.default = .null) :
    ∃ text, call.current store cache spec.name = .text text ∧
      ∀ next, (call.admittedParams store cache d).require spec.name next = next (.text text) := by
  rcases h.fits spec hspec with htyped | ⟨-, hopt⟩
  · obtain ⟨text, htext⟩ := htyped.eq_text htype
    have hne : call.effective store cache spec ≠ .null := by
      rw [htext]
      rintro ⟨⟩
    refine ⟨text, ?_, fun next => ?_⟩
    · rw [← effective_of_default_null hdefault, htext]
    · rw [require_admittedParams hd hspec hne, htext]
  · rw [hrequired] at hopt
    cases hopt

theorem WellFormed.current_name (h : call.WellFormed) {p : Param} (hp : p ∈ call.params) :
    call.current store cache p.name = p.current store cache := by
  have hfound : call.param? p.name = some p :=
    (find?_eq_some_iff_of_nodup h.2.2.2).2 ⟨hp, rfl⟩
  rw [current, lastParam?_eq h.2.2.2, hfound]
  rfl

theorem Unobjected.spec?_isSome (hd : registry.get? call.operation = some d)
    (h : call.Unobjected registry flags) (hstrict : flags.strictParameters = true) {p : Param}
    (hp : p ∈ call.params) : (d.spec? p.name).isSome = true :=
  Definition.unknown?_eq_none_iff.1 (((unobjected_iff hd).1 h).2.1 hstrict) p hp

end Call

theorem Definition.Takes.require {d : Definition} {supplied : String → Value} {params : Params}
    (h : d.Takes supplied params) {spec : ParamSpec} (hspec : spec ∈ d.params)
    (hrequired : spec.required = true) (htype : spec.type = "string") :
    ∃ text, ∀ next, params.require spec.name next = next (.text text) := by
  obtain ⟨e, he, hname⟩ := List.mem_map.1 (h.required spec hspec hrequired)
  have hsome : (params.find? (·.1 == spec.name)).isSome = true :=
    List.find?_isSome.2 ⟨e, he, by simpa using hname⟩
  obtain ⟨f, hf⟩ := Option.isSome_iff_exists.1 hsome
  have hfname : f.1 = spec.name := by simpa using List.find?_some hf
  have htyped := h.typed spec hspec f.2 (hfname ▸ List.mem_of_find?_eq_some hf)
  obtain ⟨text, htext⟩ := htyped.eq_text htype
  exact ⟨text, fun next => by simp only [Params.require, hf, htext]⟩

namespace Call

/-- Implementations are only called with well-typed parameters: what a run hands over is what the
schema takes from the resolved call. With the check for unknown names on, no value of the call is
lost. So the built-in operations find the texts they look up without asking. -/
theorem invokes_typed {setting : Setting} {run : CallRunner} {results : Results} {call : Call}
    {w : World} {params : Params} (hreachable : setting.registry.Reachable)
    (hcall : call.WellFormed) (h : call.Invokes setting run results w params) :
    ∃ d, setting.registry.get? call.operation = some d ∧
      call.resolve w.flags w.store (results.others call w) =
        .ok (call.params.map fun p => ⟨p, p.current w.store (results.others call w)⟩) ∧
      d.Takes (call.current w.store (results.others call w)) params ∧
      (w.flags.strictParameters = true → ∀ p ∈ call.params,
        p.current w.store (results.others call w) ≠ .null →
          (p.name, p.current w.store (results.others call w)) ∈ params) ∧
      (d = Builtin.setContext →
        (∃ key, ∀ next, params.require "key" next = next (.text key)) ∧
          ∃ value, ∀ next, params.require "value" next = next (.text value)) ∧
      (d = Builtin.showDialog →
        ∃ text, ∀ next, params.require "text" next = next (.text text)) := by
  obtain ⟨d, hd, rfl⟩ := invokes_iff_admitted.1 h
  have htakes := hd.takes (hreachable.definition hd.registered)
  refine ⟨d, hd.registered, resolve_of_resolvable (linked_iff.1 hd.linked), htakes, ?_, ?_, ?_⟩
  · intro hstrict p hp hne
    obtain ⟨spec, hspec⟩ :=
      Option.isSome_iff_exists.1 (hd.unobjected.spec?_isSome hd.registered hstrict hp)
    have hname : spec.name = p.name := by simpa using List.find?_some hspec
    have hvalue := htakes.value spec (List.mem_of_find?_eq_some hspec)
    rw [hname, hcall.current_name hp] at hvalue
    exact hvalue hne
  · rintro rfl
    exact ⟨htakes.require List.mem_cons_self rfl rfl,
      htakes.require (List.mem_cons_of_mem _ List.mem_cons_self) rfl rfl⟩
  · rintro rfl
    exact htakes.require List.mem_cons_self rfl rfl

end Call

namespace Demo

theorem showReply_wellFormed : showReply.WellFormed := by
  refine ⟨by decide, by decide, ?_, by decide⟩
  intro p hp
  simp only [showReply, List.mem_cons, List.not_mem_nil, or_false] at hp
  rcases hp with rfl | rfl
  · refine ⟨by decide, ?_⟩
    rintro link ⟨⟩
    exact (by decide : "demo.startChat" ≠ "")
  · exact ⟨by decide, by simp⟩

/-- the text to show is the reply, although the parameter's own value is null -/
theorem showReply_text :
    setting.registry.Reachable ∧ showReply.WellFormed ∧
      ∃ params, showReply.Invokes setting (World.nestedRuns setting) .kept chatted params ∧
        ("text", .text "hello") ∈ params := by
  have hinvokes : showReply.Invokes setting (World.nestedRuns setting) .kept chatted _ :=
    Call.invokes_iff_admitted.2 ⟨_, showReply_admitted, rfl⟩
  refine ⟨reachable_builtin, showReply_wellFormed, _, hinvokes, ?_⟩
  obtain ⟨-, -, -, -, hstrict, -⟩ :=
    Call.invokes_typed reachable_builtin showReply_wellFormed hinvokes
  exact hstrict rfl _ List.mem_cons_self (by rintro ⟨⟩)

end Demo

end LinkedCalls
