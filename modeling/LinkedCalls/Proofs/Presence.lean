import LinkedCalls.Proofs.Parameters

/-!
Missing parameters, early and late. The check of a call asks whether a required parameter without a
default is there; decoding asks whether anything but null is in effect for it. What the first finds
missing the second misses too. The second alone finds those that are there and stand for null.
-/
namespace LinkedCalls

/-- it stands for null: as a literal, or by a link to a key or to a result. A key that is not in the
store counts as null -/
inductive Param.StandsForNull (store : Store) (cache : Option (Table Value)) (p : Param) : Prop where
  | literal : p.link = none → p.value = .null → StandsForNull store cache p
  | contextKey (key : String) : p.link = some (.contextKey key) → store.get (.text key) = .null →
      StandsForNull store cache p
  | result (target : String) : p.link = some (.operation target) →
      linkedResult cache target = some .null → StandsForNull store cache p

theorem Param.StandsForNull.of_current {flags : Flags} {store : Store} {cache : Option (Table Value)}
    {p : Param} (h : p.Resolvable flags cache) (hnull : p.current store cache = .null) :
    p.StandsForNull store cache := by
  rcases hlink : p.link with _ | key | target
  · simp only [Param.current, hlink, Value.scalar.injEq] at hnull
    exact .literal hlink hnull
  · simp only [Param.current, hlink] at hnull
    exact .contextKey key hlink hnull
  · obtain ⟨v, hv⟩ := Option.isSome_iff_exists.1 (h target hlink).2
    simp only [Param.current, hlink, hv, Option.getD_some] at hnull
    exact .result target hlink (hnull ▸ hv)

/-- a spec asks for a parameter, and the call has none of that name -/
structure Call.Lacks (call : Call) (spec : ParamSpec) : Prop where
  required : spec.required = true
  default : spec.default = .null
  absent : call.param? spec.name = none

namespace Definition

variable {d : Definition} {call : Call} {supplied : List Resolved} {name : String}

theorem missing?_eq_some_iff :
    d.missing? call = some name ↔
      ∃ spec, FirstWithout (fun spec => ¬call.Lacks spec) d.params spec ∧ spec.name = name := by
  have hlacks : ∀ spec : ParamSpec,
      (spec.required && spec.default.isNull && (call.param? spec.name).isNone) = true ↔
        call.Lacks spec := by
    intro spec
    simp only [Bool.and_eq_true, Value.isNull_iff, Option.isNone_iff_eq_none]
    exact ⟨fun ⟨⟨hrequired, hdefault⟩, habsent⟩ => ⟨hrequired, hdefault, habsent⟩,
      fun ⟨hrequired, hdefault, habsent⟩ => ⟨⟨hrequired, hdefault⟩, habsent⟩⟩
  simp only [missing?, Option.map_eq_some_iff, List.find?_eq_some_iff_append, Bool.not_eq_true',
    ← Bool.not_eq_true, hlacks]
  constructor
  · rintro ⟨spec, ⟨hspec, before, after, hsplit, hbefore⟩, hname⟩
    exact ⟨spec, ⟨before, after, hsplit, hbefore, not_not.2 hspec⟩, hname⟩
  · rintro ⟨spec, ⟨before, after, hsplit, hbefore, hspec⟩, hname⟩
    exact ⟨spec, ⟨not_not.1 hspec, before, after, hsplit, hbefore⟩, hname⟩

end Definition

namespace CallFault

theorem message_missingParameter (param : String) :
    (missingParameter param).message = "Missing required parameter: " ++ param := rfl

theorem message_wrongType_ne (param operation expected got name : String) :
    (wrongType param operation expected got).message ≠ "Missing required parameter: " ++ name := by
  have hmessage : (wrongType param operation expected got).message =
      "Parameter '" ++ param ++ "' of operation '" ++ operation ++ "' expects " ++ expected ++
        ", got " ++ got := rfl
  rw [hmessage]
  intro h
  have hhead := congrArg (fun s : String => s.toList.head?) h
  simp only [String.toList_append, List.append_assoc] at hhead
  exact absurd hhead (by simp)

/-- what decoding says of a missing parameter it says of nothing else -/
theorem missing_of_message {d : Definition} {spec : ParamSpec} {v : Value} {name : String}
    (h : (d.callFault spec v).message = "Missing required parameter: " ++ name) :
    v = .null ∧ spec.name = name := by
  rw [Definition.callFault] at h
  cases hnull : v.isNull with
  | false =>
    rw [hnull, if_neg Bool.false_ne_true] at h
    exact absurd h (message_wrongType_ne _ _ _ _ name)
  | true =>
    rw [hnull, if_pos rfl, message_missingParameter] at h
    exact ⟨Value.isNull_iff.1 hnull, by simpa using h⟩

end CallFault

namespace Call

variable {r : Registry} {flags : Flags} {store : Store} {cache : Option (Table Value)}
  {call : Call} {d : Definition} {spec : ParamSpec} {name : String}

theorem validate_eq_missing_iff (hd : r.get? call.operation = some d) :
    (r.validate flags call).2 = .ok (some (.missingParameter name)) ↔
      d.missing? call = some name := by
  rw [validate_of_get? hd, Definition.validate]
  cases d.missing? call with
  | some other => simp
  | none =>
    simp only [reduceCtorEq, iff_false]
    split
    · simp
    · split
      · next inspect _ =>
        simp only [Inspection.objection]
        rcases (inspect call.params).verdict with failure | (_ | text) <;> simp [Except.map]
      · simp

/-- nothing but null is in effect for a parameter that the call lacks, so its spec is not met -/
theorem Lacks.effective (h : call.Lacks spec) (store : Store) (cache : Option (Table Value)) :
    call.effective store cache spec = .null := by
  rw [effective_of_default_null h.default, current, lastParam?_eq_none_iff.2 h.absent]
  rfl

theorem Lacks.not_fits (h : call.Lacks spec) (store : Store) (cache : Option (Table Value)) :
    ¬spec.Fits (call.effective store cache spec) := by
  rw [h.effective]
  rintro (htyped | ⟨-, hopt⟩)
  · exact Value.not_hasType_null htyped
  · exact Bool.false_ne_true (hopt.symm.trans h.required)

theorem Lacks.decode (h : call.Lacks spec) {resolved : List Resolved}
    (hresolve : call.resolve flags store cache = .ok resolved) {before after : List ParamSpec}
    (hsplit : d.params = before ++ spec :: after)
    (hbefore : ∀ earlier ∈ before, earlier.Fits (earlier.effective resolved)) :
    d.decode resolved = .error (.invalidCall (.missingParameter spec.name)) := by
  obtain ⟨-, rfl⟩ := resolve_eq_ok hresolve
  have heffective := (spec_effective spec).trans (h.effective store cache)
  have hfits := h.not_fits store cache
  rw [← spec_effective] at hfits
  rw [Definition.decode, Definition.decodeSpecs_of_first ⟨before, after, hsplit, hbefore, hfits⟩,
    Definition.callFault, heffective]
  rfl

theorem effective_eq_null_iff :
    call.effective store cache spec = .null ↔
      call.current store cache spec.name = .null ∧ spec.default = .null := by
  constructor
  · intro h
    by_cases hnull : call.current store cache spec.name = .null
    · exact ⟨hnull, (effective_of_null hnull).symm.trans h⟩
    · exact absurd ((effective_of_ne_null hnull).symm.trans h) hnull
  · rintro ⟨hnull, hdefault⟩
    exact (effective_of_null hnull).trans hdefault

theorem standsForNull_of_missing (hmissing : d.missing? call = none) {resolved : List Resolved}
    (hresolve : call.resolve flags store cache = .ok resolved) {failure : Failure}
    (hdecode : d.decode resolved = .error failure)
    (hmessage : failure.message = "Missing required parameter: " ++ name) :
    ∃ p ∈ call.params, p.name = name ∧ p.StandsForNull store cache := by
  obtain ⟨hall, rfl⟩ := resolve_eq_ok hresolve
  obtain ⟨spec, hspec, rfl⟩ := Definition.decode_eq_error hdecode
  obtain ⟨hnull, rfl⟩ := CallFault.missing_of_message hmessage
  have hrequired : spec.required = true := by
    by_contra hopt
    exact hspec.lacks (.inr ⟨hnull, Bool.eq_false_iff.2 hopt⟩)
  rw [spec_effective, effective_eq_null_iff] at hnull
  obtain ⟨hcurrent, hdefault⟩ := hnull
  have hthere : call.lastParam? spec.name ≠ none := by
    rw [ne_eq, lastParam?_eq_none_iff, ← ne_eq, ← Option.isSome_iff_ne_none]
    exact Definition.missing?_eq_none_iff.1 hmissing spec hspec.mem hrequired hdefault
  obtain ⟨p, hp⟩ := Option.ne_none_iff_exists'.1 hthere
  have hmem : p ∈ call.params := List.mem_reverse.1 (List.mem_of_find?_eq_some hp)
  have hname : p.name = spec.name := by simpa using List.find?_some hp
  rw [current, hp, Option.map_some, Option.getD_some] at hcurrent
  exact ⟨p, hmem, hname, .of_current (hall p hmem) hcurrent⟩

/-- The early check for missing parameters and the late one agree, whatever the definition, the
store and the results are. If the check reports that a required parameter is missing, the call does
not come through resolution and decoding; and if it is resolved and the specs before that parameter
are met, decoding fails with the same report. If decoding reports a missing parameter of a call that
passed the check, the call has a parameter of that name, a null or a link that leads to null. -/
theorem missing_checks_agree (hr : r.Reachable) (hd : r.get? call.operation = some d)
    (flags : Flags) (store : Store) (cache : Option (Table Value)) :
    (∀ name, (r.validate flags call).2 = .ok (some (.missingParameter name)) →
      (¬∃ resolved params, call.resolve flags store cache = .ok resolved ∧
        d.decode resolved = .ok params) ∧
      ∀ resolved before spec after, call.resolve flags store cache = .ok resolved →
        d.params = before ++ spec :: after → spec.name = name →
        (∀ earlier ∈ before, earlier.Fits (earlier.effective resolved)) →
        d.decode resolved = .error (.invalidCall (.missingParameter name))) ∧
    (∀ name resolved failure, call.Unobjected r flags →
      call.resolve flags store cache = .ok resolved → d.decode resolved = .error failure →
      failure.message = "Missing required parameter: " ++ name →
      ∃ p ∈ call.params, p.name = name ∧ p.StandsForNull store cache) ∧
    ∀ name,
      (Objection.missingParameter name).message = "Missing required parameter: " ++ name ∧
      (Failure.invalidCall (.missingParameter name)).message =
        "Missing required parameter: " ++ name := by
  refine ⟨fun name hreport => ?_, fun name resolved failure hpassed hresolve hdecode hmessage => ?_,
    fun name => ⟨rfl, rfl⟩⟩
  · obtain ⟨missing, hfirst, rfl⟩ :=
      Definition.missing?_eq_some_iff.1 ((validate_eq_missing_iff hd).1 hreport)
    have hlacks : call.Lacks missing := not_not.1 hfirst.lacks
    refine ⟨?_, fun resolved before spec after hresolve hsplit hname hbefore => ?_⟩
    · rintro ⟨resolved, params, hresolve, hdecode⟩
      obtain ⟨-, rfl⟩ := resolve_eq_ok hresolve
      have hfits := (Definition.decode_eq_ok hdecode).1 missing hfirst.mem
      rw [spec_effective] at hfits
      exact hlacks.not_fits store cache hfits
    · -- names are unique in a schema that was registered
      have hspec : spec ∈ d.params := by simp [hsplit]
      obtain rfl : spec = missing :=
        List.inj_on_of_nodup_map (hr.definition hd).names hspec hfirst.mem hname
      exact hlacks.decode hresolve hsplit hbefore
  · exact standsForNull_of_missing ((unobjected_iff hd).1 hpassed).1 hresolve hdecode hmessage

end Call

namespace Demo

def paintNothing : Call where
  id := "demo.setContext"
  operation := "setContext"
  params := [{ name := "key", value := .text "color" }]

def paintAlike : Call where
  id := "demo.setContext"
  operation := "setContext"
  params := [{ name := "value", link := some (.contextKey "background") },
    { name := "key", value := .text "color" }]

/-- without a value the call fails early and late; with a link to nothing it fails late -/
theorem paints_missing :
    Registry.builtin.Reachable ∧
      (Registry.builtin.validate .allOn paintNothing).2 =
        .ok (some (.missingParameter "value")) ∧
      (∃ resolved, paintNothing.resolve .allOn {} none = .ok resolved ∧
        Builtin.setContext.decode resolved = .error (.invalidCall (.missingParameter "value"))) ∧
      paintAlike.Unobjected Registry.builtin .allOn ∧
      ∃ p ∈ paintAlike.params, p.name = "value" ∧ p.StandsForNull {} none := by
  have hreport : (Registry.builtin.validate .allOn paintNothing).2 =
      .ok (some (.missingParameter "value")) := rfl
  have hpassed : paintAlike.Unobjected Registry.builtin .allOn := ⟨none, rfl, by simp⟩
  refine ⟨reachable_builtin, hreport, ?_, hpassed, ?_⟩
  · have hd : Registry.builtin.get? paintNothing.operation = some Builtin.setContext := rfl
    obtain ⟨hearly, -⟩ := Call.missing_checks_agree reachable_builtin hd .allOn {} none
    refine ⟨_, rfl, (hearly "value" hreport).2 _ [_] _ [] rfl rfl rfl ?_⟩
    intro earlier hearlier
    obtain rfl := List.mem_singleton.1 hearlier
    exact .inl (.string "color")
  · have hd : Registry.builtin.get? paintAlike.operation = some Builtin.setContext := rfl
    obtain ⟨-, hlate, -⟩ := Call.missing_checks_agree reachable_builtin hd .allOn {} none
    exact hlate "value" _ (.invalidCall (.missingParameter "value")) hpassed rfl rfl rfl

end Demo

end LinkedCalls
