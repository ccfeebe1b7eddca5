import LinkedCalls.Proofs.Parameters

/-!
The check for unknown names. With the flag on, a call is turned away if it has a name that the
schema does not know; nothing else depends on the flag. With the flag off such parameters still take
part in resolution, but decoding never asks for them, so they might as well not be there.
-/
namespace LinkedCalls

def Definition.Knows (d : Definition) (p : Param) : Prop := (d.spec? p.name).isSome = true

instance (d : Definition) (p : Param) : Decidable (d.Knows p) :=
  inferInstanceAs (Decidable ((d.spec? p.name).isSome = true))

def World.strict (on : Bool) (w : World) : World :=
  { w with flags := w.flags.set on .strictParameters }

def Call.knownTo (d : Definition) (call : Call) : Call :=
  { call with params := call.params.filter fun p => d.Knows p }

theorem Results.others_strict (results : Results) (call : Call) (on : Bool) (w : World) :
    results.others call (w.strict on) = results.others call w := by
  cases results <;> rfl

namespace Definition

variable {d : Definition} {call : Call}

theorem knows_of_mem {spec : ParamSpec} (h : spec ∈ d.params) {p : Param}
    (hname : p.name = spec.name) : d.Knows p := by
  rw [Knows, spec?, List.find?_isSome]
  exact ⟨spec, h, by simp [hname]⟩

theorem unknown?_of_first {p : Param} (h : FirstWithout d.Knows call.params p) :
    d.unknown? call = some p.name := by
  obtain ⟨before, after, hsplit, hbefore, hp⟩ := h
  have hnone : before.find? (fun q => (d.spec? q.name).isNone) = none := by
    refine List.find?_eq_none.2 fun q hq => ?_
    have hknown : (d.spec? q.name).isSome = true := hbefore q hq
    rw [Option.isNone_iff_eq_none, ← ne_eq, ← Option.isSome_iff_ne_none]
    exact hknown
  have hp' : (d.spec? p.name).isNone = true := by
    rw [Option.isNone_iff_eq_none, ← Option.not_isSome_iff_eq_none]
    exact hp
  rw [unknown?, hsplit, List.find?_append, hnone, Option.none_or, List.find?_cons, hp']
  rfl

end Definition

namespace Call

variable {registry : Registry} {flags : Flags} {store : Store} {cache : Option (Table Value)}
  {call : Call} {d : Definition}

/-- the flag adds the check for unknown names to what the gate asks for, and nothing else -/
theorem admitted_strict_iff :
    call.Admitted registry (flags.set true .strictParameters) store cache d ↔
      call.Admitted registry (flags.set false .strictParameters) store cache d ∧
        ∀ p ∈ call.params, d.Knows p := by
  constructor
  · intro h
    obtain ⟨hmissing, hunknown, hpasses⟩ := (unobjected_iff h.registered).1 h.unobjected
    refine ⟨⟨h.registered, ?_, h.linked, h.fits⟩,
      Definition.unknown?_eq_none_iff.1 (hunknown rfl)⟩
    exact (unobjected_iff h.registered).2 ⟨hmissing, by rintro ⟨⟩, hpasses⟩
  · rintro ⟨h, hknown⟩
    obtain ⟨hmissing, -, hpasses⟩ := (unobjected_iff h.registered).1 h.unobjected
    refine ⟨h.registered, ?_, h.linked, h.fits⟩
    exact (unobjected_iff h.registered).2
      ⟨hmissing, fun _ => Definition.unknown?_eq_none_iff.2 hknown, hpasses⟩

/-- a call that is not objected to without the flag is turned away with it, for its first unknown
name -/
theorem refused_strict (hd : registry.get? call.operation = some d)
    (hun : call.Unobjected registry (flags.set false .strictParameters)) {p : Param}
    (hp : FirstWithout d.Knows call.params p) :
    call.Refused registry (flags.set true .strictParameters) store cache
      (.invalidCall (.rejected (.unknownParameter p.name d.id))) := by
  obtain ⟨hmissing, -, -⟩ := (unobjected_iff hd).1 hun
  refine .objected hd ?_ (Objection.message_unknownParameter_ne p.name d.id)
  rw [validate_of_get? hd]
  simp only [Definition.validate, hmissing, Flags.set, if_true, Definition.unknown?_of_first hp]

theorem effective_knownTo {spec : ParamSpec} (h : spec ∈ d.params) :
    (call.knownTo d).effective store cache spec = call.effective store cache spec := by
  have hfind : (call.knownTo d).lastParam? spec.name = call.lastParam? spec.name := by
    unfold lastParam? knownTo
    rw [← List.filter_reverse, List.find?_filter]
    refine congrArg (List.find? · call.params.reverse) (funext fun p => ?_)
    cases hname : p.name == spec.name with
    | false => simp
    | true => simp [Definition.knows_of_mem h (eq_of_beq hname)]
  unfold effective current
  rw [hfind]

theorem Admitted.decode_knownTo (h : call.Admitted registry flags store cache d) :
    ∃ resolved, (call.knownTo d).resolve flags store cache = .ok resolved ∧
      d.decode resolved = .ok (call.admittedParams store cache d) := by
  have hlinked : ∀ p ∈ (call.knownTo d).params, p.Resolvable flags cache :=
    fun p hp => linked_iff.1 h.linked p (List.mem_of_mem_filter hp)
  refine ⟨_, resolve_of_resolvable hlinked, ?_⟩
  have hfits : ∀ spec ∈ d.params, spec.Fits ((call.knownTo d).effective store cache spec) := by
    intro spec hspec
    rw [effective_knownTo hspec]
    exact h.fits spec hspec
  simp only [← spec_effective] at hfits
  rw [Definition.decode, Definition.decodeSpecs_of_fits hfits, admittedParams]
  simp only [spec_effective]
  exact congrArg Except.ok (List.filterMap_congr fun spec hspec => by rw [effective_knownTo hspec])

variable {setting : Setting} {run : CallRunner} {results : Results} {w : World} {params : Params}

theorem invokes_strict_iff {on : Bool} :
    call.Invokes setting run results (w.strict on) params ↔
      ∃ d, call.Admitted setting.registry (w.flags.set on .strictParameters) w.store
          (results.others call w) d ∧
        params = call.admittedParams w.store (results.others call w) d := by
  rw [invokes_iff_admitted, Results.others_strict]
  exact Iff.rfl

/-- The check for unknown names only ever turns calls away, and exactly those with unknown names.
What reaches the implementation with the flag on does so with it off, with the same parameters. What
reaches it with the flag off does so with it on, if the schema knows all names; otherwise the call is
turned away for the first name that the schema does not know, and the parameters are those that the
call comes to when it is resolved and decoded without the unknown ones. -/
theorem strictness_rejects_unknown (setting : Setting) (run : CallRunner) (results : Results)
    (call : Call) (w : World) :
    (∀ name operation : String,
      (Failure.invalidCall (.rejected (.unknownParameter name operation))).message =
        "Invalid operation: " ++
          ("Unknown parameter '" ++ name ++ "' for operation '" ++ operation ++ "'")) ∧
    (∀ params, call.Invokes setting run results (w.strict true) params →
      call.Invokes setting run results (w.strict false) params) ∧
    ∀ d, setting.registry.get? call.operation = some d →
      ∀ params, call.Invokes setting run results (w.strict false) params →
        ((∀ p ∈ call.params, d.Knows p) →
          call.Invokes setting run results (w.strict true) params) ∧
        (¬(∀ p ∈ call.params, d.Knows p) → ∃ p, FirstWithout d.Knows call.params p ∧
          call.TurnedAway setting run results (w.strict true)
            (.invalidCall (.rejected (.unknownParameter p.name call.operation))) ∧
          ∃ resolved,
            (call.knownTo d).resolve (w.strict false).flags w.store (results.others call w) =
              .ok resolved ∧
            d.decode resolved = .ok params) := by
  refine ⟨fun _ _ => rfl, fun params h => ?_,
    fun d hd params h => ⟨fun hknown => ?_, fun hunknown => ?_⟩⟩
  · obtain ⟨d, hadmitted, rfl⟩ := invokes_strict_iff.1 h
    exact invokes_strict_iff.2 ⟨d, (admitted_strict_iff.1 hadmitted).1, rfl⟩
  · obtain ⟨e, hadmitted, rfl⟩ := invokes_strict_iff.1 h
    obtain rfl : d = e := Option.some.inj (hd.symm.trans hadmitted.registered)
    exact invokes_strict_iff.2 ⟨d, admitted_strict_iff.2 ⟨hadmitted, hknown⟩, rfl⟩
  · obtain ⟨e, hadmitted, rfl⟩ := invokes_strict_iff.1 h
    obtain rfl : d = e := Option.some.inj (hd.symm.trans hadmitted.registered)
    obtain ⟨p, hp⟩ := exists_firstWithout hunknown
    have hid : d.id = call.operation := (Registry.get?_eq_some hd).2
    refine ⟨p, hp, ?_, hadmitted.decode_knownTo⟩
    rw [← hid]
    exact Refused.turnedAway (refused_strict hd hadmitted.unobjected hp)

end Call

namespace Demo

/-- a note that the operation knows nothing of is linked to the store -/
def annotated : Call where
  id := "demo.annotated"
  operation := "setContext"
  params := [{ name := "key", value := .text "color" },
    { name := "note", link := some (.contextKey "remark") },
    { name := "value", value := .text "red" }, { name := "by", value := .text "Ann" }]

theorem annotated_admitted :
    annotated.Admitted setting.registry (({} : World).strict false).flags {} (some [])
      Builtin.setContext where
  registered := rfl
  unobjected := ⟨none, rfl, by simp⟩
  linked := .inl rfl
  fits := by
    intro spec hspec
    simp only [Builtin.setContext, List.mem_cons, List.not_mem_nil, or_false] at hspec
    rcases hspec with rfl | rfl
    · exact .inl (.string _)
    · exact .inl (.string _)

/-- the note is the first name that is unknown, and the color is set without it -/
theorem annotated_turnedAway :
    setting.registry.get? annotated.operation = some Builtin.setContext ∧
      ¬(∀ p ∈ annotated.params, Builtin.setContext.Knows p) ∧
      annotated.Invokes setting (World.nestedRuns setting) .kept (({} : World).strict false)
        [("key", .text "color"), ("value", .text "red")] ∧
      annotated.TurnedAway setting (World.nestedRuns setting) .kept (({} : World).strict true)
        (.invalidCall (.rejected (.unknownParameter "note" "setContext"))) := by
  have hunknown : ¬(∀ p ∈ annotated.params, Builtin.setContext.Knows p) := by decide
  have hinvokes : annotated.Invokes setting (World.nestedRuns setting) .kept
      (({} : World).strict false) [("key", .text "color"), ("value", .text "red")] :=
    Call.invokes_iff_admitted.2 ⟨_, annotated_admitted, rfl⟩
  obtain ⟨-, -, hoff⟩ := Call.strictness_rejects_unknown setting (World.nestedRuns setting) .kept
    annotated {}
  obtain ⟨p, hp, haway, -⟩ := (hoff Builtin.setContext rfl _ hinvokes).2 hunknown
  have hname : some "note" = some p.name := Definition.unknown?_of_first hp
  rw [← Option.some.inj hname] at haway
  exact ⟨rfl, hunknown, hinvokes, haway⟩

end Demo

end LinkedCalls
