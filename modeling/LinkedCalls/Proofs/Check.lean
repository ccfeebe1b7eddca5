import LinkedCalls.Proofs.Gate

/-!
The check of a call. It asks for the required names first, then for names that the schema does not
know, if the flag is on, and last for what the operation checks itself. A call is unobjected if none
of these finds anything, since no objection but one of the operation's own has an empty text.
-/
namespace LinkedCalls

/-- the check of an operation has nothing to say, or says an empty text -/
def Inspection.Passes (i : Inspection) : Prop :=
  i.verdict = .ok none ∨ i.verdict = .ok (some "")

theorem Inspection.passes_iff_objection {i : Inspection} :
    i.Passes ↔ ∃ objection, i.objection = .ok objection ∧
      ∀ o, objection = some o → o.message = "" := by
  unfold Passes Inspection.objection
  rcases i.verdict with failure | (_ | text)
  · constructor
    · rintro (hsaid | hsaid) <;> cases hsaid
    · rintro ⟨_, ⟨⟩, -⟩
  · exact ⟨fun _ => ⟨none, rfl, by simp⟩, fun _ => .inl rfl⟩
  · constructor
    · intro hpasses
      obtain rfl : text = "" := by simpa using hpasses
      refine ⟨_, rfl, ?_⟩
      rintro _ ⟨⟩
      rfl
    · rintro ⟨_, ⟨⟩, hempty⟩
      have htext : text = "" := hempty _ rfl
      rw [htext]
      exact .inr rfl

namespace Objection

theorem message_missingParameter_ne (param : String) : (missingParameter param).message ≠ "" := by
  have hmessage : (missingParameter param).message = "Missing required parameter: " ++ param := rfl
  rw [hmessage, ne_eq, String.append_eq_empty_iff]
  rintro ⟨h, -⟩
  exact absurd h (by decide)

theorem message_unknownParameter_ne (param operation : String) :
    (unknownParameter param operation).message ≠ "" := by
  have hmessage : (unknownParameter param operation).message =
      "Unknown parameter '" ++ param ++ "' for operation '" ++ operation ++ "'" := rfl
  rw [hmessage, ne_eq, String.append_eq_empty_iff]
  rintro ⟨-, h⟩
  exact absurd h (by decide)

end Objection

namespace Definition

variable {d : Definition} {call : Call}

theorem missing?_eq_none_iff :
    d.missing? call = none ↔ ∀ spec ∈ d.params, spec.required = true → spec.default = .null →
      (call.param? spec.name).isSome = true := by
  simp only [missing?, Option.map_eq_none_iff, List.find?_eq_none, Bool.and_eq_true,
    Value.isNull_iff, Option.isNone_iff_eq_none, not_and, and_imp, ← Option.isSome_iff_ne_none,
    ← ne_eq]

theorem unknown?_eq_none_iff :
    d.unknown? call = none ↔ ∀ p ∈ call.params, (d.spec? p.name).isSome = true := by
  simp only [unknown?, Option.map_eq_none_iff, List.find?_eq_none, Option.isNone_iff_eq_none,
    ← Option.isSome_iff_ne_none, ← ne_eq]

end Definition

/-- nothing is objected to a call that gives the required names, if asked for only names of the
schema, and what its operation lets pass -/
theorem Call.unobjected_iff {registry : Registry} {flags : Flags} {call : Call} {d : Definition}
    (hd : registry.get? call.operation = some d) :
    call.Unobjected registry flags ↔ d.missing? call = none ∧
      (flags.strictParameters = true → d.unknown? call = none) ∧
        ∀ inspect, d.inspect = some inspect → (inspect call.params).Passes := by
  unfold Unobjected
  rw [validate_of_get? hd, Definition.validate]
  cases hmissing : d.missing? call with
  | some name =>
    constructor
    · rintro ⟨_, ⟨⟩, hempty⟩
      exact absurd (hempty _ rfl) (Objection.message_missingParameter_ne name)
    · rintro ⟨⟨⟩, -⟩
  | none =>
    have hasked : (if flags.strictParameters then d.unknown? call else none) = none ↔
        (flags.strictParameters = true → d.unknown? call = none) := by
      split <;> simp_all
    rw [← hasked]
    cases (if flags.strictParameters then d.unknown? call else none) with
    | some name =>
      constructor
      · rintro ⟨_, ⟨⟩, hempty⟩
        exact absurd (hempty _ rfl) (Objection.message_unknownParameter_ne name d.id)
      · rintro ⟨-, ⟨⟩, -⟩
    | none =>
      cases d.inspect with
      | none => exact ⟨fun _ => ⟨rfl, rfl, by simp⟩, fun _ => ⟨none, rfl, by simp⟩⟩
      | some inspect =>
        simp only [← Inspection.passes_iff_objection, Option.some.injEq, forall_eq', true_and]

namespace Builtin

theorem message_level_ne (level expected : String) :
    s!"Invalid dialog level: {level} (expected one of " ++ expected ++ ")" ≠ "" := by
  rw [ne_eq, String.append_eq_empty_iff]
  rintro ⟨-, h⟩
  exact absurd h (by decide)

theorem inspectDialog_passes_iff {ps : List Param} :
    (inspectDialog ps).Passes ↔ ∀ p ∈ ps, wrongLevel p = false := by
  have hnone : ps.find? wrongLevel = none ↔ ∀ p ∈ ps, wrongLevel p = false := by
    simp only [List.find?_eq_none, Bool.not_eq_true]
  rw [← hnone]
  unfold inspectDialog Inspection.Passes
  cases ps.find? wrongLevel with
  | none => exact ⟨fun _ => rfl, fun _ => .inl rfl⟩
  | some p =>
    refine ⟨fun hpasses => ?_, by rintro ⟨⟩⟩
    unfold Scalar.written at hpasses
    dsimp only at hpasses
    split at hpasses
    · rcases hpasses with hsaid | hsaid <;> cases hsaid
    · rcases hpasses with hsaid | hsaid
      · cases hsaid
      · exact absurd (Option.some.inj (Except.ok.inj hsaid)) (message_level_ne _ _)

end Builtin

end LinkedCalls
