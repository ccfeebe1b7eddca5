import LinkedCalls.Proofs.Schema

/-!
What the registry accepts, and what it says of the rest. It takes a definition exactly if the id is
new and the definition well formed. A taken id is all that is said of a definition under it; of any
other the first fault is named: of the definition as a whole, or else of the first spec that has
one. A definition that is refused leaves no trace.
-/
namespace LinkedCalls

/-- what a spec has against it that comes after specs of these names, each fault only where those
above it do not apply -/
inductive ParamSpec.Offends (operation : String) (earlier : List String) (spec : ParamSpec) :
    SchemaFault → Prop where
  | incomplete : spec.name = "" ∨ spec.type = "" →
      Offends operation earlier spec (.incompleteParameter operation)
  | unknownType : spec.name ≠ "" → spec.type ≠ "" → spec.type ∉ parameterTypes →
      Offends operation earlier spec (.unknownType spec.type spec.name operation)
  | duplicate : spec.name ≠ "" → spec.type ∈ parameterTypes → spec.name ∈ earlier →
      Offends operation earlier spec (.duplicateParameter spec.name operation)
  | mismatch : spec.name ≠ "" → spec.type ∈ parameterTypes → spec.name ∉ earlier →
      spec.default ≠ .null → ¬spec.default.HasType spec.type →
      Offends operation earlier spec (.defaultMismatch spec.name operation spec.type)

/-- what a definition has against it, each fault only where those above it do not apply; of the
specs it is the first that offends -/
inductive Definition.Malformed (d : Definition) : SchemaFault → Prop where
  | noId : d.id = "" → Malformed d .noId
  | noImplementation : d.id ≠ "" → d.implementation = none →
      Malformed d (.noImplementation d.id)
  | spec {before after : List ParamSpec} {spec : ParamSpec} {fault : SchemaFault} :
      d.id ≠ "" → d.implementation ≠ none → d.params = before ++ spec :: after →
      (∀ earlier ∈ before, earlier.WellFormed) → (before.map ParamSpec.name).Nodup →
      spec.Offends d.id (before.map ParamSpec.name) fault → Malformed d fault

theorem ParamSpec.Offends.of_names {operation : String} {earlier earlier' : List String}
    {spec : ParamSpec} {fault : SchemaFault} (h : spec.Offends operation earlier fault)
    (hnames : ∀ name, name ∈ earlier ↔ name ∈ earlier') : spec.Offends operation earlier' fault := by
  cases h with
  | incomplete hincomplete => exact .incomplete hincomplete
  | unknownType hname htype hunknown => exact .unknownType hname htype hunknown
  | duplicate hname hmem hseen => exact .duplicate hname hmem ((hnames _).1 hseen)
  | mismatch hname hmem hnew hdefault htype =>
    exact .mismatch hname hmem (mt (hnames _).2 hnew) hdefault htype

theorem ne_empty_of_mem_parameterTypes {type : String} (h : type ∈ parameterTypes) : type ≠ "" := by
  rintro rfl
  exact absurd h (by decide)

namespace Definition

variable {operation : String} {seen : List String} {spec : ParamSpec} {fault : SchemaFault}

theorem offends_of_specFault (h : specFault operation seen [spec] = some fault) :
    spec.Offends operation seen fault := by
  rw [specFault] at h
  split at h
  · next hincomplete => exact Option.some.inj h ▸ .incomplete hincomplete
  · next hcomplete =>
    obtain ⟨hname, htype⟩ := not_or.1 hcomplete
    split at h
    · next hunknown =>
      refine Option.some.inj h ▸ .unknownType hname htype ?_
      simpa using hunknown
    · next hknown =>
      have hmem : spec.type ∈ parameterTypes := by simpa using hknown
      split at h
      · next hseen => exact Option.some.inj h ▸ .duplicate hname hmem hseen
      · next hnew =>
        split at h
        · next hdefault =>
          simp only [Bool.and_eq_true, Bool.not_eq_true', Bool.eq_false_iff, ne_eq,
            Value.isNull_iff, matchesType_iff] at hdefault
          exact Option.some.inj h ▸ .mismatch hname hmem hnew hdefault.1 hdefault.2
        · cases h

theorem specFault_of_offends (h : spec.Offends operation seen fault) :
    specFault operation seen [spec] = some fault := by
  cases h with
  | incomplete hincomplete => rw [specFault, if_pos hincomplete]
  | unknownType hname htype hunknown =>
    simp [specFault, hname, htype, hunknown]
  | duplicate hname hmem hseen =>
    simp [specFault, hname, ne_empty_of_mem_parameterTypes hmem, hmem, hseen]
  | mismatch hname hmem hnew hdefault htype =>
    rw [ne_eq, ← Value.isNull_iff] at hdefault
    rw [← matchesType_iff] at htype
    simp [specFault, hname, ne_empty_of_mem_parameterTypes hmem, hmem, hnew, hdefault, htype]

theorem specFault_cons (operation : String) (seen : List String) (spec : ParamSpec)
    (specs : List ParamSpec) :
    specFault operation seen (spec :: specs) =
      (specFault operation seen [spec]).or (specFault operation (spec.name :: seen) specs) := by
  simp only [specFault]
  split
  · rfl
  · split
    · rfl
    · split
      · rfl
      · split <;> rfl

theorem specFault_append (operation : String) (seen : List String) (before specs : List ParamSpec) :
    specFault operation seen (before ++ specs) =
      (specFault operation seen before).or
        (specFault operation ((before.map ParamSpec.name).reverse ++ seen) specs) := by
  induction before generalizing seen with
  | nil => rfl
  | cons spec before ih =>
    rw [List.cons_append, specFault_cons, ih, specFault_cons _ _ spec before, Option.or_assoc]
    simp

theorem exists_first_of_specFault {specs : List ParamSpec}
    (h : specFault operation seen specs = some fault) :
    ∃ before spec after, specs = before ++ spec :: after ∧ specFault operation seen before = none ∧
      specFault operation ((before.map ParamSpec.name).reverse ++ seen) [spec] = some fault := by
  induction specs generalizing seen with
  | nil => cases h
  | cons spec specs ih =>
    rw [specFault_cons, Option.or_eq_some_iff] at h
    rcases h with hhead | ⟨hhead, hrest⟩
    · exact ⟨[], spec, specs, rfl, rfl, hhead⟩
    · obtain ⟨before, first, after, rfl, hbefore, hfirst⟩ := ih hrest
      refine ⟨spec :: before, first, after, rfl, ?_, ?_⟩
      · rw [specFault_cons, hhead, hbefore, Option.or_none]
      · simpa using hfirst

theorem specFault_eq_some_iff {specs : List ParamSpec} :
    specFault operation [] specs = some fault ↔
      ∃ before spec after, specs = before ++ spec :: after ∧
        (∀ earlier ∈ before, earlier.WellFormed) ∧ (before.map ParamSpec.name).Nodup ∧
        spec.Offends operation (before.map ParamSpec.name) fault := by
  constructor
  · intro h
    obtain ⟨before, spec, after, rfl, hbefore, hspec⟩ := exists_first_of_specFault h
    obtain ⟨hwell, hnames, -⟩ := specFault_eq_none_iff.1 hbefore
    exact ⟨before, spec, after, rfl, hwell, hnames, (offends_of_specFault hspec).of_names (by simp)⟩
  · rintro ⟨before, spec, after, rfl, hwell, hnames, hspec⟩
    have hbefore : specFault operation [] before = none :=
      specFault_eq_none_iff.2 ⟨hwell, hnames, by simp⟩
    have hspec' : specFault operation ((before.map ParamSpec.name).reverse ++ []) [spec] =
        some fault := specFault_of_offends (hspec.of_names (by simp))
    rw [specFault_append, hbefore, Option.none_or, specFault_cons, hspec', Option.some_or]

theorem fault_eq_some_iff {d : Definition} : d.fault = some fault ↔ d.Malformed fault := by
  unfold Definition.fault
  constructor
  · intro h
    split at h
    · next hid => exact Option.some.inj h ▸ .noId hid
    · next hid =>
      split at h
      · next himp => exact Option.some.inj h ▸ .noImplementation hid (Option.isNone_iff_eq_none.1 himp)
      · next himp =>
        obtain ⟨before, spec, after, hsplit, hwell, hnames, hspec⟩ := specFault_eq_some_iff.1 h
        exact .spec hid (mt Option.isNone_iff_eq_none.2 himp) hsplit hwell hnames hspec
  · intro h
    cases h with
    | noId hid => rw [if_pos hid]
    | noImplementation hid himp => rw [if_neg hid, himp, Option.isNone_none, if_pos rfl]
    | spec hid himp hsplit hwell hnames hspec =>
      rw [if_neg hid, if_neg (mt Option.isNone_iff_eq_none.1 himp)]
      exact specFault_eq_some_iff.2 ⟨_, _, _, hsplit, hwell, hnames, hspec⟩

end Definition

namespace Registry

/-- Registration takes exactly the well-formed definitions under new ids, and puts them at the end.
Of a definition under a taken id it says just that, whatever else is wrong with it; of another it
says the first thing that is wrong, in the order of the schema, where a name counts as repeated
exactly if a spec before it has it. Whatever it says, the registry stays as it was. -/
theorem register_exactly (r : Registry) (d : Definition) :
    ((∃ r', r.register d = .ok r') ↔ d.id ∉ r.ids ∧ d.WellFormed) ∧
    (∀ r', r.register d = .ok r' →
      r' = r ++ [d] ∧ r.registerAll [d] = (none, r ++ [d], [registered d])) ∧
    (d.id ∈ r.ids → r.register d = .error (.duplicateDefinition d.id)) ∧
    (d.id ∉ r.ids → ∀ failure, r.register d = .error failure ↔
      ∃ fault, d.Malformed fault ∧ failure = .malformedSchema fault) ∧
    ∀ failure, r.register d = .error failure → r.registerAll [d] = (some failure, r, []) := by
  refine ⟨?_, fun r' hr' => ?_, fun htaken => ?_, fun hnew failure => ?_, fun failure hfails => ?_⟩
  · simp only [register_eq_ok_iff]
    exact ⟨fun ⟨_, hnew, hwell, _⟩ => ⟨hnew, hwell⟩, fun ⟨hnew, hwell⟩ => ⟨_, hnew, hwell, rfl⟩⟩
  · obtain ⟨-, -, rfl⟩ := register_eq_ok_iff.1 hr'
    exact ⟨rfl, by simp [registerAll, hr']⟩
  · rw [register, if_pos (has_iff_mem_ids.2 htaken)]
  · rw [register, if_neg (mt has_iff_mem_ids.1 hnew)]
    simp only [← Definition.fault_eq_some_iff]
    cases d.fault with
    | none => simp
    | some fault => simp [eq_comm]
  · simp [registerAll, hfails]

end Registry

end LinkedCalls
