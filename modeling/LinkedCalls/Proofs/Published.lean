import LinkedCalls.Proofs.Format
import LinkedCalls.Proofs.Parameters
import LinkedCalls.Registry.Catalog

/-!
Published schemas. The docs of an operation and the schema of all calls give one schema for its
parameters. Read as a client reads it, it is set against what the check and the decoding of a call
take. Values that keep to the schema are taken; values that are taken keep to the types of the
schema, but not always to its list of required names, which names parameters with a default too.
-/
namespace LinkedCalls

namespace Value

def path? (v : Value) : List String → Option Value
  | [] => some v
  | name :: names => (v.field? name).bind (·.path? names)

/-- values given by name have the types that a schema declares for its properties -/
def Types (schema : Value) (given : String → Option Scalar) : Prop :=
  ∀ name type, schema.path? ["properties", name, "type"] = some (.text type) →
    ∀ v, given name = some v → HasType (.scalar v) type

/-- every name in the list of required ones is given -/
def Requires (schema : Value) (given : String → Option Scalar) : Prop :=
  ∀ names, schema.field? "required" = some (.list names) →
    ∀ name, .text name ∈ names → (given name).isSome = true

/-- values given by name keep to the schema of an object -/
structure Admits (schema : Value) (given : String → Option Scalar) : Prop where
  requires : schema.Requires given
  types : schema.Types given

end Value

/-- the docs of an operation and its branch in the schema of all calls give this schema for its
parameters -/
structure Registry.Publishes (r : Registry) (id : String) (schema : Value) : Prop where
  docs : ∃ docs, r.docs id = .ok docs ∧ docs.field? "input_schema" = some schema
  oneOf : ∃ branches, r.schema.field? "oneOf" = some (.list branches) ∧
    (∃ branch ∈ branches, branch.path? ["properties", "op_def_id", "const"] = some (.text id)) ∧
    ∀ branch ∈ branches, branch.path? ["properties", "op_def_id", "const"] = some (.text id) →
      branch.path? ["properties", "params"] = some schema

/-- the call gives these values by name, in whatever order, all of them literals other than null -/
structure Call.Supplies (call : Call) (given : String → Option Scalar) : Prop where
  names : (call.params.map Param.name).Nodup
  literal : ∀ p ∈ call.params, p.link = none
  not_null : ∀ p ∈ call.params, p.value ≠ .null
  given : ∀ name v, given name = some v ↔ ∃ p ∈ call.params, p.name = name ∧ p.value = v

namespace Definition

/-- values given by name, and the defaults for the names that are not given -/
def completed (d : Definition) (given : String → Option Scalar) (name : String) : Option Value :=
  match given name with
  | some v => some (.scalar v)
  | none => ((d.spec? name).map ParamSpec.default).filter (!·.isNull)

variable {d : Definition} {given : String → Option Scalar}

theorem WellFormed.spec?_eq_some (hd : d.WellFormed) {name : String} {spec : ParamSpec} :
    d.spec? name = some spec ↔ spec ∈ d.params ∧ spec.name = name :=
  find?_eq_some_iff_of_nodup hd.names

theorem path?_inputSchema (d : Definition) (name : String) :
    d.inputSchema.path? ["properties", name, "type"] =
      (d.spec? name).map fun spec => .text spec.type := by
  have hproperties : d.inputSchema.path? ["properties", name, "type"] =
      ((Value.record (d.params.map fun spec => (spec.name, spec.schema))).field? name).bind
        fun v => (v.field? "type").bind some := rfl
  have hfound : (d.params.map fun spec => (spec.name, spec.schema)).find? (·.1 == name) =
      (d.spec? name).map fun spec => (spec.name, spec.schema) := List.find?_map
  rw [hproperties, field?_record, hfound]
  cases d.spec? name with
  | none => rfl
  | some spec => rfl

/-- the published list of required names holds every spec that is marked, with a default or not -/
theorem requires_inputSchema :
    d.inputSchema.Requires given ↔
      ∀ spec ∈ d.params, spec.required = true → (given spec.name).isSome = true := by
  have hfield : d.inputSchema.field? "required" = some (.texts d.requiredNames) := rfl
  constructor
  · intro h spec hspec hrequired
    refine h _ hfield spec.name (List.mem_map_of_mem ?_)
    exact List.mem_map_of_mem (List.mem_filter.2 ⟨hspec, hrequired⟩)
  · intro h names hnames name hname
    rw [hfield] at hnames
    obtain rfl : d.requiredNames.map Value.text = names := Value.list.inj (Option.some.inj hnames)
    obtain ⟨_, hmem, heq⟩ := List.mem_map.1 hname
    obtain ⟨spec, hspec, rfl⟩ := List.mem_map.1 hmem
    obtain ⟨hin, hrequired⟩ := List.mem_filter.1 hspec
    rw [← Scalar.text.inj (Value.scalar.inj heq)]
    exact h spec hin hrequired

theorem WellFormed.types_inputSchema (hd : d.WellFormed) :
    d.inputSchema.Types given ↔
      ∀ spec ∈ d.params, ∀ v, given spec.name = some v → Value.HasType (.scalar v) spec.type := by
  constructor
  · intro h spec hspec v hv
    refine h spec.name spec.type ?_ v hv
    rw [path?_inputSchema, hd.spec?_eq_some.2 ⟨hspec, rfl⟩]
    rfl
  · intro h name type htype v hv
    rw [path?_inputSchema] at htype
    obtain ⟨spec, hfound, heq⟩ := Option.map_eq_some_iff.1 htype
    obtain ⟨hspec, rfl⟩ := hd.spec?_eq_some.1 hfound
    rw [← Scalar.text.inj (Value.scalar.inj heq)]
    exact h spec hspec v hv

end Definition

namespace Registry

variable {r : Registry} {id : String} {d : Definition} {schema : Value}

theorem docs_of_get? (hd : r.get? id = some d) : r.docs id = .ok d.docs := by
  rw [docs, hd]

theorem const_callSchema (d : Definition) :
    d.callSchema.path? ["properties", "op_def_id", "const"] = some (.text d.id) := rfl

theorem WellFormed.publishes (h : r.WellFormed) (hd : r.get? id = some d) :
    r.Publishes id d.inputSchema where
  docs := ⟨d.docs, docs_of_get? hd, rfl⟩
  oneOf := by
    obtain ⟨hmem, rfl⟩ := get?_eq_some hd
    refine ⟨r.map Definition.callSchema, rfl, ⟨d.callSchema, List.mem_map_of_mem hmem, rfl⟩, ?_⟩
    rintro branch hbranch hconst
    obtain ⟨e, he, rfl⟩ := List.mem_map.1 hbranch
    rw [const_callSchema] at hconst
    have hid : e.id = d.id := Scalar.text.inj (Value.scalar.inj (Option.some.inj hconst))
    obtain rfl := List.inj_on_of_nodup_map h.ids he hmem hid
    rfl

theorem Publishes.eq_inputSchema (h : r.Publishes id schema) (hd : r.get? id = some d) :
    schema = d.inputSchema := by
  obtain ⟨docs, hdocs, hfield⟩ := h.docs
  rw [docs_of_get? hd] at hdocs
  obtain rfl := Except.ok.inj hdocs
  exact (Option.some.inj hfield).symm

end Registry

namespace Call.Supplies

variable {call : Call} {given : String → Option Scalar}

theorem given_eq (h : call.Supplies given) (name : String) :
    given name = (call.param? name).map Param.value := by
  refine Option.ext fun v => ?_
  rw [h.given, Option.map_eq_some_iff]
  constructor
  · rintro ⟨p, hp, hname, hvalue⟩
    exact ⟨p, (find?_eq_some_iff_of_nodup h.names).2 ⟨hp, hname⟩, hvalue⟩
  · rintro ⟨p, hfound, hvalue⟩
    obtain ⟨hp, hname⟩ := (find?_eq_some_iff_of_nodup h.names).1 hfound
    exact ⟨p, hp, hname, hvalue⟩

theorem not_given_null (h : call.Supplies given) (name : String) : given name ≠ some .null := by
  intro hnull
  obtain ⟨p, hp, -, hvalue⟩ := (h.given name .null).1 hnull
  exact h.not_null p hp hvalue

theorem isSome_param? (h : call.Supplies given) (name : String) :
    (call.param? name).isSome = (given name).isSome := by
  rw [h.given_eq, Option.isSome_map]

theorem of_literals (hnames : (call.params.map Param.name).Nodup)
    (hliteral : ∀ p ∈ call.params, p.link = none ∧ p.value ≠ .null) :
    call.Supplies fun name => (call.param? name).map Param.value where
  names := hnames
  literal := fun p hp => (hliteral p hp).1
  not_null := fun p hp => (hliteral p hp).2
  given := by
    intro name v
    rw [Option.map_eq_some_iff]
    constructor
    · rintro ⟨p, hfound, hvalue⟩
      obtain ⟨hp, hname⟩ := (find?_eq_some_iff_of_nodup hnames).1 hfound
      exact ⟨p, hp, hname, hvalue⟩
    · rintro ⟨p, hp, hname, hvalue⟩
      exact ⟨p, (find?_eq_some_iff_of_nodup hnames).2 ⟨hp, hname⟩, hvalue⟩

theorem current_eq (h : call.Supplies given) (store : Store) (cache : Option (Table Value))
    (name : String) :
    call.current store cache name = ((given name).map Value.scalar).getD .null := by
  rw [h.given_eq, Call.current, lastParam?_eq h.names]
  cases hfound : call.param? name with
  | none => rfl
  | some p =>
    simp only [Option.map_some, Option.getD_some, Param.current,
      h.literal p (List.mem_of_find?_eq_some hfound)]

theorem effective_of_given (h : call.Supplies given) (store : Store)
    (cache : Option (Table Value)) {spec : ParamSpec} {v : Scalar}
    (hv : given spec.name = some v) : call.effective store cache spec = .scalar v := by
  have hcurrent : call.current store cache spec.name = .scalar v := by
    rw [h.current_eq, hv]
    rfl
  rw [← hcurrent]
  refine effective_of_ne_null ?_
  rw [hcurrent]
  intro hnull
  exact h.not_given_null spec.name (hv.trans (congrArg some (Value.scalar.inj hnull)))

theorem effective_of_not_given (h : call.Supplies given) (store : Store)
    (cache : Option (Table Value)) {spec : ParamSpec} (hnone : given spec.name = none) :
    call.effective store cache spec = spec.default := by
  refine effective_of_null ?_
  rw [h.current_eq, hnone]
  rfl

section Fits

variable {store : Store} {cache : Option (Table Value)} {spec : ParamSpec}

theorem hasType_of_fits (h : call.Supplies given)
    (hfits : spec.Fits (call.effective store cache spec)) {v : Scalar}
    (hv : given spec.name = some v) : Value.HasType (.scalar v) spec.type := by
  rw [h.effective_of_given store cache hv] at hfits
  rcases hfits with htyped | ⟨hnull, -⟩
  · exact htyped
  · exact absurd (hv.trans (congrArg some (Value.scalar.inj hnull))) (h.not_given_null spec.name)

theorem isSome_of_fits (h : call.Supplies given)
    (hfits : spec.Fits (call.effective store cache spec)) (hrequired : spec.required = true)
    (hdefault : spec.default = .null) : (given spec.name).isSome = true := by
  by_contra hnot
  have heffective := h.effective_of_not_given store cache (Option.not_isSome_iff_eq_none.1 hnot)
  rcases hfits with htyped | ⟨-, hopt⟩
  · rw [heffective, hdefault] at htyped
    exact Value.not_hasType_null htyped
  · rw [hrequired] at hopt
    cases hopt

theorem fits (h : call.Supplies given) (hspec : spec.WellFormed)
    (hrequires : spec.required = true → (given spec.name).isSome = true)
    (htypes : ∀ v, given spec.name = some v → Value.HasType (.scalar v) spec.type) :
    spec.Fits (call.effective store cache spec) := by
  cases hv : given spec.name with
  | some v =>
    rw [h.effective_of_given store cache hv]
    exact .inl (htypes v hv)
  | none =>
    rw [h.effective_of_not_given store cache hv]
    rcases hspec.default with hdefault | htyped
    · refine .inr ⟨hdefault, Bool.eq_false_iff.2 fun hrequired => ?_⟩
      have hsome := hrequires hrequired
      rw [hv] at hsome
      cases hsome
    · exact .inl htyped

end Fits

theorem resolve_eq (h : call.Supplies given) (flags : Flags) (store : Store)
    (cache : Option (Table Value)) :
    call.resolve flags store cache =
      .ok (call.params.map fun p => ⟨p, p.current store cache⟩) := by
  refine resolve_of_resolvable fun p hp target hlink => ?_
  rw [h.literal p hp] at hlink
  cases hlink

theorem validate_eq (h : call.Supplies given) {r : Registry} {d : Definition}
    (hd : r.get? call.operation = some d) (hinspect : d.inspect = none)
    (hrequires : ∀ spec ∈ d.params, spec.required = true → (given spec.name).isSome = true)
    (hknown : ∀ name, (given name).isSome = true → (d.spec? name).isSome = true) (flags : Flags) :
    r.validate flags call = ([], .ok none) := by
  have hmissing : d.missing? call = none := by
    refine Definition.missing?_eq_none_iff.2 fun spec hspec hrequired _ => ?_
    rw [h.isSome_param?]
    exact hrequires spec hspec hrequired
  have hunknown : d.unknown? call = none := by
    refine Definition.unknown?_eq_none_iff.2 fun p hp => hknown p.name ?_
    rw [(h.given p.name p.value).2 ⟨p, hp, rfl, rfl⟩]
    rfl
  rw [validate_of_get? hd, Definition.validate]
  simp only [hmissing, hunknown, ite_self, hinspect]

/-- what is in effect under some name is what the schema makes of the values given -/
theorem completed_iff (h : call.Supplies given) {d : Definition} (hd : d.WellFormed)
    (hknown : ∀ name, (given name).isSome = true → (d.spec? name).isSome = true) {store : Store}
    {cache : Option (Table Value)} {name : String} {v : Value} :
    d.completed given name = some v ↔
      ∃ spec ∈ d.params, spec.name = name ∧ call.effective store cache spec = v ∧ v ≠ .null := by
  unfold Definition.completed
  cases hv : given name with
  | some s =>
    constructor
    · intro heq
      obtain rfl := Option.some.inj heq
      obtain ⟨spec, hfound⟩ := Option.isSome_iff_exists.1 (hknown name (by rw [hv]; rfl))
      obtain ⟨hspec, rfl⟩ := hd.spec?_eq_some.1 hfound
      refine ⟨spec, hspec, rfl, h.effective_of_given store cache hv, fun hnull => ?_⟩
      exact h.not_given_null spec.name (hv.trans (congrArg some (Value.scalar.inj hnull)))
    · rintro ⟨spec, -, rfl, heffective, -⟩
      rw [← heffective, h.effective_of_given store cache hv]
  | none =>
    simp only [Option.filter_eq_some_iff, Option.map_eq_some_iff, Bool.not_eq_true',
      Bool.eq_false_iff, ne_eq, Value.isNull_iff]
    constructor
    · rintro ⟨⟨spec, hfound, rfl⟩, hnull⟩
      obtain ⟨hspec, rfl⟩ := hd.spec?_eq_some.1 hfound
      exact ⟨spec, hspec, rfl, h.effective_of_not_given store cache hv, hnull⟩
    · rintro ⟨spec, hspec, rfl, rfl, hnull⟩
      rw [h.effective_of_not_given store cache hv] at hnull ⊢
      exact ⟨⟨spec, hd.spec?_eq_some.2 ⟨hspec, rfl⟩, rfl⟩, hnull⟩

end Call.Supplies

namespace Registry

variable {r : Registry} {d : Definition} {call : Call} {given : String → Option Scalar}

/-- What decoding takes keeps to the types of the schema that is published, in the docs of the
operation as in the schema of all calls. It keeps to the whole schema exactly if it gives the
required parameters that have a default as well: the schema lists these with the others, though
neither the check nor the decoding of a call asks for them. -/
theorem taken_fits_iff (hr : r.Reachable) (hd : r.get? call.operation = some d)
    (hgiven : call.Supplies given) {flags : Flags} {store : Store} {cache : Option (Table Value)}
    {resolved : List Resolved} {params : Params}
    (hresolve : call.resolve flags store cache = .ok resolved)
    (hdecode : d.decode resolved = .ok params) :
    ∃ schema, r.Publishes call.operation schema ∧ schema.Types given ∧
      (schema.Admits given ↔ ∀ spec ∈ d.params, spec.required = true → spec.default ≠ .null →
        (given spec.name).isSome = true) := by
  have hwell : d.WellFormed := hr.definition hd
  obtain ⟨-, rfl⟩ := Call.resolve_eq_ok hresolve
  obtain ⟨hfits, -⟩ := Definition.decode_eq_ok hdecode
  simp only [Call.spec_effective] at hfits
  have htypes : d.inputSchema.Types given :=
    hwell.types_inputSchema.2 fun spec hspec v hv => hgiven.hasType_of_fits (hfits spec hspec) hv
  refine ⟨d.inputSchema, hr.wellFormed.publishes hd, htypes, ?_⟩
  constructor
  · intro hadmits spec hspec hrequired _
    exact Definition.requires_inputSchema.1 hadmits.requires spec hspec hrequired
  · intro hgives
    refine ⟨Definition.requires_inputSchema.2 fun spec hspec hrequired => ?_, htypes⟩
    by_cases hdefault : spec.default = .null
    · exact hgiven.isSome_of_fits (hfits spec hspec) hrequired hdefault
    · exact hgives spec hspec hrequired hdefault

end Registry

namespace Demo

/-- greets someone; the greeting is required and has a default -/
def greet : Definition where
  id := "greet"
  params := [
    { name := "name", type := "string", required := true },
    { name := "greeting", type := "string", required := true, default := .text "Hello" },
    { name := "times", type := "number", default := .int 1 },
    { name := "loud", type := "boolean" }]
  implementation := some fun _ _ => .done .null

def greeters : Registry := [greet]

theorem reachable_greeters : greeters.Reachable :=
  .register .empty (rfl : Registry.register [] greet = .ok greeters)

def greetLoudly : Call where
  id := "demo.greet"
  operation := "greet"
  params := [{ name := "loud", value := .bool true }, { name := "greeting", value := .text "Ahoy" },
    { name := "name", value := .text "Ann" }]

def loudly (name : String) : Option Scalar := (greetLoudly.param? name).map Param.value

theorem greetLoudly_supplies : greetLoudly.Supplies loudly :=
  .of_literals (by decide) (by decide)

/-- the call gives the greeting, so it keeps to all of what is published -/
theorem greetLoudly_fits :
    greeters.Reachable ∧ greeters.get? greetLoudly.operation = some greet ∧
      greetLoudly.Supplies loudly ∧
      (∃ resolved params, greetLoudly.resolve .allOn {} none = .ok resolved ∧
        greet.decode resolved = .ok params) ∧
      ∃ schema, greeters.Publishes "greet" schema ∧ schema.Admits loudly := by
  have htaken : ∃ resolved params, greetLoudly.resolve .allOn {} none = .ok resolved ∧
      greet.decode resolved = .ok params := ⟨_, _, rfl, rfl⟩
  obtain ⟨resolved, params, hresolve, hdecode⟩ := htaken
  obtain ⟨schema, hschema, -, hiff⟩ := Registry.taken_fits_iff reachable_greeters rfl
    greetLoudly_supplies hresolve hdecode
  refine ⟨reachable_greeters, rfl, greetLoudly_supplies, ⟨resolved, params, hresolve, hdecode⟩,
    schema, hschema, hiff.2 fun spec hspec hrequired hdefault => ?_⟩
  simp only [greet, List.mem_cons, List.not_mem_nil, or_false] at hspec
  rcases hspec with rfl | rfl | rfl | rfl
  · exact absurd rfl hdefault
  · rfl
  · cases hrequired
  · cases hrequired

def greetPlainly : Call where
  id := "demo.greet"
  operation := "greet"
  params := [{ name := "name", value := .text "Ann" }]

def plainly (name : String) : Option Scalar := (greetPlainly.param? name).map Param.value

/-- a call that is taken and does not keep to the published schema, which requires the greeting -/
theorem greetPlainly_misfits :
    greeters.Reachable ∧ greetPlainly.Supplies plainly ∧
      (greeters.validate .allOn greetPlainly).2 = .ok none ∧
      (∃ resolved params, greetPlainly.resolve .allOn {} none = .ok resolved ∧
        greet.decode resolved = .ok params) ∧
      ∃ schema, greeters.Publishes "greet" schema ∧ ¬schema.Admits plainly := by
  refine ⟨reachable_greeters, .of_literals (by decide) (by decide), rfl, ⟨_, _, rfl, rfl⟩,
    greet.inputSchema, reachable_greeters.wellFormed.publishes rfl, fun hadmits => ?_⟩
  have hgiven := Definition.requires_inputSchema.1 hadmits.requires
    { name := "greeting", type := "string", required := true, default := .text "Hello" }
    (List.mem_cons_of_mem _ List.mem_cons_self) rfl
  cases hgiven

end Demo

namespace Registry

variable {r : Registry} {d : Definition} {call : Call} {given : String → Option Scalar}

/-- Who keeps to the published schema is not refused, however strict the check is about names, where
the operation has no check of its own: the call passes the check, its literals are resolved and
decoded, and the parameters are the values given together with the defaults of the names that are
not given, in the order of the schema. -/
theorem admitted_is_taken (hr : r.Reachable) (hd : r.get? call.operation = some d)
    (hinspect : d.inspect = none) (hgiven : call.Supplies given)
    (hknown : ∀ name, (given name).isSome = true → (d.spec? name).isSome = true) {schema : Value}
    (hschema : r.Publishes call.operation schema) (hadmits : schema.Admits given) (flags : Flags)
    (store : Store) (cache : Option (Table Value)) :
    r.validate flags call = ([], .ok none) ∧
      ∃ resolved params, call.resolve flags store cache = .ok resolved ∧
        d.decode resolved = .ok params ∧
        (params.map Prod.fst).Sublist (d.params.map ParamSpec.name) ∧
        ∀ name v, (name, v) ∈ params ↔ d.completed given name = some v := by
  have hwell : d.WellFormed := hr.definition hd
  obtain rfl := hschema.eq_inputSchema hd
  have hrequires := Definition.requires_inputSchema.1 hadmits.requires
  have htypes := hwell.types_inputSchema.1 hadmits.types
  have hfits : ∀ spec ∈ d.params, spec.Fits (call.effective store cache spec) :=
    fun spec hspec =>
      hgiven.fits (hwell.specs spec hspec) (hrequires spec hspec) (htypes spec hspec)
  refine ⟨hgiven.validate_eq hd hinspect hrequires hknown flags, _, _,
    hgiven.resolve_eq flags store cache, ?_, entries_sublist (call.effective store cache) d.params,
    fun name v => ?_⟩
  · simp only [← Call.spec_effective] at hfits ⊢
    exact Definition.decodeSpecs_of_fits hfits
  · exact (mem_entries).trans (hgiven.completed_iff hwell hknown).symm

end Registry

namespace Demo

theorem greet_wellFormed : greet.WellFormed :=
  reachable_greeters.wellFormed.definitions greet List.mem_cons_self

theorem loudly_admitted : greet.inputSchema.Admits loudly where
  requires := Definition.requires_inputSchema.2 (by
    intro spec hspec hrequired
    simp only [greet, List.mem_cons, List.not_mem_nil, or_false] at hspec
    rcases hspec with rfl | rfl | rfl | rfl
    · rfl
    · rfl
    · cases hrequired
    · cases hrequired)
  types := greet_wellFormed.types_inputSchema.2 (by
    intro spec hspec v hv
    simp only [greet, List.mem_cons, List.not_mem_nil, or_false] at hspec
    rcases hspec with rfl | rfl | rfl | rfl
    · obtain rfl := Option.some.inj hv
      exact .string _
    · obtain rfl := Option.some.inj hv
      exact .string _
    · cases hv
    · obtain rfl := Option.some.inj hv
      exact .boolean _)

theorem loudly_known (name : String) (h : (loudly name).isSome = true) :
    (greet.spec? name).isSome = true := by
  rw [loudly, Option.isSome_map, Call.param?, List.find?_isSome] at h
  obtain ⟨p, hp, hname⟩ := h
  obtain rfl : p.name = name := eq_of_beq hname
  have hall : ∀ p ∈ greetLoudly.params, (greet.spec? p.name).isSome = true := by decide
  exact hall p hp

/-- the number of times is filled in, and the greeting is the one given -/
theorem greetLoudly_taken :
    greeters.Reachable ∧ greet.inspect.isNone ∧ greetLoudly.Supplies loudly ∧
      greeters.Publishes "greet" greet.inputSchema ∧ greet.inputSchema.Admits loudly ∧
      greeters.validate .allOn greetLoudly = ([], .ok none) ∧
      ∃ resolved params, greetLoudly.resolve .allOn {} none = .ok resolved ∧
        greet.decode resolved = .ok params ∧ ("times", .int 1) ∈ params ∧
        ("greeting", .text "Ahoy") ∈ params := by
  have hschema : greeters.Publishes greetLoudly.operation greet.inputSchema :=
    reachable_greeters.wellFormed.publishes rfl
  obtain ⟨hvalid, resolved, params, hresolve, hdecode, -, hparams⟩ :=
    Registry.admitted_is_taken reachable_greeters rfl rfl greetLoudly_supplies loudly_known hschema
      loudly_admitted .allOn {} none
  exact ⟨reachable_greeters, rfl, greetLoudly_supplies, hschema, loudly_admitted, hvalid, resolved,
    params, hresolve, hdecode, (hparams _ _).2 rfl, (hparams _ _).2 rfl⟩

end Demo

end LinkedCalls
