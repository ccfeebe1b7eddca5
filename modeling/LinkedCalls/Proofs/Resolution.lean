import LinkedCalls.Proofs.Schema
import LinkedCalls.Resolution
import Mathlib.Tactic.Common

/-!
What resolution and decoding make of a call. Resolution succeeds when each linked result is there,
and gives every parameter the value it stands for now; decoding succeeds when every spec of the
schema is met, and keeps the values that are not null. Both fail at the first place that is not fit.
-/
namespace LinkedCalls

def FirstWithout {α : Type} (P : α → Prop) (xs : List α) (x : α) : Prop :=
  ∃ before after, xs = before ++ x :: after ∧ (∀ y ∈ before, P y) ∧ ¬P x

theorem exists_firstWithout {α : Type} {P : α → Prop} {xs : List α} (h : ¬∀ x ∈ xs, P x) :
    ∃ x, FirstWithout P xs x := by
  induction xs with
  | nil => exact absurd (by simp) h
  | cons a xs ih =>
    by_cases ha : P a
    · have hxs : ¬∀ x ∈ xs, P x := fun hall => h (List.forall_mem_cons.2 ⟨ha, hall⟩)
      obtain ⟨x, before, after, rfl, hbefore, hx⟩ := ih hxs
      exact ⟨x, a :: before, after, rfl, List.forall_mem_cons.2 ⟨ha, hbefore⟩, hx⟩
    · exact ⟨a, [], xs, rfl, by simp, ha⟩

theorem FirstWithout.lacks {α : Type} {P : α → Prop} {xs : List α} {x : α}
    (h : FirstWithout P xs x) : ¬P x := by
  obtain ⟨-, -, -, -, hx⟩ := h
  exact hx

theorem FirstWithout.mem {α : Type} {P : α → Prop} {xs : List α} {x : α}
    (h : FirstWithout P xs x) : x ∈ xs := by
  obtain ⟨before, after, rfl, -, -⟩ := h
  exact List.mem_append_right _ List.mem_cons_self

/-- what the link of a parameter leads to in the results, if results are kept -/
def linkedResult (cache : Option (Table Value)) (target : String) : Option Value :=
  cache.bind fun results => results.find? (.text target)

theorem linkedResult_isSome_iff {cache : Option (Table Value)} {target : String} :
    (linkedResult cache target).isSome = true ↔
      ∃ results, cache = some results ∧ Table.has results (.text target) = true := by
  cases cache <;> simp [linkedResult, Table.has]

namespace Param

/-- the value a parameter stands for now; a link that leads nowhere stands for null -/
def current (store : Store) (cache : Option (Table Value)) (p : Param) : Value :=
  match p.link with
  | none => .scalar p.value
  | some (.contextKey key) => store.get (.text key)
  | some (.operation target) => (linkedResult cache target).getD .null

/-- links to results are on, and the result that the parameter asks for is there -/
def Resolvable (flags : Flags) (cache : Option (Table Value)) (p : Param) : Prop :=
  ∀ target, p.link = some (.operation target) →
    flags.operationLinks = true ∧ (linkedResult cache target).isSome = true

theorem link_of_not_resolvable {flags : Flags} {cache : Option (Table Value)} {p : Param}
    (h : ¬p.Resolvable flags cache) : ∃ target, p.link = some (.operation target) := by
  unfold Resolvable at h
  push Not at h
  obtain ⟨target, hlink, -⟩ := h
  exact ⟨target, hlink⟩

end Param

def Call.linkFault (flags : Flags) (call : Call) (p : Param) (target : String) : LinkFault :=
  if flags.operationLinks then .noResult p.name target else .disabled p.name call.id

theorem resolveParam_of_resolvable {flags : Flags} {store : Store} {cache : Option (Table Value)}
    {p : Param} (call : Call) (h : p.Resolvable flags cache) :
    resolveParam flags store cache call p = .ok ⟨p, p.current store cache⟩ := by
  rcases hlink : p.link with _ | key | target
  · simp [resolveParam, Param.current, hlink]
  · simp [resolveParam, Param.current, hlink]
  · obtain ⟨hon, hsome⟩ := h target hlink
    obtain ⟨v, hv⟩ := Option.isSome_iff_exists.1 hsome
    have hfind : (cache.bind fun t => Table.find? t (.text target)) = some v := hv
    simp [resolveParam, resolveResult, Param.current, hlink, hon, hfind, hv, Except.map]

theorem resolveParam_of_not_resolvable {flags : Flags} {store : Store}
    {cache : Option (Table Value)} {p : Param} {target : String} (call : Call)
    (hlink : p.link = some (.operation target)) (h : ¬p.Resolvable flags cache) :
    resolveParam flags store cache call p =
      .error (.unresolvedLink (call.linkFault flags p target)) := by
  unfold resolveParam
  simp only [hlink]
  unfold resolveResult Call.linkFault
  cases hon : flags.operationLinks with
  | false => rfl
  | true =>
    cases hfind : linkedResult cache target with
    | none =>
      have hnone : (cache.bind fun t => Table.find? t (.text target)) = none := hfind
      simp [hnone, Except.map]
    | some v =>
      refine absurd (fun other hother => ?_) h
      obtain rfl : target = other := by simpa [hlink] using hother
      exact ⟨hon, by rw [hfind]; rfl⟩

theorem resolveAll_of_forall {f : Param → Except Failure Resolved} {g : Param → Resolved}
    {ps : List Param} (h : ∀ p ∈ ps, f p = .ok (g p)) : resolveAll f ps = .ok (ps.map g) := by
  induction ps with
  | nil => rfl
  | cons p ps ih =>
    obtain ⟨hp, hps⟩ := List.forall_mem_cons.1 h
    simp [resolveAll, hp, ih hps, Except.map]

theorem resolveAll_of_first {f : Param → Except Failure Resolved} {g : Param → Resolved}
    {before after : List Param} {p : Param} {failure : Failure}
    (hbefore : ∀ q ∈ before, f q = .ok (g q)) (hp : f p = .error failure) :
    resolveAll f (before ++ p :: after) = .error failure := by
  induction before with
  | nil => simp [resolveAll, hp]
  | cons q before ih =>
    obtain ⟨hq, hrest⟩ := List.forall_mem_cons.1 hbefore
    simp [resolveAll, hq, ih hrest, Except.map]

namespace Call

variable {flags : Flags} {store : Store} {cache : Option (Table Value)} {call : Call}

theorem resolve_of_resolvable (h : ∀ p ∈ call.params, p.Resolvable flags cache) :
    call.resolve flags store cache =
      .ok (call.params.map fun p => ⟨p, p.current store cache⟩) :=
  resolveAll_of_forall fun p hp => resolveParam_of_resolvable call (h p hp)

theorem resolve_of_first {p : Param} {target : String}
    (h : FirstWithout (Param.Resolvable flags cache) call.params p)
    (hlink : p.link = some (.operation target)) :
    call.resolve flags store cache = .error (.unresolvedLink (call.linkFault flags p target)) := by
  obtain ⟨before, after, hsplit, hbefore, hp⟩ := h
  rw [resolve, hsplit]
  exact resolveAll_of_first (fun q hq => resolveParam_of_resolvable call (hbefore q hq))
    (resolveParam_of_not_resolvable call hlink hp)

theorem resolve_eq_ok {rs : List Resolved} (h : call.resolve flags store cache = .ok rs) :
    (∀ p ∈ call.params, p.Resolvable flags cache) ∧
      rs = call.params.map fun p => ⟨p, p.current store cache⟩ := by
  have hall : ∀ p ∈ call.params, p.Resolvable flags cache := by
    by_contra hnot
    obtain ⟨p, hp⟩ := exists_firstWithout hnot
    obtain ⟨target, hlink⟩ := Param.link_of_not_resolvable hp.lacks
    rw [resolve_of_first hp hlink] at h
    cases h
  rw [resolve_of_resolvable hall] at h
  exact ⟨hall, (Except.ok.inj h).symm⟩

/-- the last parameter of that name, which is the one that counts -/
def lastParam? (call : Call) (name : String) : Option Param :=
  call.params.reverse.find? (·.name == name)

theorem lastParam?_eq (h : (call.params.map Param.name).Nodup) (name : String) :
    call.lastParam? name = call.param? name :=
  (find?_eq_of_perm (List.reverse_perm call.params).symm h name).symm

theorem lastParam?_eq_none_iff {name : String} :
    call.lastParam? name = none ↔ call.param? name = none := by
  simp [lastParam?, param?]

/-- the value a call supplies under a name, null if it supplies none -/
def current (store : Store) (cache : Option (Table Value)) (call : Call) (name : String) : Value :=
  ((call.lastParam? name).map (Param.current store cache)).getD .null

/-- the supplied value, or the default of the spec where that is null -/
def effective (store : Store) (cache : Option (Table Value)) (call : Call) (spec : ParamSpec) :
    Value :=
  if (call.current store cache spec.name).isNull then spec.default
  else call.current store cache spec.name

theorem suppliedValue_current (name : String) :
    suppliedValue (call.params.map fun p => ⟨p, p.current store cache⟩) name =
      call.current store cache name := by
  unfold suppliedValue current lastParam?
  rw [← List.map_reverse, List.find?_map, Option.map_map]
  rfl

theorem spec_effective (spec : ParamSpec) :
    spec.effective (call.params.map fun p => ⟨p, p.current store cache⟩) =
      call.effective store cache spec := by
  unfold ParamSpec.effective effective
  rw [suppliedValue_current]

end Call

namespace ParamSpec

/-- a value of the declared type, or none where none is required -/
def Fits (spec : ParamSpec) (v : Value) : Prop :=
  v.HasType spec.type ∨ v = .null ∧ spec.required = false

/-- the entry of a spec among the decoded parameters; null is left out -/
def entry? (spec : ParamSpec) (v : Value) : Option (String × Value) :=
  if v.isNull then none else some (spec.name, v)

end ParamSpec

namespace Definition

variable {d : Definition} {supplied : List Resolved} {spec : ParamSpec}

def callFault (d : Definition) (spec : ParamSpec) (v : Value) : CallFault :=
  if v.isNull then .missingParameter spec.name else .wrongType spec.name d.id spec.type v.kind

theorem decodeSpec_of_fits (h : spec.Fits (spec.effective supplied)) :
    d.decodeSpec supplied spec = .ok (spec.entry? (spec.effective supplied)) := by
  unfold decodeSpec ParamSpec.entry?
  rcases h with htype | ⟨hnull, hopt⟩
  · have hmatch := matchesType_iff.2 htype
    cases hn : (spec.effective supplied).isNull with
    | true =>
      rw [Value.isNull_iff.1 hn, matchesType_null] at hmatch
      cases hmatch
    | false => simp [hn, hmatch]
  · simp [hnull, hopt, Value.isNull, Scalar.isNull]

theorem decodeSpec_of_not_fits (h : ¬spec.Fits (spec.effective supplied)) :
    d.decodeSpec supplied spec =
      .error (.invalidCall (d.callFault spec (spec.effective supplied))) := by
  unfold decodeSpec callFault
  unfold ParamSpec.Fits at h
  rw [← matchesType_iff, ← Value.isNull_iff] at h
  cases hn : (spec.effective supplied).isNull <;> simp_all

theorem decodeSpecs_of_fits {specs : List ParamSpec}
    (h : ∀ spec ∈ specs, spec.Fits (spec.effective supplied)) :
    d.decodeSpecs supplied specs =
      .ok (specs.filterMap fun spec => spec.entry? (spec.effective supplied)) := by
  induction specs with
  | nil => rfl
  | cons spec specs ih =>
    obtain ⟨hspec, hspecs⟩ := List.forall_mem_cons.1 h
    simp only [decodeSpecs, decodeSpec_of_fits hspec, ih hspecs, Except.map, List.filterMap_cons]
    cases spec.entry? (spec.effective supplied) <;> rfl

theorem decodeSpecs_of_first {specs : List ParamSpec}
    (h : FirstWithout (fun spec => spec.Fits (spec.effective supplied)) specs spec) :
    d.decodeSpecs supplied specs =
      .error (.invalidCall (d.callFault spec (spec.effective supplied))) := by
  obtain ⟨before, after, rfl, hbefore, hspec⟩ := h
  induction before with
  | nil => simp [decodeSpecs, decodeSpec_of_not_fits hspec]
  | cons other before ih =>
    obtain ⟨hother, hrest⟩ := List.forall_mem_cons.1 hbefore
    simp [decodeSpecs, decodeSpec_of_fits hother, ih hrest, Except.map]

/-- decoding depends on the values supplied under the names of the specs, and on nothing else -/
theorem decodeSpecs_congr {supplied supplied' : List Resolved} {specs : List ParamSpec}
    (h : ∀ spec ∈ specs, suppliedValue supplied spec.name = suppliedValue supplied' spec.name) :
    d.decodeSpecs supplied specs = d.decodeSpecs supplied' specs := by
  induction specs with
  | nil => rfl
  | cons spec specs ih =>
    obtain ⟨hspec, hspecs⟩ := List.forall_mem_cons.1 h
    have hentry : d.decodeSpec supplied spec = d.decodeSpec supplied' spec := by
      unfold decodeSpec ParamSpec.effective
      rw [hspec]
    simp only [decodeSpecs, hentry, ih hspecs]

/-- what a definition decodes the parameters of a call to, if it does -/
theorem decode_eq_ok {params : Params} (h : d.decode supplied = .ok params) :
    (∀ spec ∈ d.params, spec.Fits (spec.effective supplied)) ∧
      params = d.params.filterMap fun spec => spec.entry? (spec.effective supplied) := by
  have hall : ∀ spec ∈ d.params, spec.Fits (spec.effective supplied) := by
    by_contra hnot
    obtain ⟨spec, hspec⟩ := exists_firstWithout hnot
    rw [decode, decodeSpecs_of_first hspec] at h
    cases h
  rw [decode, decodeSpecs_of_fits hall] at h
  exact ⟨hall, (Except.ok.inj h).symm⟩

/-- a definition that does not decode has a first spec that is not met -/
theorem decode_eq_error {failure : Failure} (h : d.decode supplied = .error failure) :
    ∃ spec, FirstWithout (fun spec => spec.Fits (spec.effective supplied)) d.params spec ∧
      failure = .invalidCall (d.callFault spec (spec.effective supplied)) := by
  have hnot : ¬∀ spec ∈ d.params, spec.Fits (spec.effective supplied) := by
    intro hall
    rw [decode, decodeSpecs_of_fits hall] at h
    cases h
  obtain ⟨spec, hspec⟩ := exists_firstWithout hnot
  rw [decode, decodeSpecs_of_first hspec] at h
  exact ⟨spec, hspec, (Except.error.inj h).symm⟩

end Definition

end LinkedCalls
