import LinkedCalls.Registry.Basic
import Mathlib.Data.List.Nodup

/-!
Schemas of registered operations. What the registry takes is well formed, and it takes an operation
under a fresh id only, so every registry that registration reaches holds well-formed definitions of
different ids.
-/
namespace LinkedCalls

theorem find?_eq_some_iff_of_nodup {α : Type} {key : α → String} {xs : List α}
    (h : (xs.map key).Nodup) {k : String} {x : α} :
    xs.find? (key · == k) = some x ↔ x ∈ xs ∧ key x = k := by
  constructor
  · intro hfound
    exact ⟨List.mem_of_find?_eq_some hfound, by simpa using List.find?_some hfound⟩
  · rintro ⟨hx, rfl⟩
    have hsome : (xs.find? (key · == key x)).isSome = true := List.find?_isSome.2 ⟨x, hx, by simp⟩
    obtain ⟨y, hy⟩ := Option.isSome_iff_exists.1 hsome
    have hkey : key y = key x := by simpa using List.find?_some hy
    rw [hy, List.inj_on_of_nodup_map h (List.mem_of_find?_eq_some hy) hx hkey]

theorem find?_eq_of_perm {α : Type} {key : α → String} {xs ys : List α} (hperm : xs.Perm ys)
    (h : (xs.map key).Nodup) (k : String) : xs.find? (key · == k) = ys.find? (key · == k) := by
  have h' : (ys.map key).Nodup := (hperm.map key).nodup_iff.1 h
  ext x
  rw [find?_eq_some_iff_of_nodup h, find?_eq_some_iff_of_nodup h', hperm.mem_iff]

/-- the values of each parameter type; a truth value is a `boolean` and nothing else -/
inductive Value.HasType : Value → String → Prop where
  | string (s : String) : HasType (.text s) "string"
  | boolean (b : Bool) : HasType (.bool b) "boolean"
  | int (n : Int) : HasType (.int n) "number"
  | float (x : Binary64) : HasType (.float x) "number"

theorem Value.isNull_iff {v : Value} : v.isNull = true ↔ v = .null := by
  cases v with
  | scalar s => cases s <;> simp [Value.isNull, Scalar.isNull]
  | list items => simp [Value.isNull]
  | map entries => simp [Value.isNull]

theorem matchesType_iff {v : Value} {type : String} :
    matchesType v type = true ↔ v.HasType type := by
  constructor
  · intro h
    unfold matchesType at h
    split at h
    · rw [eq_of_beq h]
      exact .string _
    · rw [eq_of_beq h]
      exact .boolean _
    · rw [eq_of_beq h]
      exact .int _
    · rw [eq_of_beq h]
      exact .float _
    · cases h
  · rintro (_ | _ | _ | _) <;> rfl

theorem Value.not_hasType_null {type : String} : ¬Value.HasType .null type := by
  rintro ⟨⟩

theorem Value.HasType.eq_text {v : Value} {type : String} (h : v.HasType type)
    (htype : type = "string") : ∃ s, v = .text s := by
  cases h with
  | string s => exact ⟨s, rfl⟩
  | boolean b => exact absurd htype (by decide)
  | int n => exact absurd htype (by decide)
  | float x => exact absurd htype (by decide)

theorem matchesType_null (type : String) : matchesType .null type = false := rfl

structure ParamSpec.WellFormed (spec : ParamSpec) : Prop where
  name_ne : spec.name ≠ ""
  type_mem : spec.type ∈ parameterTypes
  default : spec.default = .null ∨ spec.default.HasType spec.type

theorem ParamSpec.wellFormed_iff (spec : ParamSpec) :
    spec.WellFormed ↔ ¬(spec.name = "" ∨ spec.type = "") ∧
      parameterTypes.contains spec.type = true ∧
      (!spec.default.isNull && !matchesType spec.default spec.type) = false := by
  constructor
  · rintro ⟨hname, htype, hdefault⟩
    refine ⟨?_, List.contains_iff_mem.2 htype, ?_⟩
    · rintro (h | h)
      · exact hname h
      · rw [h] at htype
        exact absurd htype (by decide)
    · rcases hdefault with h | h
      · simp [h, Value.isNull, Scalar.isNull]
      · simp [matchesType_iff.2 h]
  · rintro ⟨hne, htype, hdefault⟩
    refine ⟨fun h => hne (.inl h), List.contains_iff_mem.1 htype, ?_⟩
    rw [← Value.isNull_iff, ← matchesType_iff]
    cases hn : spec.default.isNull with
    | true => exact .inl rfl
    | false => exact .inr (by simpa [hn] using hdefault)

structure Definition.WellFormed (d : Definition) : Prop where
  id_ne : d.id ≠ ""
  implemented : d.implementation.isSome
  specs : ∀ spec ∈ d.params, spec.WellFormed
  names : (d.params.map ParamSpec.name).Nodup

structure Registry.WellFormed (r : Registry) : Prop where
  definitions : ∀ d ∈ r, d.WellFormed
  ids : r.ids.Nodup

/-- the registries made by registration, also by one that was refused on the way -/
inductive Registry.Reachable : Registry → Prop where
  | empty : Reachable []
  | register {r r' : Registry} {d : Definition} :
      Reachable r → r.register d = .ok r' → Reachable r'
  | registerAll {r : Registry} (ds : List Definition) :
      Reachable r → Reachable (r.registerAll ds).2.1

namespace Definition

theorem specFault_eq_none_iff {operation : String} {seen : List String} {specs : List ParamSpec} :
    specFault operation seen specs = none ↔
      (∀ spec ∈ specs, spec.WellFormed) ∧ (specs.map ParamSpec.name).Nodup ∧
        ∀ spec ∈ specs, spec.name ∉ seen := by
  induction specs generalizing seen with
  | nil => simp [specFault]
  | cons spec specs ih =>
    simp only [specFault, List.forall_mem_cons, List.map_cons, List.nodup_cons, List.mem_map,
      not_exists, not_and, spec.wellFormed_iff]
    split
    · simp_all
    · split
      · simp_all
      · split
        · simp_all
        · split
          · simp_all
          · rw [ih]
            simp only [List.mem_cons, not_or]
            grind

theorem fault_eq_none_iff {d : Definition} : d.fault = none ↔ d.WellFormed := by
  unfold fault
  constructor
  · intro h
    split at h
    · cases h
    · next hid =>
      split at h
      · cases h
      · next himp =>
        obtain ⟨hspecs, hnames, -⟩ := specFault_eq_none_iff.1 h
        exact ⟨hid, by simpa [Option.isSome_iff_ne_none] using himp, hspecs, hnames⟩
  · rintro ⟨hid, himp, hspecs, hnames⟩
    have hnone : d.implementation.isNone = false := by
      rw [Option.isNone_eq_false_iff]
      exact himp
    simp only [hid, hnone, if_false, Bool.false_eq_true]
    exact specFault_eq_none_iff.2 ⟨hspecs, hnames, by simp⟩

end Definition

namespace Registry

theorem get?_eq_some {r : Registry} {id : String} {d : Definition} (h : r.get? id = some d) :
    d ∈ r ∧ d.id = id :=
  ⟨List.mem_of_find?_eq_some h, by simpa using List.find?_some h⟩

theorem has_iff_mem_ids {r : Registry} {id : String} : r.has id = true ↔ id ∈ r.ids := by
  simp [has, get?, ids, List.find?_isSome]

/-- registration takes what is fresh and well formed, and puts it at the end -/
theorem register_eq_ok_iff {r r' : Registry} {d : Definition} :
    r.register d = .ok r' ↔ d.id ∉ r.ids ∧ d.WellFormed ∧ r' = r ++ [d] := by
  rw [← has_iff_mem_ids, ← Definition.fault_eq_none_iff]
  unfold register
  split
  · next h => simp [h]
  · next h =>
    split
    · next fault hf => simp [hf]
    · next hf => simp [h, hf, eq_comm]

theorem WellFormed.register {r r' : Registry} {d : Definition} (h : r.WellFormed)
    (hd : r.register d = .ok r') : r'.WellFormed := by
  obtain ⟨hfresh, hwell, rfl⟩ := register_eq_ok_iff.1 hd
  constructor
  · intro e he
    rcases List.mem_append.1 he with he | he
    · exact h.definitions e he
    · rw [List.mem_singleton.1 he]
      exact hwell
  · simp only [Registry.ids, List.map_append, List.map_cons, List.map_nil]
    refine List.nodup_append.2 ⟨h.ids, by simp, ?_⟩
    intro a ha b hb hab
    rw [List.mem_singleton.1 hb] at hab
    exact hfresh (hab ▸ ha)

theorem WellFormed.registerAll {r : Registry} (h : r.WellFormed) (ds : List Definition) :
    (r.registerAll ds).2.1.WellFormed := by
  induction ds generalizing r with
  | nil => exact h
  | cons d ds ih =>
    simp only [Registry.registerAll]
    split
    · exact h
    · next r' hr => exact ih (h.register hr)

theorem Reachable.wellFormed {r : Registry} (h : r.Reachable) : r.WellFormed := by
  induction h with
  | empty => exact ⟨by simp, List.nodup_nil⟩
  | register _ hd ih => exact ih.register hd
  | registerAll ds _ ih => exact ih.registerAll ds

theorem Reachable.definition {r : Registry} {id : String} {d : Definition} (h : r.Reachable)
    (hd : r.get? id = some d) : d.WellFormed :=
  h.wellFormed.definitions d (get?_eq_some hd).1

end Registry

end LinkedCalls
