import LinkedCalls.Proofs.Roundtrip
import LinkedCalls.Proofs.Schema

/-!
Programs as mappings. The mapping of a valid program holds no null and is read as the program. It is
in normal form: its fields are those of the format, in the order of the format, and nothing that can
be left out is null. There is one mapping in normal form for each valid program.
-/
namespace LinkedCalls

namespace Value

/-- it stands somewhere in the other value, at any depth, be it as a key -/
inductive Within (x : Value) : Value → Prop where
  | self : Within x x
  | item {items : List Value} {v : Value} : v ∈ items → Within x v → Within x (.list items)
  | key {entries : List (Scalar × Value)} {e : Scalar × Value} :
      e ∈ entries → Within x (.scalar e.1) → Within x (.map entries)
  | entry {entries : List (Scalar × Value)} {e : Scalar × Value} :
      e ∈ entries → Within x e.2 → Within x (.map entries)

/-- a mapping with some of the named fields, in this order, none of them null -/
def Lists (v : Value) (names : List String) : Prop :=
  ∃ fields, v = .record fields ∧ (fields.map Prod.fst).Sublist names ∧ ∀ f ∈ fields, f.2 ≠ .null

def IsNormalLink (v : Value) : Prop :=
  v.Lists ["type", "param_name", "context_key"] ∨ v.Lists ["type", "param_name", "target_call_id"]

structure IsNormalParam (v : Value) : Prop where
  fields : v.Lists ["name", "value", "link"]
  link : ∀ l, v.field? "link" = some l → l.IsNormalLink

/-- a call has all its fields -/
structure IsNormalCall (v : Value) : Prop where
  fields : v.Lists ["call_id", "op_def_id", "description", "params"]
  description : v.field? "description" ≠ none
  params : ∃ items, v.field? "params" = some (.list items) ∧ ∀ item ∈ items, item.IsNormalParam

/-- a program has all its fields but for the description, which may be missing -/
structure IsNormalProgram (v : Value) : Prop where
  fields : v.Lists ["name", "description", "calls"]
  calls : ∃ items, v.field? "calls" = some (.list items) ∧ ∀ item ∈ items, item.IsNormalCall

section Null

theorem not_within_scalar {s : Scalar} (h : s ≠ .null) : ¬null.Within (.scalar s) := by
  rintro ⟨⟩
  exact h rfl

theorem not_within_list {items : List Value} (h : ∀ v ∈ items, ¬null.Within v) :
    ¬null.Within (.list items) := by
  rintro (_ | ⟨hv, hnull⟩)
  exact h _ hv hnull

theorem not_within_record {fields : List (String × Value)} (h : ∀ f ∈ fields, ¬null.Within f.2) :
    ¬null.Within (.record fields) := by
  rintro (_ | _ | ⟨he, hnull⟩ | ⟨he, hnull⟩)
  · obtain ⟨f, -, rfl⟩ := List.mem_map.1 he
    exact not_within_scalar (by rintro ⟨⟩) hnull
  · obtain ⟨f, hf, rfl⟩ := List.mem_map.1 he
    exact h f hf hnull

end Null

theorem field?_record_cons (f : String × Value) (fields : List (String × Value)) (name : String) :
    (record (f :: fields)).field? name =
      if f.1 = name then some f.2 else (record fields).field? name := by
  rw [field?_record, field?_record, List.find?_cons]
  by_cases hname : f.1 = name
  · rw [if_pos hname, beq_iff_eq.2 hname]
    rfl
  · rw [if_neg hname, beq_eq_false_iff_ne.2 hname]

theorem field?_record_of_not_mem {fields : List (String × Value)} {names : List String}
    {name : String} (hsub : (fields.map Prod.fst).Sublist names) (hname : name ∉ names) :
    (record fields).field? name = none := by
  rw [field?_record, Option.map_eq_none_iff, List.find?_eq_none]
  intro f hf heq
  exact hname (beq_iff_eq.1 heq ▸ hsub.subset (List.mem_map_of_mem hf))

/-- the fields of a record are found by going over names among which theirs stand in their order -/
theorem eq_filterMap_field? {fields : List (String × Value)} {names : List String}
    (hsub : (fields.map Prod.fst).Sublist names) (hnodup : names.Nodup) :
    fields = names.filterMap fun name => ((record fields).field? name).map (name, ·) := by
  induction names generalizing fields with
  | nil => exact List.map_eq_nil_iff.1 (List.sublist_nil.1 hsub)
  | cons name names ih =>
    obtain ⟨hname, hrest⟩ := List.nodup_cons.1 hnodup
    rcases List.sublist_cons_iff.1 hsub with hsub | ⟨later, hfields, hsub⟩
    · rw [List.filterMap_cons, field?_record_of_not_mem hsub hname]
      exact ih hsub hrest
    · obtain ⟨f, fields, rfl, rfl, rfl⟩ := List.map_eq_cons_iff.1 hfields
      have hlater : ∀ later ∈ names, ((record (f :: fields)).field? later).map (later, ·) =
          ((record fields).field? later).map (later, ·) := by
        intro later hlater
        rw [field?_record_cons, if_neg]
        rintro rfl
        exact hname hlater
      rw [List.filterMap_cons, field?_record_cons, if_pos rfl, List.filterMap_congr hlater,
        ← ih hsub hrest]
      rfl

namespace Lists

variable {v w : Value} {names : List String} {name : String}

theorem field?_ne_null (h : v.Lists names) : v.field? name ≠ some .null := by
  obtain ⟨fields, rfl, -, hnull⟩ := h
  rw [field?_record]
  intro hsome
  obtain ⟨f, hf, heq⟩ := Option.map_eq_some_iff.1 hsome
  exact hnull f (List.mem_of_find?_eq_some hf) heq

theorem field?_of_not_mem (h : v.Lists names) (hname : name ∉ names) : v.field? name = none := by
  obtain ⟨fields, rfl, hsub, -⟩ := h
  exact field?_record_of_not_mem hsub hname

theorem ext (hv : v.Lists names) (hw : w.Lists names) (hnodup : names.Nodup)
    (h : ∀ name ∈ names, v.field? name = w.field? name) : v = w := by
  obtain ⟨fields, rfl, hfields, -⟩ := hv
  obtain ⟨fields', rfl, hfields', -⟩ := hw
  rw [eq_filterMap_field? hfields hnodup, eq_filterMap_field? hfields' hnodup,
    List.filterMap_congr fun name hname => by rw [h name hname]]

end Lists

end Value

section Export

theorem mem_optionalField {name : String} {value : Value} {f : String × Value}
    (h : f ∈ optionalField .omitted name value) : f.2 = value ∧ value ≠ .null := by
  refine ⟨eq_of_mem_optionalField h, fun hnull => ?_⟩
  rw [hnull] at h
  cases h

theorem Link.isNormal_toValue (param : String) (l : Link) : (l.toValue param).IsNormalLink := by
  cases l with
  | contextKey key => exact .inl ⟨_, rfl, List.Sublist.refl _, by simp⟩
  | operation target => exact .inr ⟨_, rfl, List.Sublist.refl _, by simp⟩

theorem Param.isNormal_toValue (p : Param) : (p.toValue .omitted).IsNormalParam where
  fields := by
    refine ⟨p.fields, rfl, p.names_fields, fun f hf => ?_⟩
    rw [Param.fields, List.cons_append, List.mem_cons, List.mem_append] at hf
    rcases hf with rfl | hf | hf
    · rintro ⟨⟩
    · exact (mem_optionalField hf).1 ▸ (mem_optionalField hf).2
    · exact (mem_optionalField hf).1 ▸ (mem_optionalField hf).2
  link := by
    intro v hv
    rw [p.field?_link] at hv
    obtain ⟨l, -, rfl⟩ := Option.map_eq_some_iff.1 hv
    exact l.isNormal_toValue p.name

theorem Call.isNormal_toValue (c : Call) : (c.toValue .omitted).IsNormalCall where
  fields := ⟨_, rfl, List.Sublist.refl _, by simp⟩
  description := by rintro ⟨⟩
  params := by
    refine ⟨_, rfl, fun item hitem => ?_⟩
    obtain ⟨p, -, rfl⟩ := List.mem_map.1 hitem
    exact p.isNormal_toValue

theorem Program.isNormal_toValue (p : Program) : (p.toValue .omitted).IsNormalProgram where
  fields := by
    refine ⟨p.fields, p.toValue_eq, p.names_fields, fun f hf => ?_⟩
    rw [Program.fields, List.cons_append, List.mem_cons, List.mem_append, List.mem_singleton] at hf
    rcases hf with rfl | hf | rfl
    · rintro ⟨⟩
    · exact (mem_optionalField hf).1 ▸ (mem_optionalField hf).2
    · rintro ⟨⟩
  calls := by
    refine ⟨_, p.field?_calls, fun item hitem => ?_⟩
    obtain ⟨c, -, rfl⟩ := List.mem_map.1 hitem
    exact c.isNormal_toValue

theorem Link.not_within_toValue (param : String) (l : Link) :
    ¬Value.null.Within (l.toValue param) := by
  cases l with
  | contextKey key =>
    refine Value.not_within_record fun f hf => ?_
    simp only [List.mem_cons, List.not_mem_nil, or_false] at hf
    rcases hf with rfl | rfl | rfl <;> exact Value.not_within_scalar (by rintro ⟨⟩)
  | operation target =>
    refine Value.not_within_record fun f hf => ?_
    simp only [List.mem_cons, List.not_mem_nil, or_false] at hf
    rcases hf with rfl | rfl | rfl <;> exact Value.not_within_scalar (by rintro ⟨⟩)

theorem Param.not_within_toValue (p : Param) : ¬Value.null.Within (p.toValue .omitted) := by
  have hrecord : p.toValue .omitted = .record p.fields := rfl
  rw [hrecord]
  refine Value.not_within_record fun f hf => ?_
  rw [Param.fields, List.cons_append, List.mem_cons, List.mem_append] at hf
  rcases hf with rfl | hf | hf
  · exact Value.not_within_scalar (by rintro ⟨⟩)
  · obtain ⟨heq, hne⟩ := mem_optionalField hf
    rw [heq]
    exact Value.not_within_scalar fun hnull => hne (congrArg Value.scalar hnull)
  · obtain ⟨heq, hne⟩ := mem_optionalField hf
    rw [heq]
    cases hl : p.link with
    | none => exact absurd (by rw [hl]; rfl) hne
    | some l => exact l.not_within_toValue p.name

theorem Call.not_within_toValue (c : Call) : ¬Value.null.Within (c.toValue .omitted) := by
  refine Value.not_within_record fun f hf => ?_
  simp only [List.mem_cons, List.not_mem_nil, or_false] at hf
  rcases hf with rfl | rfl | rfl | rfl
  · exact Value.not_within_scalar (by rintro ⟨⟩)
  · exact Value.not_within_scalar (by rintro ⟨⟩)
  · exact Value.not_within_scalar (by rintro ⟨⟩)
  · refine Value.not_within_list fun item hitem => ?_
    obtain ⟨p, -, rfl⟩ := List.mem_map.1 hitem
    exact p.not_within_toValue

theorem Program.not_within_toValue (p : Program) : ¬Value.null.Within (p.toValue .omitted) := by
  rw [p.toValue_eq]
  refine Value.not_within_record fun f hf => ?_
  rw [Program.fields, List.cons_append, List.mem_cons, List.mem_append, List.mem_singleton] at hf
  rcases hf with rfl | hf | rfl
  · exact Value.not_within_scalar (by rintro ⟨⟩)
  · obtain ⟨heq, hne⟩ := mem_optionalField hf
    rw [heq]
    cases hd : p.description with
    | none => exact absurd (by rw [hd]) hne
    | some s => exact Value.not_within_scalar (by rintro ⟨⟩)
  · rw [← Call.map_toValue]
    refine Value.not_within_list fun item hitem => ?_
    obtain ⟨c, -, rfl⟩ := List.mem_map.1 hitem
    exact c.not_within_toValue

end Export

section Unique

namespace Value

theorem DescribesLink.eq_toValue {v : Value} {param : String} {l : Link}
    (h : v.DescribesLink param l) (hnormal : v.IsNormalLink) : v = l.toValue param := by
  cases h with
  | contextKey htype hparam hkey _ =>
    rcases hnormal with hv | hv
    · refine hv.ext ⟨_, rfl, List.Sublist.refl _, by simp⟩ (by decide) fun name hname => ?_
      simp only [List.mem_cons, List.not_mem_nil, or_false] at hname
      rcases hname with rfl | rfl | rfl
      · exact htype
      · exact hparam
      · exact hkey
    · rw [hv.field?_of_not_mem (by decide)] at hkey
      cases hkey
  | operation htype hparam htarget _ =>
    rcases hnormal with hv | hv
    · rw [hv.field?_of_not_mem (by decide)] at htarget
      cases htarget
    · refine hv.ext ⟨_, rfl, List.Sublist.refl _, by simp⟩ (by decide) fun name hname => ?_
      simp only [List.mem_cons, List.not_mem_nil, or_false] at hname
      rcases hname with rfl | rfl | rfl
      · exact htype
      · exact hparam
      · exact htarget

theorem DescribesParam.eq_toValue {v : Value} {p : Param} (h : v.DescribesParam p)
    (hnormal : v.IsNormalParam) : v = p.toValue .omitted := by
  refine hnormal.fields.ext p.isNormal_toValue.fields (by decide) fun name hname => ?_
  simp only [List.mem_cons, List.not_mem_nil, or_false] at hname
  rcases hname with rfl | rfl | rfl
  · exact h.name
  · rw [p.field?_value]
    rcases h.value with hvalue | ⟨hmissing, hnull⟩
    · have hne : p.value.isNull ≠ true := by
        intro hnull
        have hnone : Value.scalar p.value = .null := Value.isNull_iff.1 hnull
        exact hnormal.fields.field?_ne_null (hnone ▸ hvalue)
      rw [if_neg hne, hvalue]
    · rw [hmissing, hnull]
      rfl
  · rw [p.field?_link]
    rcases h.link with ⟨hmissing | hnull, hl⟩ | ⟨x, l, hx, hl, hdescribes⟩
    · rw [hmissing, hl]
      rfl
    · exact absurd hnull hnormal.fields.field?_ne_null
    · rw [hx, hl, hdescribes.eq_toValue (hnormal.link x hx)]
      rfl

theorem eq_map_of_forall₂ {α : Type} {Describes : Value → α → Prop} {IsNormal : Value → Prop}
    {f : α → Value} (hf : ∀ v x, Describes v x → IsNormal v → v = f x) {items : List Value}
    {xs : List α} (h : List.Forall₂ Describes items xs) (hnormal : ∀ v ∈ items, IsNormal v) :
    items = xs.map f := by
  induction h with
  | nil => rfl
  | cons hx _ ih =>
    obtain ⟨hfirst, hrest⟩ := List.forall_mem_cons.1 hnormal
    rw [List.map_cons, ← hf _ _ hx hfirst, ← ih hrest]

theorem field?_eq_map {α : Type} {Describes : Value → α → Prop} {IsNormal : Value → Prop}
    {f : α → Value} (hf : ∀ v x, Describes v x → IsNormal v → v = f x) {found : Option Value}
    {xs : List α}
    (h : (∃ items, found = some (.list items) ∧ List.Forall₂ Describes items xs) ∨
      found = none ∧ xs = [])
    (hnormal : ∃ items, found = some (.list items) ∧ ∀ v ∈ items, IsNormal v) :
    found = some (.list (xs.map f)) := by
  obtain ⟨items, hitems, hall⟩ := hnormal
  rcases h with ⟨items', hitems', hdescribe⟩ | ⟨hmissing, -⟩
  · obtain rfl : items = items' := by simpa using hitems.symm.trans hitems'
    rw [hitems, eq_map_of_forall₂ hf hdescribe hall]
  · rw [hmissing] at hitems
    cases hitems

theorem DescribesCall.eq_toValue {v : Value} {c : Call} (h : v.DescribesCall c)
    (hnormal : v.IsNormalCall) : v = c.toValue .omitted := by
  refine hnormal.fields.ext c.isNormal_toValue.fields (by decide) fun name hname => ?_
  simp only [List.mem_cons, List.not_mem_nil, or_false] at hname
  rcases hname with rfl | rfl | rfl | rfl
  · exact h.id
  · exact h.operation
  · exact h.description.resolve_right fun hmissing => hnormal.description hmissing.1
  · exact field?_eq_map (fun _ _ => DescribesParam.eq_toValue) h.params hnormal.params

theorem DescribesProgram.eq_toValue {v : Value} {p : Program} (h : v.DescribesProgram p)
    (hnormal : v.IsNormalProgram) : v = p.toValue .omitted := by
  refine hnormal.fields.ext p.isNormal_toValue.fields (by decide) fun name hname => ?_
  simp only [List.mem_cons, List.not_mem_nil, or_false] at hname
  rcases hname with rfl | rfl | rfl
  · exact h.name
  · rw [p.field?_description]
    rcases h.description with ⟨hmissing | hnull, hd⟩ | ⟨s, hs, hd⟩
    · rw [hmissing, hd]
      rfl
    · exact absurd hnull hnormal.fields.field?_ne_null
    · rw [hs, hd]
      rfl
  · rw [p.field?_calls]
    exact field?_eq_map (fun _ _ => DescribesCall.eq_toValue) h.calls hnormal.calls

end Value

end Unique

namespace Program

theorem Valid.read_toValue {p : Program} (h : p.Valid) : read (p.toValue .omitted) = .ok p := by
  rw [read, Reading.report_eq_ok, Reading.program_eq_ok]
  exact h.describes

/-- Programs are written as mappings without loss and in one way only. What is written for a valid
program holds no null at any depth and is read as the program itself, with every value and every
link of the same kind. It is in normal form, and nothing else in normal form is read as the program:
nothing with other fields, with the fields in another order, or with a null. So whatever a program
was read from, with unknown fields, nulls and fields in any order, what is written for it is read as
that program and written again as it stands. -/
theorem toValue_is_normal_form :
    (∀ p : Program, p.Valid →
      ¬Value.null.Within (p.toValue .omitted) ∧ read (p.toValue .omitted) = .ok p) ∧
    (∀ (v : Value) (p : Program),
      read v = .ok p ∧ v.IsNormalProgram ↔ p.Valid ∧ v = p.toValue .omitted) ∧
    ∀ (α : Type) [Source α] (x : α) (p : Program), read x = .ok p →
      read (p.toValue .omitted) = .ok p ∧
        ∀ q, read (p.toValue .omitted) = .ok q → q.toValue .omitted = p.toValue .omitted := by
  refine ⟨fun p hp => ⟨p.not_within_toValue, hp.read_toValue⟩, fun v p => ⟨?_, ?_⟩, ?_⟩
  · rintro ⟨hread, hnormal⟩
    have hdescribes := hread
    rw [read, Reading.report_eq_ok, Reading.program_eq_ok] at hdescribes
    exact ⟨valid_of_read hread, hdescribes.eq_toValue hnormal⟩
  · rintro ⟨hp, rfl⟩
    exact ⟨hp.read_toValue, p.isNormal_toValue⟩
  · intro α _ x p hx
    have hread := (valid_of_read hx).read_toValue
    refine ⟨hread, fun q hq => ?_⟩
    obtain rfl : p = q := Except.ok.inj (hread.symm.trans hq)
    rfl

end Program

namespace Demo

/-- a program with a link, values of three kinds and texts that look like something else is written
and read again -/
theorem keepsakes_written :
    keepsakes.Valid ∧ ¬Value.null.Within (keepsakes.toValue .omitted) ∧
      Program.read (keepsakes.toValue .omitted) = .ok keepsakes := by
  obtain ⟨hvalid, -, -⟩ := Program.toValue_is_normal_form
  exact ⟨keepsakes_valid, hvalid keepsakes keepsakes_valid⟩

end Demo

end LinkedCalls
