import LinkedCalls.Proofs.Answers
import LinkedCalls.Proofs.Published
import LinkedCalls.Proofs.Registration

/-!
Views of the catalog. The list of operations, the docs of each and the schema of all calls show what
the registry took, in the order in which it took it, with one input schema for each operation. As
ids are unique, a call is described by one branch of the schema; as the names of specs are unique in
an operation, none of them hides another among the properties of its input schema.
-/
namespace LinkedCalls

namespace Value

def textAt? (v : Value) (path : List String) : Option String :=
  match v.path? path with
  | some (.text s) => some s
  | _ => none

/-- a property tells the type and the description of a spec, and its default if it has one -/
structure Tells (property : Value) (spec : ParamSpec) : Prop where
  type : property.field? "type" = some (.text spec.type)
  description : property.field? "description" = some (.text spec.description)
  default : property.field? "default" = some spec.default ∧ spec.default ≠ .null ∨
    property.field? "default" = none ∧ spec.default = .null

/-- a schema has a property for each of the specs, in their order, and lists the required ones -/
structure Specifies (schema : Value) (specs : List ParamSpec) : Prop where
  properties : ∃ properties : Table Value, schema.field? "properties" = some (.map properties) ∧
    List.Forall₂ (fun spec property => property.1 = .text spec.name ∧ property.2.Tells spec)
      specs properties ∧
    -- written one after another they are all there
    Table.ofPairs properties = properties
  required : schema.field? "required" =
    some (.texts ((specs.filter (·.required)).map ParamSpec.name))

theorem tells_schema (spec : ParamSpec) : spec.schema.Tells spec where
  type := rfl
  description := rfl
  default := by
    rw [ParamSpec.schema]
    cases hnull : spec.default.isNull with
    | true => exact .inr ⟨rfl, isNull_iff.1 hnull⟩
    | false =>
      refine .inl ⟨rfl, fun hdefault => ?_⟩
      rw [isNull_iff.2 hdefault] at hnull
      cases hnull

end Value

theorem Definition.WellFormed.specifies {d : Definition} (h : d.WellFormed) :
    d.inputSchema.Specifies d.params where
  properties := by
    let properties : Table Value := d.params.map fun spec => (.text spec.name, spec.schema)
    refine ⟨properties, ?_, ?_, ?_⟩
    · show some (Value.record (d.params.map fun spec => (spec.name, spec.schema))) = _
      rw [Value.record, List.map_map]
      rfl
    · rw [List.forall₂_map_right_iff, List.forall₂_same]
      exact fun spec _ => ⟨rfl, Value.tells_schema spec⟩
    · have hkeys : properties.keys = (d.params.map ParamSpec.name).map .text := by
        simp only [Table.keys, properties, List.map_map]
        rfl
      exact ((Table.distinct_iff_nodup hkeys).2 h.names).ofPairs_eq
  required := rfl

def Definition.listing (ds : List Definition) : Value :=
  .record [("count", .int ds.length), ("operations", .list (ds.map Definition.docs))]

namespace Server

variable {host : Host} {args : Arguments} {w : World}

theorem guarded_operationList {tag : Value} (htag : (args.find? "tag").getD .null = tag) :
    Tool.operationList.guarded host args w =
      (.success (Definition.listing (host.registry.tagged tag)), w) := by
  subst htag
  simp only [Tool.guarded, Tool.work, World.operationList, World.reply, Definition.listing]

theorem guarded_operationDescribe {d : Definition} (hd : host.registry.get? d.id = some d)
    (hid : args.find? "op_id" = some (.text d.id)) :
    Tool.operationDescribe.guarded host args w = (.success d.docs, w) := by
  have hdemand : args.demand "op_id" = .ok (.text d.id) := Arguments.demand_eq_ok.2 hid
  have hdocs : Tool.docsOf host.registry (.text d.id) = .ok (.success d.docs) := by
    simp only [Tool.docsOf, Registry.docs_of_get? hd]
  simp only [Tool.guarded, Tool.work, World.operationDescribe, World.reply, hdemand, bind,
    Except.bind, Value.key, Value.toKey?, hdocs]

end Server

namespace Registry

def constPath : List String := ["properties", "op_def_id", "const"]

theorem countP_branches (r : Registry) (id : String) :
    ((r.map Definition.callSchema).countP fun branch => branch.textAt? constPath == some id) =
      r.ids.count id := by
  have hconst : ∀ d : Definition, d.callSchema.textAt? constPath = some d.id := fun _ => rfl
  simp only [List.countP_map, Function.comp_def, hconst, Registry.ids, List.count, Option.some_beq_some]

/-- All views of the catalog show the operations that were taken, in that order. Without a tag the
list shows all of them and with a tag those that carry it, each by its docs; the docs are the same
for one operation asked for by its id. The schema of all calls has a branch for each, with the input
schema that the docs give, and a text is the id of one branch if it is registered and of none
otherwise. An input schema has one property for each spec, in their order, with its type, its
description and its default if it has one, and requires just the specs that are required. -/
theorem views_agree (asked : List Registration) (files : Files) (w : World) :
    let past := asked.foldl enter ([], [])
    let host : Host := { registry := past.2, files := files }
    past.2.ids = past.1.map Definition.id ∧
    (∀ args : Arguments, args.find? "tag" = none →
      Server.call host "operation_list" args w = (.success (Definition.listing past.1), w)) ∧
    (∀ (args : Arguments) (tag : String), tag ≠ "" → args.find? "tag" = some (.text tag) →
      Server.call host "operation_list" args w =
        (.success (Definition.listing (past.1.filter fun d => tag ∈ d.tags)), w)) ∧
    past.2.schema.field? "oneOf" = some (.list (past.1.map Definition.callSchema)) ∧
    (∀ d ∈ past.1, ∀ args : Arguments, args.find? "op_id" = some (.text d.id) →
      Server.call host "operation_describe" args w = (.success d.docs, w)) ∧
    (∀ d ∈ past.1, d.docs.field? "id" = some (.text d.id) ∧
      ∃ schema, d.docs.field? "input_schema" = some schema ∧
        d.callSchema.path? ["properties", "params"] = some schema ∧
        schema.Specifies d.params) ∧
    ∀ id, (((past.1.map Definition.callSchema).countP fun branch =>
        branch.textAt? constPath == some id) =
      if id ∈ past.2.ids then 1 else 0) := by
  intro past host
  have hpast : Holds past := Holds.start.foldl asked
  have hwell : past.2.WellFormed := hpast.wellFormed
  have heq : past.2 = past.1 := hpast.eq
  rw [← heq]
  refine ⟨rfl, fun args htag => ?_, fun args tag hne htag => ?_, rfl, fun d hd args hid => ?_,
    fun d hd => ⟨rfl, d.inputSchema, rfl, rfl, (hwell.definitions d hd).specifies⟩, fun id => ?_⟩
  · have hnone : (args.find? "tag").getD .null = .null := by rw [htag, Option.getD_none]
    exact (Server.call_name host .operationList args w).trans (Server.guarded_operationList hnone)
  · have htext : (args.find? "tag").getD .null = .text tag := by rw [htag, Option.getD_some]
    have htagged : past.2.tagged (.text tag) = past.2.filter fun d => tag ∈ d.tags := by
      simp only [tagged, list, if_neg hne, List.contains_eq_mem]
    rw [← htagged]
    exact (Server.call_name host .operationList args w).trans (Server.guarded_operationList htext)
  · have hget : past.2.get? d.id = some d := (hwell.get?_iff d.id d).2 ⟨hd, rfl⟩
    exact (Server.call_name host .operationDescribe args w).trans
      (Server.guarded_operationDescribe hget hid)
  · rw [countP_branches, hwell.ids.count]

end Registry

end LinkedCalls
