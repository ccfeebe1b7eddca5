import LinkedCalls.Proofs.Answers

/-!
How a call finds its tool. The catalog lists the tools; the server takes the group of a name from
what the name begins with, and the group looks for its tool. A name is refused as unknown exactly if
the catalog does not list it, and by the server itself exactly if it is of no group.
-/
namespace LinkedCalls

def BeginsWith (s lead : String) : Prop := ∃ rest, s = lead ++ rest

theorem beginsWith_iff {s lead : String} :
    BeginsWith s lead ↔ lead.toList.isPrefixOf s.toList = true := by
  rw [List.isPrefixOf_iff_prefix]
  constructor
  · rintro ⟨rest, rfl⟩
    exact ⟨rest.toList, by rw [String.toList_append]⟩
  · rintro ⟨rest, hrest⟩
    refine ⟨String.ofList rest, String.toList_inj.1 ?_⟩
    rw [String.toList_append, String.toList_ofList, hrest]

/-- a catalog has an entry of this name -/
def Value.ListsTool (catalog : Value) (name : String) : Prop :=
  ∃ entries, catalog = .list entries ∧ ∃ e ∈ entries, e.field? "name" = some (.text name)

def ToolGroup.leads : List String := ["operation_", "context_", "program_"]

namespace Tool

theorem mem_all (tool : Tool) : tool ∈ all := by
  cases tool <;> decide

theorem catalog_listsTool_iff {name : String} :
    catalog.ListsTool name ↔ ∃ tool : Tool, tool.name = name := by
  have hname : ∀ tool : Tool, tool.entry.field? "name" = some (.text tool.name) := fun _ => rfl
  constructor
  · rintro ⟨entries, hentries, e, he, hfield⟩
    obtain rfl := Value.list.inj hentries
    obtain ⟨tool, -, rfl⟩ := List.mem_map.1 he
    rw [hname] at hfield
    exact ⟨tool, Scalar.text.inj (Value.scalar.inj (Option.some.inj hfield))⟩
  · rintro ⟨tool, rfl⟩
    exact ⟨_, rfl, tool.entry, List.mem_map_of_mem tool.mem_all, hname tool⟩

theorem unknownTool_not_mem (args : Arguments) (tool : Tool) :
    .unknownTool ∉ .toolError :: tool.refusals args ∧ .unknownTool ∉ tool.failures := by
  cases tool with
  | programLoad =>
    rw [refusals]
    split <;> decide
  | _ => exact ⟨by simp [refusals], by decide⟩

end Tool

theorem ToolGroup.ofName?_eq_none_iff {name : String} :
    ToolGroup.ofName? name = none ↔ ∀ lead ∈ leads, ¬BeginsWith name lead := by
  have hleads : leads.map String.toList = all.map lead := by decide
  have hforall : (∀ lead ∈ leads, ¬BeginsWith name lead) ↔
      ∀ lead ∈ leads.map String.toList, ¬lead.isPrefixOf name.toList = true := by
    rw [List.forall_mem_map]
    exact forall₂_congr fun lead _ => not_congr beginsWith_iff
  rw [hforall, hleads, List.forall_mem_map, ofName?, List.find?_eq_none]

namespace Server

theorem call_of_no_tool (host : Host) {name : String} (h : ∀ tool : Tool, tool.name ≠ name)
    (args : Arguments) (w : World) :
    call host name args w =
      (((ToolGroup.ofName? name).map (ToolGroup.unknown · name)).getD (unknown name), w) := by
  have hlost : ∀ g : ToolGroup, g.tool? name = none := fun g => by
    simp [ToolGroup.tool?, h]
  unfold call dispatch
  cases ToolGroup.ofName? name with
  | none => rfl
  | some g => simp only [ToolGroup.handler, hlost g, Option.map_some, Option.getD_some]

/-- Whatever the name, the arguments and the state: a call is answered with the code for unknown
tools exactly if the catalog has no entry of its name. Then nothing changes, and the answer has a
field for the tool exactly if the name begins as the names of no group do; that field is the name.
-/
theorem unknown_iff_unlisted (host : Host) (name : String) (args : Arguments) (w : World) :
    let answer := (call host name args w).1.toValue
    (answer.errorCode? = some (.text "UNKNOWN_TOOL") ↔ ¬Tool.catalog.ListsTool name) ∧
    (¬Tool.catalog.ListsTool name → (call host name args w).2 = w ∧
      ((∃ v, answer.field? "tool" = some v) ↔ ∀ lead ∈ ToolGroup.leads, ¬BeginsWith name lead) ∧
      ∀ v, answer.field? "tool" = some v → v = .text name) := by
  intro answer
  rw [Tool.catalog_listsTool_iff]
  by_cases htool : ∃ tool : Tool, tool.name = name
  · refine ⟨⟨fun hcode => ?_, fun hnone => absurd htool hnone⟩, fun hnone => absurd htool hnone⟩
    obtain ⟨tool, rfl⟩ := htool
    obtain ⟨hrefusals, hfailures⟩ := tool.unknownTool_not_mem args
    have hanswers := guarded_answers host tool args w
    rw [← call_name] at hanswers
    exact absurd (hanswers.noted_of_code .unknownTool hcode hfailures).1 hrefusals
  · have hcall := call_of_no_tool host (fun tool hname => htool ⟨tool, hname⟩) args w
    have hanswer : answer = _ := congrArg (fun answered => answered.1.toValue) hcall
    rw [hanswer, hcall, ← ToolGroup.ofName?_eq_none_iff]
    cases hgroup : ToolGroup.ofName? name with
    | none =>
      refine ⟨⟨fun _ => htool, fun _ => errorCode?_refused _ _ _ _ _⟩, fun _ =>
        ⟨rfl, ⟨fun _ => rfl, fun _ => ⟨_, rfl⟩⟩, fun v hv => (Option.some.inj hv).symm⟩⟩
    | some g =>
      refine ⟨⟨fun _ => htool, fun _ => errorCode?_refused _ _ _ _ _⟩, fun _ =>
        ⟨rfl, ⟨?_, ?_⟩, ?_⟩⟩
      · rintro ⟨v, ⟨⟩⟩
      · rintro ⟨⟩
      · rintro v ⟨⟩

end Server

namespace Demo

/-- a name that goes on behind that of a tool is one of its group, and unknown to it -/
example :
    (Server.call {} "program_run_all" [] {}).1.toValue.field? "tool" = none ∧
      (Server.call {} "programs" [] {}).1.toValue.field? "tool" = some (.text "programs") :=
  ⟨rfl, rfl⟩

end Demo

end LinkedCalls
