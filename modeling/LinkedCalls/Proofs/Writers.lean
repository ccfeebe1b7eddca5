import LinkedCalls.Proofs.Echo
import LinkedCalls.Proofs.Traces

/-!
Who writes the context of a server. A key stands in the store after a session exactly if a request
put it there: by setting it, or through the run of a call that sets the context. The tool refuses
the empty key and the format of programs has no link to it, but the operation writes it: so the
store can hold a text that no link can name, and if it does, a run put it there.
-/
namespace LinkedCalls

/-- a run of a call amid others: the world that it starts in, and its outcome -/
structure Turn where
  call : Call
  here : World
  outcome : Outcome

namespace Turn

/-- the run set the context under this key, which may have come through a link -/
structure Sets (t : Turn) (key : String) : Prop where
  operation : t.outcome.operation = setContextId
  success : t.outcome.success = true
  key : t.call.supplied t.here "key" = .text key

def write? (t : Turn) : Option (String × Value) := t.outcome.write? (t.call.supplied t.here "key")

theorem write?_eq_some {t : Turn} {key : String} {v : Value} :
    t.write? = some (key, v) ↔ t.Sets key ∧ v = t.outcome.result := by
  unfold write? Outcome.write?
  constructor
  · intro h
    split at h
    · next found hfound =>
      obtain ⟨⟨hoperation, hsuccess⟩, hwritten⟩ := Option.ite_none_right_eq_some.1 h
      obtain ⟨rfl, rfl⟩ := Prod.mk.inj (Option.some.inj hwritten)
      exact ⟨⟨hoperation, hsuccess, hfound⟩, rfl⟩
    · cases h
  · rintro ⟨hsets, rfl⟩
    rw [hsets.key]
    exact if_pos ⟨hsets.operation, hsets.success⟩

theorem mem_writes {turns : List Turn} {key : String} :
    key ∈ (turns.filterMap write?).map Prod.fst ↔ ∃ t ∈ turns, t.Sets key := by
  simp only [List.mem_map, List.mem_filterMap, Prod.exists, exists_and_right, exists_eq_right]
  constructor
  · rintro ⟨v, t, ht, hwrite⟩
    exact ⟨t, ht, (write?_eq_some.1 hwrite).1⟩
  · rintro ⟨t, ht, hsets⟩
    exact ⟨_, t, ht, write?_eq_some.2 ⟨hsets, rfl⟩⟩

end Turn

namespace World

/-- the runs of a sweep over the loaded calls -/
def turns (setting : Setting) (w : World) : List Turn :=
  w.gathered setting (fun call here o => some ⟨call, here, o⟩) w.runner.calls

theorem sweptWrites_eq (setting : Setting) (w : World) :
    w.sweptWrites setting = (w.turns setting).filterMap Turn.write? := by
  unfold sweptWrites turns gathered
  rw [List.filterMap_filterMap]
  refine List.filterMap_congr fun e _ => ?_
  cases w.runner.calls[e.2]? with
  | none => rfl
  | some call => rfl

def called? (w : World) (args : Arguments) : Option Call :=
  match (args.demand "call_id").bind Value.key with
  | .error _ => none
  | .ok id => w.runner.call? id

def turnOf (setting : Setting) (w : World) (call : Call) : Turn :=
  ⟨call, w, (call.attempt setting (nestedRuns setting) w).1⟩

theorem programRunCall_snd (setting : Setting) (args : Arguments) (w : World) :
    (w.programRunCall setting args).2 =
      match w.called? args with
      | none => w
      | some call => (call.attempt setting (nestedRuns setting) w).2 := by
  rcases hkey : (args.demand "call_id").bind Value.key with failure | id
  · simp only [programRunCall, called?, hkey]
    rfl
  · rcases hcall : w.runner.call? id with _ | call
    · simp only [called?, hkey, hcall]
      rcases Tool.programRunCall_of_none setting hkey hcall with hdid | ⟨message, hdid⟩
      · rw [hdid]
      · rw [hdid]
    · simp only [programRunCall, called?, hkey, runCall_eq, hcall]
      rfl

end World

namespace Request

def host (q : Request) : Host := { files := q.files }

def next (q : Request) (w : World) : World := (Server.call q.host q.tool q.args w).2

/-- the request is to set an entry under this key -/
structure Sets (q : Request) (key : String) : Prop where
  tool : q.tool = Tool.contextSet.name
  names : q.args.find? "key" = some (.text key)
  gives : (q.args.find? "value").isSome = true

end Request

def Tool.turns (setting : Setting) (args : Arguments) (w : World) : Tool → List Turn
  | .programRun => w.turns setting
  | .programRunCall => (w.called? args).toList.map (w.turnOf setting)
  | _ => []

/-- the runs that a request sets off; a name that is no tool's sets none off -/
def Request.turns (q : Request) (w : World) : List Turn :=
  ((Tool.ofName? q.tool).map (Tool.turns q.host.setting q.args w)).getD []

/-- the request puts a key into the store: by itself, if that is not empty, or through a run -/
def Request.Writes (q : Request) (w : World) (key : String) : Prop :=
  key ≠ "" ∧ q.Sets key ∨ ∃ t ∈ q.turns w, t.Sets key

namespace Tool

theorem ofName?_name (tool : Tool) : Tool.ofName? tool.name = some tool := by
  cases tool <;> decide

theorem ofName?_eq_none {name : String} (h : ∀ tool : Tool, tool.name ≠ name) :
    Tool.ofName? name = none := by
  simp [ofName?, h]

theorem contextSet_has {setting : Setting} (hquiet : setting.behaviour.Quiet) (args : Arguments)
    (w : World) (key : String) :
    (w.contextSet setting args).2.store.has (.text key) = true ↔
      w.store.has (.text key) = true ∨ key ≠ "" ∧ args.find? "key" = some (.text key) ∧
        (args.find? "value").isSome = true := by
  rcases contextSet_cases setting args w with ⟨k, v, hkey, hvalue, htruthy, hset⟩ | ⟨hsame, hnone⟩
  · have hentries := Store.change_set hquiet k v w.store
    have hhas : (w.contextSet setting args).2.store.has (.text key) =
        Table.has (Table.insert w.store.entries k v) (.text key) := by
      rw [hset, ← hentries]
      rfl
    rw [hhas, Table.has_insert_text, hkey, hvalue]
    refine or_congr_right ⟨?_, ?_⟩
    · rintro rfl
      exact ⟨by simpa [Scalar.truthy] using htruthy, rfl, rfl⟩
    · rintro ⟨-, heq, -⟩
      exact Value.scalar.inj (Option.some.inj heq)
  · rw [hsame]
    refine (or_iff_left ?_).symm
    rintro ⟨hnonempty, hkey, hvalue⟩
    obtain ⟨v, hv⟩ := Option.isSome_iff_exists.1 hvalue
    have hfalsy := hnone _ v hkey hv
    simp [Scalar.truthy, hnonempty] at hfalsy

end Tool

section Runs

variable {setting : Setting} (hregistry : setting.registry = Registry.builtin)
  (hquiet : setting.behaviour.Quiet)
  (hshows : ∀ level text, setting.services.display level text = .ok ())
include hregistry hquiet hshows

theorem World.runAll_has (w : World) (key : String) :
    (w.runAll setting).2.store.has (.text key) = true ↔
      w.store.has (.text key) = true ∨ ∃ t ∈ w.turns setting, t.Sets key := by
  have hgains := sweep_gains hregistry hquiet hshows w.runner.calls w
  have hentries : (w.runAll setting).2.store.entries =
      Table.write w.store.entries (w.sweptWrites setting) := hgains.entries
  rw [Store.has, hentries, Table.has_write_iff, World.sweptWrites_eq, Turn.mem_writes, Store.has]

theorem World.attempt_has (call : Call) (w : World) (key : String) :
    (call.attempt setting (nestedRuns setting) w).2.store.has (.text key) = true ↔
      w.store.has (.text key) = true ∨ (w.turnOf setting call).Sets key := by
  have hgains := call.attempt_gains hregistry hquiet hshows w (nestedRuns setting)
  have hwrites : ((call.attempt setting (nestedRuns setting) w).1.write?
      (call.supplied w "key")).toList = [w.turnOf setting call].filterMap Turn.write? := by
    rw [List.filterMap_cons, List.filterMap_nil]
    unfold Turn.write? World.turnOf
    dsimp only
    cases Outcome.write? _ _ <;> rfl
  rw [Store.has, hgains.entries, hwrites, Table.has_write_iff, Turn.mem_writes, Store.has]
  simp

end Runs

namespace Request

variable (q : Request) (w : World)

theorem host_quiet : q.host.setting.behaviour.Quiet := fun _ _ => trivial

theorem programRun_has (key : String) :
    (Tool.programRun.work q.host q.args w).2.store.has (.text key) = true ↔
      w.store.has (.text key) = true ∨
        ∃ t ∈ Tool.programRun.turns q.host.setting q.args w, t.Sets key :=
  World.runAll_has rfl q.host_quiet (fun _ _ => rfl) w key

theorem programRunCall_has (key : String) :
    (Tool.programRunCall.work q.host q.args w).2.store.has (.text key) = true ↔
      w.store.has (.text key) = true ∨
        ∃ t ∈ Tool.programRunCall.turns q.host.setting q.args w, t.Sets key := by
  rw [Tool.work, World.programRunCall_snd, Tool.turns]
  rcases w.called? q.args with _ | call
  · simp
  · have hregistry : q.host.setting.registry = Registry.builtin := rfl
    have hattempt := World.attempt_has hregistry q.host_quiet (fun _ _ => rfl) call w key
    simpa using hattempt

variable {q w} {tool : Tool} {key : String}

theorem turns_eq (htool : q.tool = tool.name) :
    q.turns w = tool.turns q.host.setting q.args w := by
  rw [turns, htool, Tool.ofName?_name]
  rfl

theorem writes_iff_given (htool : q.tool = Tool.contextSet.name) :
    q.Writes w key ↔ key ≠ "" ∧ q.args.find? "key" = some (.text key) ∧
      (q.args.find? "value").isSome = true := by
  rw [Writes, turns_eq htool, or_iff_left (by simp [Tool.turns])]
  exact and_congr_right fun _ => ⟨fun h => ⟨h.names, h.gives⟩, fun h => ⟨htool, h.1, h.2⟩⟩

theorem writes_iff_turns (htool : q.tool = tool.name) (hne : tool ≠ .contextSet) :
    q.Writes w key ↔ ∃ t ∈ tool.turns q.host.setting q.args w, t.Sets key := by
  have hnot : ¬(key ≠ "" ∧ q.Sets key) := fun h =>
    hne (Tool.name_injective (htool.symm.trans h.2.tool))
  rw [Writes, turns_eq htool, or_iff_right hnot]

/-- a tool that is called adds the keys that the request writes, and erases none -/
theorem work_has (htool : q.tool = tool.name) :
    (tool.work q.host q.args w).2.store.has (.text key) = true ↔
      w.store.has (.text key) = true ∨ q.Writes w key := by
  cases tool with
  | contextSet =>
    rw [writes_iff_given htool]
    exact Tool.contextSet_has q.host_quiet q.args w key
  | programRun =>
    rw [writes_iff_turns htool (by decide)]
    exact q.programRun_has w key
  | programRunCall =>
    rw [writes_iff_turns htool (by decide)]
    exact q.programRunCall_has w key
  | programLoad =>
    obtain ⟨runner, journal, hloaded⟩ := Tool.programLoad_leaves q.host.files q.args w
    rw [writes_iff_turns htool (by decide), Tool.work, hloaded]
    exact (or_iff_left (by simp [Tool.turns])).symm
  -- what is left only reads the world
  | _ =>
    rw [writes_iff_turns htool (by decide)]
    exact (or_iff_left (by simp [Tool.turns])).symm

/-- a request adds the keys that it writes, and erases none -/
theorem next_has :
    (q.next w).store.has (.text key) = true ↔ w.store.has (.text key) = true ∨ q.Writes w key := by
  rcases Server.call_cases q.host q.tool q.args w with ⟨hnone, hsame, -⟩ | ⟨tool, htool, hcall⟩
  · have hnot : ¬q.Writes w key := by
      rintro (⟨-, hsets⟩ | ⟨t, ht, -⟩)
      · exact hnone .contextSet hsets.tool.symm
      · rw [turns, Tool.ofName?_eq_none hnone] at ht
        cases ht
    rw [next, hsame, or_iff_left hnot]
  · obtain ⟨journal, hnoted⟩ := tool.work_noted q.host q.args w
    rw [next, hcall, hnoted]
    exact work_has htool.symm

variable (q w)

theorem host_leavesRunner : q.host.setting.LeavesRunner := Builtin.leavesRunner rfl

theorem contextSet_calls :
    (Tool.contextSet.work q.host q.args w).2.runner.calls = w.runner.calls := by
  rcases Tool.contextSet_cases q.host.setting q.args w with ⟨k, v, -, -, -, hset⟩ | ⟨hsame, -⟩
  · rw [Tool.work, hset]
    rfl
  · rw [Tool.work, hsame]

theorem programRun_calls :
    (Tool.programRun.work q.host q.args w).2.runner.calls = w.runner.calls := by
  have hrunner := World.runAll_runner q.host_leavesRunner w
  exact (congrArg Runner.calls hrunner).trans (Runner.settleAll_calls _ _)

theorem programRunCall_calls :
    (Tool.programRunCall.work q.host q.args w).2.runner.calls = w.runner.calls := by
  rw [Tool.work, World.programRunCall_snd]
  rcases w.called? q.args with _ | call
  · rfl
  · have hrunner := Call.attempt_runner q.host_leavesRunner
      (World.nestedRuns q.host.setting) call w
    exact (congrArg Runner.calls hrunner).trans (Runner.settle_calls _ _ _)

theorem programLoad_calls :
    ∀ call ∈ (Tool.programLoad.work q.host q.args w).2.runner.calls,
      call ∈ w.runner.calls ∨ call.Valid := by
  have hloads := Tool.programLoad_loads q.host.files q.args w
  unfold Tool.work
  generalize w.programLoad q.host.files q.args = deed at hloads
  cases hloads with
  | @load program runner data events hoffers hload =>
    intro call hcall
    have hcalls : runner.calls =
        (w.cleared (q.args.gives "replace")).runner.calls ++ program.calls :=
      congrArg Runner.calls (Runner.load_eq_ok hload)
    rcases List.mem_append.1 (hcalls ▸ hcall) with hbefore | hloaded
    · refine .inl ?_
      unfold World.cleared at hbefore
      split at hbefore
      · cases hbefore
      · exact hbefore
    · exact .inr (hoffers.valid.calls call hloaded)
  | _ => exact fun call hcall => .inl hcall

theorem work_calls (tool : Tool) :
    ∀ call ∈ (tool.work q.host q.args w).2.runner.calls, call ∈ w.runner.calls ∨ call.Valid := by
  cases tool with
  | contextSet => exact fun call hcall => .inl (q.contextSet_calls w ▸ hcall)
  | programRun => exact fun call hcall => .inl (q.programRun_calls w ▸ hcall)
  | programRunCall => exact fun call hcall => .inl (q.programRunCall_calls w ▸ hcall)
  | programLoad => exact q.programLoad_calls w
  | _ => exact fun call hcall => .inl hcall

theorem next_calls :
    ∀ call ∈ (q.next w).runner.calls, call ∈ w.runner.calls ∨ call.Valid := by
  rcases Server.call_cases q.host q.tool q.args w with ⟨-, hsame, -⟩ | ⟨tool, htool, hcall⟩
  · rw [next, hsame]
    exact fun call hcall => .inl hcall
  · obtain ⟨journal, hnoted⟩ := tool.work_noted q.host q.args w
    rw [next, hcall, hnoted]
    exact q.work_calls w tool

end Request

namespace Server

theorem serve_cons (q : Request) (requests : List Request) (w : World) :
    (serve {} (q :: requests) w).2 = (serve {} requests (q.next w)).2 := rfl

/-- the keys after a session are those before it and those that its requests write -/
theorem serve_has (requests : List Request) (w : World) (key : String) :
    (serve {} requests w).2.store.has (.text key) = true ↔
      w.store.has (.text key) = true ∨ ∃ before q after, requests = before ++ q :: after ∧
        q.Writes (serve {} before w).2 key := by
  induction requests generalizing w with
  | nil => simp [serve]
  | cons first requests ih =>
    rw [serve_cons, ih, Request.next_has, or_assoc]
    refine or_congr_right ⟨?_, ?_⟩
    · rintro (hwrites | ⟨before, q, after, rfl, hwrites⟩)
      · exact ⟨[], first, requests, rfl, hwrites⟩
      · exact ⟨first :: before, q, after, rfl, hwrites⟩
    · rintro ⟨before, q, after, heq, hwrites⟩
      rcases List.cons_eq_append_iff.1 heq with ⟨rfl, hhead⟩ | ⟨before, rfl, rfl⟩
      · obtain ⟨rfl, rfl⟩ := List.cons.inj hhead
        exact .inl hwrites
      · exact .inr ⟨before, q, after, rfl, hwrites⟩

theorem serve_calls {w : World} (hw : ∀ call ∈ w.runner.calls, call.Valid)
    (requests : List Request) :
    ∀ call ∈ (serve {} requests w).2.runner.calls, call.Valid := by
  induction requests generalizing w with
  | nil => exact hw
  | cons q requests ih =>
    refine ih fun call hcall => ?_
    rcases q.next_calls _ call hcall with hcall | hvalid
    · exact hw call hcall
    · exact hvalid

theorem call_of_emptyKey {q : Request} (htool : q.tool = Tool.contextSet.name)
    (hkey : q.args.find? "key" = some (.text "")) (w : World) :
    call q.host q.tool q.args w =
      (.refusal .invalidKey "Context key must not be empty", w) := by
  have hrefused : Tool.contextSet.work q.host q.args w =
      (.ok (.refusal .invalidKey "Context key must not be empty"), w) := by
    simp only [Tool.work, World.contextSet, Arguments.demand, hkey]
    rfl
  rcases call_cases q.host q.tool q.args w with ⟨hnone, -, -⟩ | ⟨tool, hname, hcall⟩
  · exact absurd htool.symm (hnone .contextSet)
  · obtain rfl : tool = .contextSet := Tool.name_injective (hname.trans htool)
    rw [hcall, Tool.guarded, hrefused]

/-- Of every session with a server: a text is a key of its context exactly if a request set an entry
under it, and it is not empty, or a request ran a call that set the context under it. The tool
refuses the empty key in every state, and no call that is ever loaded has a link to it; but runs
write it as any other. -/
theorem session_keys (requests : List Request) (flags : Flags) (ticks : List Binary64) :
    let start := World.start flags ticks
    let served := serve {} requests start
    (∀ key, served.2.store.has (.text key) = true ↔
      ∃ before q after, requests = before ++ q :: after ∧
        (key ≠ "" ∧ q.Sets key ∨
          ∃ t ∈ q.turns (serve {} before start).2, t.Sets key)) ∧
    (∀ q : Request, q.tool = "context_set" → q.args.find? "key" = some (.text "") →
      call q.host q.tool q.args served.2 =
        (.refusal .invalidKey "Context key must not be empty", served.2)) ∧
    ∀ call ∈ served.2.runner.calls, ∀ p ∈ call.params, p.link ≠ some (.contextKey "") := by
  intro start served
  refine ⟨fun key => ?_, fun q htool hkey => ?_, fun call hcall p hp hlink => ?_⟩
  · have hempty : ¬start.store.has (.text key) = true := by
      rintro ⟨⟩
    exact (serve_has requests start key).trans (or_iff_right hempty)
  · exact call_of_emptyKey htool hkey served.2
  · have hvalid : call.Valid := serve_calls (by rintro _ ⟨⟩) requests call hcall
    exact ((hvalid.params p hp).link _ hlink).1 rfl

end Server

namespace Demo

def unnamed : Value :=
  .record [("name", .text "unnamed"), ("calls", .list [.record [
    ("call_id", .text "a"), ("op_def_id", .text "setContext"), ("params", .list [
      .record [("name", .text "key"), ("value", .text "")],
      .record [("name", .text "value"), ("value", .text "hidden")]])]])]

/-- the program is loaded and run, and the store has a key that no link can name -/
theorem unnamed_kept :
    let served := Server.serve {}
      [⟨"program_load", [(.text "program", unnamed)], []⟩, ⟨"program_run", [], []⟩]
      (.start .allOn [])
    served.2.store.has (.text "") = true ∧ ¬(Link.contextKey "").Valid :=
  ⟨by decide +kernel, fun hvalid => hvalid.1 rfl⟩

end Demo

end LinkedCalls
