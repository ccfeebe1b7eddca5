import LinkedCalls.Proofs.Answers
import LinkedCalls.Proofs.Moves

/-!
The echo of messages. The answer of a tool that runs calls carries the messages that were shown
meanwhile, whether the calls succeeded or not; no other tool shows any. So the answers of a session
account for all that was shown in it, each message once and by the run that it belongs to.
-/
namespace LinkedCalls

/-- the messages shown so far, as answers carry them -/
def World.shown (w : World) : List Value := w.messages.map Message.toValue

namespace Value

/-- what an answer carries: its data, or the details of its refusal -/
def carried? (answer : Value) : Option Value :=
  if Envelope.isSuccess answer then answer.field? "data"
  else (answer.field? "error").bind (·.field? "details")

def carriedMessages (answer : Value) : List Value :=
  match answer.carried?.bind (·.field? "messages") with
  | some (.list messages) => messages
  | _ => []

end Value

/-- the messages that the answer of a tool echoes; only tools that run calls do so -/
def Server.echoed (tool : String) (answer : Value) : List Value :=
  if tool = "program_run" ∨ tool = "program_run_call" then answer.carriedMessages else []

/-- a tool and what it is called with, while these files are there -/
structure Request where
  tool : String
  args : Arguments
  files : Files := []

/-- the answers to requests one after another, and the world after them -/
def Server.serve (host : Host) : List Request → World → List (Request × Value) × World
  | [], w => ([], w)
  | q :: requests, w =>
    let answered := call { host with files := q.files } q.tool q.args w
    let served := serve host requests answered.2
    ((q, answered.1.toValue) :: served.1, served.2)

theorem Code.truthy_name (code : Code) : (Value.text code.name).truthy = true := by
  cases code <;> rfl

namespace Envelope

variable {code : Code} {message : String}

theorem carried?_success (data warnings : Value) :
    (success data warnings).toValue.carried? = some data := rfl

theorem carried?_refusal {details : Value} (h : details.truthy = true) :
    (refusal code message details).toValue.carried? = some details := by
  have herror : (refusal code message details).toValue.carried? =
    (Refusal.toValue ⟨.text message, .text code.name, details, none⟩).field? "details" := rfl
  rw [herror, Refusal.toValue, fieldIfAny, if_pos code.truthy_name, fieldIfAny, if_pos h]
  rfl

theorem carried?_refusal_null (cause : Option Failure) :
    (refusal code message .null cause).toValue.carried? = none := by
  have herror : (refusal code message .null cause).toValue.carried? =
    (Refusal.toValue ⟨.text message, .text code.name, .null, cause⟩).field? "details" := rfl
  rw [herror, Refusal.toValue, fieldIfAny, if_pos code.truthy_name, Refusal.validation]
  split <;> rfl

theorem carriedMessages_refusal_null (cause : Option Failure) :
    (refusal code message .null cause).toValue.carriedMessages = [] := by
  rw [Value.carriedMessages, carried?_refusal_null]
  rfl

end Envelope

theorem Value.truthy_record_append (fields : List (String × Value)) (f : String × Value) :
    (Value.record (fields ++ [f])).truthy = true := by
  simp [record, truthy]

theorem Outcome.messages_not_mem_fields (o : Outcome) : "messages" ∉ o.fields.map Prod.fst := by
  simp only [fields, List.map_append, List.mem_append, not_or]
  refine ⟨⟨by simp, ?_⟩, ?_⟩
  · split_ifs <;> simp
  · split
    · split_ifs <;> simp
    · simp

namespace Tool

variable {host : Host} {args : Arguments} {w : World}

/-- an answer with the messages since an earlier world echoes what was shown meanwhile -/
theorem shown_of_carried {setting : Setting} {after : World} {answer : Value}
    {fields : List (String × Value)} (hmoves : World.Moves setting True w after)
    (hcarried : answer.carried? = some (.record (fields ++ [("messages", messagesSince w after)])))
    (hnew : "messages" ∉ fields.map Prod.fst) : after.shown = w.shown ++ answer.carriedMessages := by
  have hnone : fields.find? (·.1 == "messages") = none := by
    rw [List.find?_eq_none]
    intro f hf heq
    exact hnew (List.mem_map.2 ⟨f, hf, beq_iff_eq.1 heq⟩)
  have hfound : answer.carriedMessages =
      (after.messages.drop w.messages.length).map Message.toValue := by
    rw [Value.carriedMessages, hcarried, Option.bind_some, field?_record, List.find?_append, hnone]
    rfl
  rw [hfound, World.shown, World.shown, ← List.map_append,
    List.prefix_iff_eq_append.1 hmoves.messages]

theorem guarded_programRun (host : Host) (args : Arguments) (w : World) :
    (programRun.guarded host args w).2.shown =
      w.shown ++ (programRun.guarded host args w).1.toValue.carriedMessages := by
  have hmoves : World.Moves host.setting True w (w.runAll host.setting).2 :=
    World.runAll_moves (.inl trivial) w
  have hnew : "messages" ∉ (w.runAll host.setting).1.fields.map Prod.fst := by
    simp [RunReport.fields]
  unfold guarded work World.programRun
  dsimp only [World.reply]
  split_ifs
  · exact shown_of_carried hmoves (Envelope.carried?_success _ _) hnew
  · exact shown_of_carried hmoves (Envelope.carried?_refusal (Value.truthy_record_append _ _)) hnew

theorem carried?_outcomeEnvelope (outcome : Outcome) (messages : Value) :
    (outcomeEnvelope outcome messages).toValue.carried? =
      some (.record (outcome.fields ++ [("messages", messages)])) := by
  unfold outcomeEnvelope
  dsimp only
  split
  · exact Envelope.carried?_success _ _
  · exact Envelope.carried?_refusal (Value.truthy_record_append _ _)

theorem guarded_programRunCall (host : Host) (args : Arguments) (w : World) :
    (programRunCall.guarded host args w).2.shown =
      w.shown ++ (programRunCall.guarded host args w).1.toValue.carriedMessages := by
  rcases hkey : (args.demand "call_id").bind Value.key with failure | id
  · simp only [guarded, work, World.programRunCall, hkey, World.reply, Envelope.broken,
      Envelope.carriedMessages_refusal_null, List.append_nil]
    rfl
  · rcases hcall : w.runner.call? id with _ | call
    · rcases programRunCall_of_none host.setting hkey hcall with hdid | ⟨message, hdid⟩
      · simp only [guarded, work, hdid, Envelope.broken, Envelope.carriedMessages_refusal_null,
          List.append_nil]
        rfl
      · simp only [guarded, work, hdid, Envelope.carriedMessages_refusal_null, List.append_nil]
    · have hloaded : call.id ∈ w.runner.ids := List.mem_map_of_mem (World.mem_of_callWithId hcall)
      have hmoves : World.Moves host.setting True w
          (call.attempt host.setting (World.nestedRuns host.setting) w).2 :=
        World.attempt_moves (.inl trivial) (.inr hloaded)
      simp only [guarded, work, World.programRunCall, hkey, World.reply, World.runCall_eq, hcall]
      exact shown_of_carried hmoves (carried?_outcomeEnvelope _ _)
        (Outcome.messages_not_mem_fields _)

theorem contextSet_shown (setting : Setting) (args : Arguments) (w : World) :
    (w.contextSet setting args).2.shown = w.shown := by
  rcases contextSet_cases setting args w with ⟨key, v, -, -, -, hset⟩ | ⟨hsame, -⟩
  · rw [hset]
    rfl
  · rw [hsame]

theorem guarded_shown (host : Host) {tool : Tool} (hrun : tool ≠ .programRun)
    (hrunCall : tool ≠ .programRunCall) (args : Arguments) (w : World) :
    (tool.guarded host args w).2.shown = w.shown := by
  have hwork : (tool.work host args w).2.shown = w.shown := by
    cases tool with
    | contextSet => exact contextSet_shown host.setting args w
    | programLoad =>
      obtain ⟨runner, journal, hloaded⟩ := programLoad_leaves host.files args w
      rw [work, hloaded]
      rfl
    | programRun => exact absurd rfl hrun
    | programRunCall => exact absurd rfl hrunCall
    | _ => rfl
  obtain ⟨journal, hnoted⟩ := tool.work_noted host args w
  rw [hnoted]
  exact hwork

end Tool

namespace Server

/-- what is shown during a call of a tool is echoed in its answer, and nothing else is -/
theorem call_echoes (host : Host) (name : String) (args : Arguments) (w : World) :
    (call host name args w).2.shown =
      w.shown ++ echoed name (call host name args w).1.toValue := by
  rcases call_cases host name args w with ⟨hnone, hsame, -⟩ | ⟨tool, rfl, hcall⟩
  · have hechoed : ∀ answer, echoed name answer = [] := fun answer =>
      if_neg (not_or.2 ⟨(hnone .programRun).symm, (hnone .programRunCall).symm⟩)
    rw [hsame, hechoed, List.append_nil]
  · rw [hcall]
    by_cases hrun : tool = .programRun
    · subst hrun
      exact Tool.guarded_programRun host args w
    · by_cases hrunCall : tool = .programRunCall
      · subst hrunCall
        exact Tool.guarded_programRunCall host args w
      · have hechoed : ∀ answer, echoed tool.name answer = [] := fun answer =>
          if_neg (not_or.2 ⟨fun h => hrun (Tool.name_injective h),
            fun h => hrunCall (Tool.name_injective h)⟩)
        rw [hechoed, List.append_nil]
        exact Tool.guarded_shown host hrun hrunCall args w

/-- with these codes an answer says that nothing was shown -/
theorem call_shown_of_code (host : Host) (name : String) (args : Arguments) (w : World)
    (hcode : (call host name args w).1.toValue.errorCode? = some (.text "UNKNOWN_CALL") ∨
      (call host name args w).1.toValue.errorCode? = some (.text "TOOL_ERROR")) :
    (call host name args w).2.shown = w.shown := by
  by_cases hname : name = Tool.contextSet.name
  · subst hname
    rw [call_name]
    exact Tool.guarded_shown host (by decide) (by decide) args w
  · obtain ⟨journal, hnoted⟩ := call_noted_of_code host args w hname hcode
    rw [hnoted]
    rfl

variable (host : Host)

theorem serve_append (before after : List Request) (w : World) :
    serve host (before ++ after) w =
      ((serve host before w).1 ++ (serve host after (serve host before w).2).1,
        (serve host after (serve host before w).2).2) := by
  induction before generalizing w with
  | nil => rfl
  | cons q before ih => simp only [List.cons_append, serve, ih]

theorem serve_shown (requests : List Request) (w : World) :
    (serve host requests w).2.shown =
      w.shown ++ (serve host requests w).1.flatMap fun a => echoed a.1.tool a.2 := by
  induction requests generalizing w with
  | nil => exact (List.append_nil _).symm
  | cons q requests ih =>
    simp only [serve, List.flatMap_cons]
    rw [ih, call_echoes, List.append_assoc]

theorem serve_requests (requests : List Request) (w : World) :
    (serve host requests w).1.map Prod.fst = requests := by
  induction requests generalizing w with
  | nil => rfl
  | cons q requests ih => simp only [serve, List.map_cons, ih]

/-- In every session, whatever tools are called with whatever arguments: the messages that the answers
of runs echo, one answer after another, are all the messages shown, in the order in which they were
shown. Each answer echoes what was shown between the call that it answers and itself; an answer for
which nothing was run has nothing to echo. -/
theorem session_echoes (requests : List Request) (flags : Flags) (ticks : List Binary64) :
    let start := World.start flags ticks
    let served := serve host requests start
    served.1.map Prod.fst = requests ∧
    (served.1.flatMap fun a => echoed a.1.tool a.2) = served.2.shown ∧
    ∀ before q after, requests = before ++ q :: after →
      let earlier := serve host before start
      let answered := call { host with files := q.files } q.tool q.args earlier.2
      let answer := answered.1.toValue
      served.1 = earlier.1 ++ (q, answer) :: (serve host after answered.2).1 ∧
      answered.2.shown = earlier.2.shown ++ echoed q.tool answer ∧
      (answer.errorCode? = some (.text "UNKNOWN_CALL") ∨
        answer.errorCode? = some (.text "TOOL_ERROR") →
          echoed q.tool answer = [] ∧ answered.2.shown = earlier.2.shown) := by
  intro start served
  refine ⟨serve_requests host requests start, (serve_shown host requests start).symm, ?_⟩
  rintro before q after hrequests earlier answered answer
  have hechoes : answered.2.shown = earlier.2.shown ++ echoed q.tool answer := call_echoes _ _ _ _
  refine ⟨?_, hechoes, ?_⟩
  · simp only [served, hrequests, serve_append]
    rfl
  · intro hcode
    have hsame : answered.2.shown = earlier.2.shown := call_shown_of_code _ _ _ _ hcode
    exact ⟨List.append_right_eq_self.1 (hechoes.symm.trans hsame), hsame⟩

/-- the greeting of the demonstration is echoed by the run that shows it, and again when it is shown
again; loading has nothing to echo -/
example :
    (serve {}
      [⟨"program_load", [(.text "demo", .text "hello_world")], []⟩, ⟨"program_run", [], []⟩,
        ⟨"program_run_call", [(.text "call_id", .text "transformer.showDialog")], []⟩]
      (.start .allOn [])).1.map (fun a => (echoed a.1.tool a.2).length) = [0, 1, 1] := by
  decide +kernel

end Server

end LinkedCalls
