import LinkedCalls.Proofs.Answers
import LinkedCalls.Proofs.Rerun

/-!
How a runner is assembled. Its calls are those added since the last reset, one by one or with a
program, in the order in which they were added, and no two of them share an id. A program is loaded
as a whole or not at all: the ids of a valid program differ from each other, so where none of them is
there already no call takes the place of another.
-/
namespace LinkedCalls

/-- what can be asked of a runner that is being filled -/
inductive Assembly where
  | add (call : Call)
  | load (program : Program)
  | reset

/-- writes a call under its id: in the place of the call that has it, or else at the end -/
def Call.put : List Call → Call → List Call
  | [], call => [call]
  | c :: calls, call => if c.id = call.id then call :: calls else c :: put calls call

theorem Call.put_of_not_mem {calls : List Call} {call : Call}
    (h : call.id ∉ calls.map Call.id) : put calls call = calls ++ [call] := by
  induction calls with
  | nil => rfl
  | cons c calls ih =>
    obtain ⟨hc, hcalls⟩ := not_or.1 (mt List.mem_cons.2 h)
    rw [put, if_neg (Ne.symm hc), ih hcalls, List.cons_append]

theorem Call.foldl_put {calls more : List Call} (hmore : (more.map Call.id).Nodup)
    (hfresh : ∀ call ∈ more, call.id ∉ calls.map Call.id) : more.foldl put calls = calls ++ more := by
  induction more generalizing calls with
  | nil => exact (List.append_nil calls).symm
  | cons call more ih =>
    obtain ⟨hcall, hmore⟩ := List.nodup_cons.1 hmore
    obtain ⟨hfirst, hfresh⟩ := List.forall_mem_cons.1 hfresh
    rw [List.foldl_cons, put_of_not_mem hfirst, ih hmore, List.append_assoc]
    · rfl
    · intro later hlater hmem
      rw [List.map_append, List.mem_append] at hmem
      rcases hmem with hmem | hmem
      · exact hfresh later hlater hmem
      · exact hcall (List.mem_singleton.1 hmem ▸ List.mem_map_of_mem hlater)

theorem callWithId_eq_some_iff {calls : List Call} (h : (calls.map Call.id).Nodup) (id : String)
    (call : Call) : callWithId calls (.text id) = some call ↔ call ∈ calls ∧ call.id = id :=
  find?_eq_some_iff_of_nodup h

namespace Runner

/-- a call is added at the end, unless there is one with its id -/
structure Adds (r : Runner) (call : Call) : Prop where
  refused : ∀ failure, r.add call = .error failure ↔
    call.id ∈ r.ids ∧ failure = .duplicateCall call.id
  added : call.id ∉ r.ids → r.add call = .ok { r with calls := r.calls ++ [call] }

/-- a program is added at the end as a whole, unless there is a call with an id of its calls; the
first of these is then named -/
structure Loads (r : Runner) (program : Program) : Prop where
  refused_iff : (∃ failure, r.load program = .error failure) ↔
    ∃ call ∈ program.calls, call.id ∈ r.ids
  refused : ∀ failure, r.load program = .error failure ↔
    ∃ call, FirstWithout (fun c => c.id ∉ r.ids) program.calls call ∧
      failure = .duplicateCall call.id
  loaded : (∀ call ∈ program.calls, call.id ∉ r.ids) →
    ∃ r', r.load program = .ok r' ∧ r'.calls = r.calls ++ program.calls ∧
      r'.calls = program.calls.foldl Call.put r.calls ∧ r'.results = r.results ∧
      ∀ call ∈ program.calls, r'.call? (.text call.id) = some call ∧
        program.find (.text call.id) = .ok (some call)

/-- a step with a runner of which it is known what was added since the last reset -/
def enter (past : List Call × Runner) : Assembly → List Call × Runner
  | .add call =>
    match past.2.add call with
    | .ok r => (past.1 ++ [call], r)
    | .error _ => past
  | .load program =>
    match past.2.load program with
    | .ok r => (past.1 ++ program.calls, r)
    | .error _ => past
  | .reset => ([], past.2.reset)

theorem adds (r : Runner) (call : Call) : r.Adds call where
  refused := by
    intro failure
    unfold add
    split
    · next h => simp [(r.has_iff call.id).1 h, eq_comm]
    · next h => simp [mt (r.has_iff call.id).2 h]
  added := by
    intro h
    rw [add, if_neg (mt (r.has_iff call.id).1 h)]

theorem load_of_first {r : Runner} {program : Program} {call : Call}
    (h : FirstWithout (fun c => c.id ∉ r.ids) program.calls call) :
    r.load program = .error (.duplicateCall call.id) := by
  obtain ⟨before, after, hcalls, hbefore, hcall⟩ := h
  have hsome : program.calls.find? (r.has ·.id) = some call := by
    rw [List.find?_eq_some_iff_append]
    refine ⟨(r.has_iff call.id).2 (not_not.1 hcall), before, after, hcalls, fun c hc => ?_⟩
    rw [Bool.not_eq_true', Bool.eq_false_iff]
    exact mt (r.has_iff c.id).1 (hbefore c hc)
  unfold load
  rw [hsome]

theorem nodup_append {r : Runner} (hr : r.ids.Nodup) {calls : List Call}
    (hcalls : (calls.map Call.id).Nodup) (hfresh : ∀ call ∈ calls, call.id ∉ r.ids) :
    ((r.calls ++ calls).map Call.id).Nodup := by
  rw [List.map_append]
  refine List.nodup_append.2 ⟨hr, hcalls, fun id hid id' hid' heq => ?_⟩
  obtain ⟨call, hcall, rfl⟩ := List.mem_map.1 hid'
  exact hfresh call hcall (heq ▸ hid)

theorem loads {r : Runner} (hr : r.ids.Nodup) {program : Program} (h : program.Valid) :
    r.Loads program where
  refused_iff := by
    constructor
    · rintro ⟨failure, hfails⟩
      by_contra hnone
      push Not at hnone
      rw [load_of_fresh hnone] at hfails
      cases hfails
    · rintro ⟨call, hcall, hmem⟩
      obtain ⟨first, hfirst⟩ := exists_firstWithout (P := fun c : Call => c.id ∉ r.ids)
        fun hall => hall call hcall hmem
      exact ⟨_, load_of_first hfirst⟩
  refused := by
    intro failure
    constructor
    · intro hfails
      have hnot : ¬∀ call ∈ program.calls, call.id ∉ r.ids := by
        intro hfresh
        rw [load_of_fresh hfresh] at hfails
        cases hfails
      obtain ⟨first, hfirst⟩ := exists_firstWithout hnot
      rw [load_of_first hfirst] at hfails
      exact ⟨first, hfirst, (Except.error.inj hfails).symm⟩
    · rintro ⟨call, hfirst, rfl⟩
      exact load_of_first hfirst
  loaded := by
    intro hfresh
    refine ⟨_, load_of_fresh hfresh, rfl, (Call.foldl_put h.ids hfresh).symm, rfl, ?_⟩
    intro call hcall
    constructor
    · exact (callWithId_eq_some_iff (nodup_append hr h.ids hfresh) _ _).2
        ⟨List.mem_append_right _ hcall, rfl⟩
    · exact congrArg Except.ok ((callWithId_eq_some_iff h.ids _ _).2 ⟨hcall, rfl⟩)

/-- the calls are those added, under ids of their own -/
structure Holds (past : List Call × Runner) : Prop where
  eq : past.2.calls = past.1
  ids : past.2.ids.Nodup

theorem Holds.enter {past : List Call × Runner} (h : Holds past) {step : Assembly}
    (hvalid : ∀ program, step = .load program → program.Valid) : Holds (enter past step) := by
  cases step with
  | add call =>
    simp only [Runner.enter]
    by_cases hmem : call.id ∈ past.2.ids
    · rw [((adds past.2 call).refused _).2 ⟨hmem, rfl⟩]
      exact h
    · rw [(adds past.2 call).added hmem]
      have hcalls : past.2.calls ++ [call] = past.1 ++ [call] := by rw [h.eq]
      exact ⟨hcalls, nodup_append h.ids (List.nodup_singleton _) (by simpa using hmem)⟩
  | load program =>
    simp only [Runner.enter]
    by_cases hfresh : ∀ call ∈ program.calls, call.id ∉ past.2.ids
    · rw [load_of_fresh hfresh]
      have hcalls : past.2.calls ++ program.calls = past.1 ++ program.calls := by rw [h.eq]
      exact ⟨hcalls, nodup_append h.ids (hvalid program rfl).ids hfresh⟩
    · obtain ⟨first, hfirst⟩ := exists_firstWithout hfresh
      rw [load_of_first hfirst]
      exact h
  | reset => exact ⟨rfl, List.nodup_nil⟩

theorem Holds.foldl {past : List Call × Runner} (h : Holds past) (steps : List Assembly)
    (hvalid : ∀ program, .load program ∈ steps → program.Valid) :
    Holds (steps.foldl Runner.enter past) := by
  induction steps generalizing past with
  | nil => exact h
  | cons step steps ih =>
    have hstep : ∀ program, step = .load program → program.Valid := by
      rintro program rfl
      exact hvalid program List.mem_cons_self
    exact ih (h.enter hstep) fun program hmem => hvalid program (List.mem_cons_of_mem _ hmem)

/-- After any sequence of additions, loads of valid programs and resets of a fresh runner, refusals
included: its calls are those added since the last reset, in that order and under different ids, and
each is found under its own. A call is refused exactly if its id is there, a program exactly if the
id of one of its calls is, and then nothing of it is added; otherwise all of it is, and what the
runner finds under the ids of its calls is what the program finds. -/
theorem assembled_calls (stop : Bool) (steps : List Assembly)
    (hvalid : ∀ program, .load program ∈ steps → program.Valid) :
    let past := steps.foldl enter ([], { stopOnError := stop })
    let r := past.2
    r.calls = past.1 ∧ r.ids.Nodup ∧
    (∀ id call, r.call? (.text id) = some call ↔ call ∈ r.calls ∧ call.id = id) ∧
    (∀ call, r.Adds call ∧
      ∀ failure, r.add call = .error failure → enter past (.add call) = past) ∧
    ∀ program : Program, program.Valid → r.Loads program ∧
      ∀ failure, r.load program = .error failure → enter past (.load program) = past := by
  intro past r
  have hstart : Holds ([], { stopOnError := stop }) := ⟨rfl, List.nodup_nil⟩
  have hpast : Holds past := hstart.foldl steps hvalid
  refine ⟨hpast.eq, hpast.ids, callWithId_eq_some_iff hpast.ids, ?_, ?_⟩
  · intro call
    refine ⟨adds r call, fun failure hfails => ?_⟩
    have hrefused : past.2.add call = .error failure := hfails
    simp only [enter, hrefused]
  · intro program hprogram
    refine ⟨loads hpast.ids hprogram, fun failure hfails => ?_⟩
    have hrefused : past.2.load program = .error failure := hfails
    simp only [enter, hrefused]

end Runner

namespace Demo

/-- two calls added to those of a program, the second under an id that is taken -/
def extended : List Assembly :=
  [.load hello, .add { showReply with id := "demo.once" }, .add showReply]

/-- the first is added, the second is not; nor is the program loaded again -/
theorem extended_assembled :
    (∀ program, .load program ∈ extended → program.Valid) ∧
      let past := extended.foldl Runner.enter ([], { stopOnError := true })
      past.2.calls = past.1 ∧ past.1 = hello.calls ++ [{ showReply with id := "demo.once" }] ∧
        past.2.load hello = .error (.duplicateCall "demo.setContext") := by
  have hchecked : HelloWorld.checked "demo" "." = .ok hello := by decide +kernel
  have hvalid : hello.Valid := HelloWorld.checked_valid hchecked
  have hextended : ∀ program, .load program ∈ extended → program.Valid := by
    intro program hmem
    have heq : program = hello := by simpa [extended] using hmem
    exact heq ▸ hvalid
  obtain ⟨hcalls, -, -, -, hloads⟩ := Runner.assembled_calls true extended hextended
  refine ⟨hextended, hcalls, rfl, ?_⟩
  exact ((hloads hello hvalid).1.refused _).2 ⟨_, ⟨[], _, rfl, by simp, by decide +kernel⟩, rfl⟩

end Demo

end LinkedCalls
