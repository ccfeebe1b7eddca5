import LinkedCalls.Proofs.Assembly
import LinkedCalls.Proofs.Halves

/-!
Programs of several owners. They differ in the ids of their calls only, and no id of one owner is an
id of another: the end of an id tells the operation, and what stands before it tells the owner. So
the programs are loaded side by side, each of them once, and a sweep over all of them has each
owner's greeting written, shown and followed by a poem.
-/
namespace LinkedCalls

namespace HelloWorld

variable {owner owner' delimiter : String}

/-- no operation is the end of another one, so ids are the same only where owners are -/
theorem makeId_inj {a b : String} (ha : a ∈ operations) (hb : b ∈ operations)
    (h : Call.makeId owner delimiter a = Call.makeId owner' delimiter b) :
    owner = owner' ∧ a = b := by
  have hends : ∀ a ∈ operations, ∀ b ∈ operations, a.toList <:+ b.toList → a = b := by
    decide +kernel
  have hid : a.toList <:+ (Call.makeId owner delimiter a).toList :=
    ⟨(owner ++ delimiter).toList, (String.toList_append ..).symm⟩
  have hid' : b.toList <:+ (Call.makeId owner delimiter a).toList :=
    ⟨(owner' ++ delimiter).toList, by rw [h]; exact (String.toList_append ..).symm⟩
  obtain rfl : a = b := by
    rcases List.suffix_or_suffix_of_suffix hid hid' with hend | hend
    · exact hends a ha b hb hend
    · exact (hends b hb a ha hend).symm
  have howners : owner ++ delimiter = owner' ++ delimiter := (String.append_left_inj a).1 h
  exact ⟨(String.append_left_inj delimiter).1 howners, rfl⟩

theorem isIn_makeId {operation : String} (h : operation ∈ operations) :
    Half.isIn (Call.makeId owner delimiter operation) = Half.isIn (owner ++ delimiter) := by
  have hhead : ∀ a ∈ operations, a.toList.head?.bind Half.ofChar? = none := by decide +kernel
  have hwhole : ∀ a ∈ operations, Half.isIn a = false := by decide +kernel
  rw [Call.makeId, Half.isIn_append _ (hhead operation h), hwhole operation h, Bool.or_false]

theorem ofText_makeId (owner delimiter operation : String) (h : operation ∈ operations) :
    Reading.ofText .refused (Call.makeId owner delimiter operation) =
      if Half.isIn (owner ++ delimiter) then .refuse .notUnicode
      else .ok (Call.makeId owner delimiter operation) := by
  have hoperation : ∀ a ∈ operations, a ≠ "" := by decide
  have hfilled : Call.makeId owner delimiter operation ≠ "" := by
    intro hempty
    exact hoperation operation h (String.append_eq_empty_iff.1 hempty).2
  rw [Reading.ofText, isIn_makeId h]
  cases Half.isIn (owner ++ delimiter) with
  | true => rfl
  | false => simp [hfilled]

theorem checked_eq (owner delimiter : String) :
    checked owner delimiter =
      if Half.isIn (owner ++ delimiter) then
        .error ⟨Reading.callModel, [⟨.notUnicode, [.field "call_id"]⟩]⟩
      else .ok (program owner delimiter) := by
  have hset := ofText_makeId owner delimiter setContextId (by decide)
  have hshow := ofText_makeId owner delimiter showDialogId (by decide)
  have hchat := ofText_makeId owner delimiter startChatId (by decide)
  unfold checked program
  simp only [List.mapM_cons, List.mapM_nil, hset, hshow, hchat]
  split
  · rfl
  · rfl

def calls (delimiter : String) (owners : List String) : List Call :=
  owners.flatMap fun owner => (program owner delimiter).calls

theorem makeId_mem_ids_iff {owners : List String} {operation : String}
    (h : operation ∈ operations) :
    Call.makeId owner delimiter operation ∈ (calls delimiter owners).map Call.id ↔
      owner ∈ owners := by
  simp only [calls, List.map_flatMap, List.mem_flatMap, map_id_calls, List.mem_map]
  constructor
  · rintro ⟨other, hother, a, ha, hid⟩
    obtain ⟨rfl, -⟩ := makeId_inj ha h hid
    exact hother
  · intro howner
    exact ⟨owner, howner, operation, h, rfl⟩

theorem load_eq {r : Runner} {owners : List String} (hr : r.calls = calls delimiter owners)
    (owner : String) :
    r.load (program owner delimiter) =
      if owner ∈ owners then .error (.duplicateCall (Call.makeId owner delimiter setContextId))
      else .ok { r with calls := r.calls ++ (program owner delimiter).calls } := by
  have hids : ∀ operation ∈ operations,
      (Call.makeId owner delimiter operation ∈ r.ids ↔ owner ∈ owners) := by
    intro operation hoperation
    rw [Runner.ids, hr]
    exact makeId_mem_ids_iff hoperation
  split
  · next howner =>
    have htaken := (hids setContextId List.mem_cons_self).2 howner
    have hfirst : FirstWithout (fun c : Call => c.id ∉ r.ids) (program owner delimiter).calls _ :=
      ⟨[], _, rfl, by simp, not_not.2 htaken⟩
    exact Runner.load_of_first hfirst
  · next hnew =>
    refine Runner.load_of_fresh fun call hcall => ?_
    have hid : call.id ∈ operations.map (Call.makeId owner delimiter) := by
      rw [← map_id_calls]
      exact List.mem_map_of_mem hcall
    obtain ⟨operation, hoperation, hid⟩ := List.mem_map.1 hid
    rw [← hid]
    exact mt (hids operation hoperation).1 hnew

end HelloWorld

namespace World

variable {setting : Setting} {delimiter : String} {w : World}

/-- the world with a fresh runner into which the programs of these owners were loaded, one after
another, as far as they were taken -/
def hosting (setting : Setting) (stop : Bool) (delimiter : String) (owners : List String)
    (w : World) : World :=
  owners.foldl (fun w owner => (w.act setting (.load (HelloWorld.program owner delimiter))).2)
    { w with runner := { stopOnError := stop } }

theorem act_load {owners : List String} (hw : w.runner.calls = HelloWorld.calls delimiter owners)
    (owner : String) :
    w.act setting (.load (HelloWorld.program owner delimiter)) =
      if owner ∈ owners then ([], w)
      else ([], ({ w with runner := { w.runner with
        calls := w.runner.calls ++ (HelloWorld.program owner delimiter).calls } } : World).note
          [Runner.loaded (HelloWorld.program owner delimiter)]) := by
  rw [act, HelloWorld.load_eq hw]
  split_ifs
  · rfl
  · rfl

/-- each owner's program is taken once, at the owner's first turn -/
theorem noted_hosting (setting : Setting) (stop : Bool) (delimiter : String) (owners : List String)
    (w : World) :
    ({ w with runner := { calls := HelloWorld.calls delimiter owners.eraseDups,
                          stopOnError := stop } } : World).Noted
      (w.hosting setting stop delimiter owners) := by
  induction owners using List.reverseRecOn with
  | nil => exact .refl _
  | append_singleton owners owner ih =>
    have hcalls : (w.hosting setting stop delimiter owners).runner.calls =
        HelloWorld.calls delimiter owners.eraseDups := by
      obtain ⟨journal, hhosting⟩ := ih
      rw [hhosting]
    have hlast : w.hosting setting stop delimiter (owners ++ [owner]) =
        ((w.hosting setting stop delimiter owners).act setting
          (.load (HelloWorld.program owner delimiter))).2 := List.foldl_concat ..
    rw [hlast, act_load hcalls, List.eraseDups_append]
    split_ifs with howner
    · have hnone : [owner].removeAll owners = [] := by
        simpa [List.removeAll] using List.mem_eraseDups.1 howner
      rw [hnone, List.eraseDups_nil, List.append_nil]
      exact ih
    · have hone : [owner].removeAll owners = [owner] := by
        simpa [List.removeAll] using mt List.mem_eraseDups.2 howner
      obtain ⟨journal, hhosting⟩ := ih
      rw [hone, hhosting]
      exact ⟨journal ++ [Runner.loaded (HelloWorld.program owner delimiter)], by
        simp [World.note, HelloWorld.calls, List.eraseDups_cons]⟩

end World

/-- a host with the built-in operations, listeners that do not write, a display that takes every
message and a partner who has something to say to every prompt -/
structure Setting.Obliging (setting : Setting) : Prop where
  registry : setting.registry = Registry.builtin
  quiet : setting.behaviour.Quiet
  shows : ∀ level text, setting.services.display level text = .ok ()
  replies : ∀ prompt, ∃ reply, setting.services.answer prompt = .ok reply ∧
    reply.truthy = true ∧ reply.length?.isSome = true

namespace World

/-- a sweep over the calls succeeds throughout, writes these entries and shows these messages -/
structure Completes (setting : Setting) (calls : List Call) (writes : List (String × Value))
    (messages : List Message) (w : World) : Prop where
  skipped : (w.sweep setting calls).1.skipped = []
  successes : ∀ o ∈ (w.sweep setting calls).1.outcomes, o.success = true
  gains : w.Gains (w.sweep setting calls).2 writes messages

section Completes

variable {setting : Setting} {w : World} {call : Call} {calls : List Call} {e : Effect}
  {writes : List (String × Value)} {messages : List Message}

theorem Completes.nil (setting : Setting) (w : World) : w.Completes setting [] [] [] :=
  ⟨rfl, by simp [sweep], .refl w⟩

theorem Completes.cons (hquiet : setting.behaviour.Quiet) {v : Value}
    (he : call.effect? setting w = some e) (hends : e.ending = .ok v)
    (hrest : ∀ w' : World, w.Gains w' e.writes e.messages →
      w'.Completes setting calls writes messages) :
    w.Completes setting (call :: calls) (e.writes ++ writes) (e.messages ++ messages) := by
  obtain ⟨huntimed, hgains⟩ := Call.attempt_of_effect? hquiet he (nestedRuns setting)
  have hending : (call.attempt setting (nestedRuns setting) w).1.ending = .ok v :=
    (congrArg Outcome.ending huntimed).trans hends
  have hsuccess := Outcome.success_iff.2 ⟨v, hending⟩
  have hsweep : w.sweep setting (call :: calls) = _ := sweep_cons_of_goes_on (.inl hsuccess)
  have hcompletes := hrest _ hgains
  refine ⟨?_, ?_, ?_⟩
  · rw [hsweep]
    exact hcompletes.skipped
  · rw [hsweep]
    exact List.forall_mem_cons.2 ⟨hsuccess, hcompletes.successes⟩
  · rw [hsweep]
    exact hgains.trans hcompletes.gains

end Completes

end World

theorem Table.write_replicate {α : Type} (t : Table α) (s : String) (v : α) (n : Nat) :
    t.write (List.replicate (n + 1) (s, v)) = t.insert (.text s) v := by
  induction n generalizing t with
  | zero => rfl
  | succ n ih => rw [List.replicate_succ, write_cons, ih, insert_insert_self]

namespace HelloWorld

variable {setting : Setting} {delimiter : String}

def message : Message := ⟨.text "Info", .text greeting⟩

/-- what the calls of a program hand over to their operations, the second one if it finds the
greeting written -/
theorem exists_prepared (owner delimiter : String) :
    ∃ first second third, (program owner delimiter).calls = [first, second, third] ∧
      (∀ flags store cache, (first.prepare Registry.builtin flags store cache).2 =
        .ok (Builtin.setContext, [("key", .text key), ("value", .text greeting)])) ∧
      (∀ flags store cache, store.get (.text key) = .text greeting →
        (second.prepare Registry.builtin flags store cache).2 =
          .ok (Builtin.showDialog, [("text", .text greeting), ("level", .text "Info")])) ∧
      ∀ flags store cache, (third.prepare Registry.builtin flags store cache).2 =
        .ok (Builtin.startChat, [("prompt", Builtin.defaultPrompt)]) := by
  refine ⟨_, _, _, rfl, fun flags store cache => ?_, fun flags store cache hwritten => ?_,
    fun flags store cache => ?_⟩
  · rcases flags with ⟨_, _, _ | _⟩
    · rfl
    · rfl
  · -- nothing of the store is read but the greeting, so it might as well be alone there
    let alone : Store := { entries := [(.text key, .text greeting)] }
    have halone (call : Call) (hcall : call.contextKeys = [key]) :
        call.prepare Registry.builtin flags store cache =
          call.prepare Registry.builtin flags alone cache := by
      refine Call.prepare_congr _ ?_ fun _ _ => rfl
      rw [hcall]
      intro k hk
      rw [List.mem_singleton.1 hk, hwritten]
      rfl
    rw [halone _ rfl]
    rcases flags with ⟨_, _, _ | _⟩
    · rfl
    · rfl
  · rcases flags with ⟨_, _, _ | _⟩
    · rfl
    · rfl

theorem exists_effects (h : setting.Obliging) (owner delimiter : String) :
    ∃ first second third, (program owner delimiter).calls = [first, second, third] ∧
      (∀ w, first.effect? setting w =
        some { ending := .ok (.text greeting), writes := [(key, .text greeting)] }) ∧
      (∀ w, w.store.get (.text key) = .text greeting → second.effect? setting w =
        some { ending := .ok .null, messages := [message] }) ∧
      ∃ reply, ∀ w, third.effect? setting w = some { ending := .ok reply } := by
  obtain ⟨first, second, third, hcalls, hfirst, hsecond, hthird⟩ :=
    exists_prepared owner delimiter
  refine ⟨first, second, third, hcalls, fun w => ?_, fun w hw => ?_, ?_⟩
  · rw [Call.effect?, h.registry, hfirst]
    rfl
  · rw [Call.effect?, h.registry, hsecond _ _ _ hw]
    show ((Routine.orFail _ (setting.services.display _ _)).effect? _).map _ = _
    rw [h.shows]
    rfl
  · obtain ⟨reply, hanswer, htruthy, hlength⟩ := h.replies Builtin.defaultPrompt
    refine ⟨reply, fun w => ?_⟩
    rw [Call.effect?, h.registry, hthird]
    show (Routine.orFail _ (setting.services.answer Builtin.defaultPrompt)).effect? _ = _
    rw [hanswer]
    show (ite _ _ _ : Routine).effect? _ = _
    rw [htruthy, if_neg (by decide), if_pos hlength]
    rfl

theorem completes_program (h : setting.Obliging) (owner delimiter : String) {calls : List Call}
    {writes : List (String × Value)} {messages : List Message}
    (hrest : ∀ w : World, w.Completes setting calls writes messages) (w : World) :
    w.Completes setting ((program owner delimiter).calls ++ calls)
      ((key, .text greeting) :: writes) (message :: messages) := by
  obtain ⟨first, second, third, hcalls, hfirst, hsecond, reply, hthird⟩ :=
    exists_effects h owner delimiter
  rw [hcalls]
  refine .cons h.quiet (hfirst w) rfl fun w' hgains => ?_
  have hwritten : w'.store.get (.text key) = .text greeting := by
    have hentries : w'.store.entries = Table.insert w.store.entries (.text key) (.text greeting) :=
      hgains.entries
    rw [Store.get, hentries, Table.find?_insert_text, if_pos rfl]
    rfl
  refine .cons h.quiet (hsecond w' hwritten) rfl fun w' _ => ?_
  exact .cons h.quiet (hthird w') rfl fun w' _ => hrest w'

theorem completes_calls (h : setting.Obliging) (delimiter : String) (owners : List String)
    (w : World) :
    w.Completes setting (calls delimiter owners)
      (List.replicate owners.length (key, .text greeting))
      (List.replicate owners.length message) := by
  induction owners generalizing w with
  | nil => exact .nil setting w
  | cons owner owners ih => exact completes_program h owner delimiter ih w

/-- what comes of a sweep that greets `n` times -/
structure Greets (setting : Setting) (n : Nat) (w : World) : Prop where
  succeeded : (w.runAll setting).1.succeeded = true
  calls : (w.runAll setting).1.outcomes.map Outcome.call = w.runner.ids
  length : (w.runAll setting).1.outcomes.length = 3 * n
  messages : (w.runAll setting).2.messages = w.messages ++ List.replicate n message
  entries : n ≠ 0 → (w.runAll setting).2.store.entries =
    Table.insert w.store.entries (.text key) (.text greeting)

theorem greets_of_calls (h : setting.Obliging) {owners : List String} {w : World}
    (hw : w.runner.calls = calls delimiter owners) : Greets setting owners.length w := by
  have hcompletes := completes_calls h delimiter owners w
  rw [← hw] at hcompletes
  have hids : (w.runAll setting).1.outcomes.map Outcome.call ++ (w.runAll setting).1.skipped =
      w.runner.ids := World.sweep_calls _
  have hskipped : (w.runAll setting).1.skipped = [] := hcompletes.skipped
  rw [hskipped, List.append_nil] at hids
  refine ⟨?_, hids, ?_, hcompletes.gains.messages, fun hsome => ?_⟩
  · rw [RunReport.succeeded, hskipped, List.isEmpty_nil, Bool.true_and, List.all_eq_true]
    exact hcompletes.successes
  · have hlength : w.runner.ids.length = 3 * owners.length := by
      rw [Runner.ids, List.length_map, hw, calls, List.length_flatMap]
      simp [program, Nat.mul_comm]
    rw [← hlength, ← hids, List.length_map]
  · obtain ⟨n, hn⟩ := Nat.exists_eq_succ_of_ne_zero hsome
    have hentries := hcompletes.gains.entries
    rw [hn, Table.write_replicate] at hentries
    exact hentries

end HelloWorld

namespace World

/-- Programs of several owners, loaded one after another into a fresh runner, in any world and with
any delimiter. Each program is built, unless its owner and the delimiter together hold half of a
surrogate pair, which no id may. It is refused exactly if that of its owner was loaded before, as
its first call is there already, and then nothing changes. So each owner's calls are loaded once, in
the order of their first turns, and of the world just the runner and the journal are touched. Where
the host is obliging, a sweep over the calls of `n` owners succeeds with `3 * n` outcomes in that
order; it shows the greeting `n` times, and the store ends as it was but for the greeting under its
key. -/
theorem owners_live_together (setting : Setting) (stop : Bool) (delimiter : String)
    (owners : List String) (w : World) :
    let loaded := w.hosting setting stop delimiter owners
    (∀ owner, HelloWorld.checked owner delimiter =
      if Half.isIn (owner ++ delimiter) then
        .error ⟨Reading.callModel, [⟨.notUnicode, [.field "call_id"]⟩]⟩
      else .ok (HelloWorld.program owner delimiter)) ∧
    (∀ owner, let program := HelloWorld.program owner delimiter
      (∀ failure, loaded.runner.load program = .error failure ↔ owner ∈ owners ∧
        failure = .duplicateCall (Call.makeId owner delimiter setContextId)) ∧
      (owner ∈ owners → loaded.act setting (.load program) = ([], loaded))) ∧
    ({ w with runner := { calls := HelloWorld.calls delimiter owners.eraseDups,
                          stopOnError := stop } } : World).Noted loaded ∧
    (setting.Obliging → HelloWorld.Greets setting owners.eraseDups.length loaded) := by
  intro loaded
  have hnoted := noted_hosting setting stop delimiter owners w
  have hcalls : loaded.runner.calls = HelloWorld.calls delimiter owners.eraseDups := by
    obtain ⟨journal, hloaded⟩ := hnoted
    exact congrArg (fun w : World => w.runner.calls) hloaded
  refine ⟨fun owner => HelloWorld.checked_eq owner delimiter, fun owner => ⟨fun failure => ?_, ?_⟩,
    hnoted, fun hobliging => HelloWorld.greets_of_calls hobliging hcalls⟩
  · rw [HelloWorld.load_eq hcalls]
    simp only [List.mem_eraseDups]
    split_ifs with howner
    · simp [howner, eq_comm]
    · simp [howner]
  · intro howner
    rw [act_load hcalls, if_pos (List.mem_eraseDups.2 howner)]

end World

namespace Demo

def hearty : Setting :=
  { setting with services := { setting.services with chat := some fun _ => .ok (.text "a poem") } }

/-- the ids of the first owner are the ends of those of the others; it turns up twice -/
def guests : List String := ["", "a", "", "a."]

/-- at the second turn the program is refused; the others are greeted one by one -/
theorem guests_greeted :
    hearty.Obliging ∧
      let loaded := World.hosting hearty true "." guests {}
      loaded.runner.load (HelloWorld.program "" ".") = .error (.duplicateCall ".setContext") ∧
        (loaded.runAll hearty).1.succeeded = true ∧
        (loaded.runAll hearty).2.messages = [hailed, hailed, hailed] := by
  have hobliging : hearty.Obliging :=
    ⟨rfl, fun _ _ => trivial, fun _ _ => rfl, fun _ => ⟨_, rfl, rfl, rfl⟩⟩
  obtain ⟨-, hload, ⟨journal, hloaded⟩, hgreets⟩ :=
    World.owners_live_together hearty true "." guests {}
  have hid : Call.makeId "" "." setContextId = ".setContext" := by decide +kernel
  have hrefused := ((hload "").1 _).2 ⟨List.mem_cons_self, rfl⟩
  rw [hid] at hrefused
  have hcount : guests.eraseDups.length = 3 := by decide +kernel
  have hnone : (World.hosting hearty true "." guests {}).messages = [] := by rw [hloaded]
  have hmessages := (hgreets hobliging).messages
  rw [hnone, hcount] at hmessages
  exact ⟨hobliging, hrefused, (hgreets hobliging).succeeded, hmessages⟩

/-- an owner that is half of a surrogate pair -/
theorem halfOwner_refused :
    HelloWorld.checked (String.ofList (Half.chars 0xD800)) "." =
      .error ⟨Reading.callModel, [⟨.notUnicode, [.field "call_id"]⟩]⟩ := by
  rw [HelloWorld.checked_eq, if_pos (by decide +kernel)]

end Demo

end LinkedCalls
