import LinkedCalls.Proofs.Rerun

/-!
The traces of a sweep of built-in operations. Each call that sets the context and succeeds writes
its result under its key, each dialog that succeeds shows one message, and nothing else is written
or shown. Keys, levels and texts are those that the call supplies in the world that the calls before
it leave.
-/
namespace LinkedCalls

namespace Call

/-- what a call supplies under a name when it runs in a world -/
def supplied (call : Call) (w : World) (name : String) : Value :=
  call.current w.store (Results.kept.others call w) name

def level (call : Call) (w : World) : Value :=
  if (call.supplied w "level").isNull then Builtin.defaultLevel else call.supplied w "level"

end Call

namespace Outcome

/-- the entry that a run with this outcome writes, where it found `key` as its key -/
def write? (o : Outcome) (key : Value) : Option (String × Value) :=
  match key with
  | .text k => if o.operation = setContextId ∧ o.success = true then some (k, o.result) else none
  | _ => none

/-- the message that a run with this outcome shows -/
def shown? (o : Outcome) (level text : Value) : Option Message :=
  if o.operation = showDialogId ∧ o.success = true then some ⟨level, text⟩ else none

theorem write?_of_not {o : Outcome} (h : ¬(o.operation = setContextId ∧ o.success = true))
    (key : Value) : o.write? key = none := by
  unfold write?
  split
  · rw [if_neg h]
  · rfl

theorem shown?_of_not {o : Outcome} (h : ¬(o.operation = showDialogId ∧ o.success = true))
    (level text : Value) : o.shown? level text = none := if_neg h

end Outcome

namespace Builtin

variable {registry : Registry} {flags : Flags} {call : Call}

theorem level_of_not_wrong {p : Param} (h : wrongLevel p = false) (hname : p.name = "level")
    (hlink : p.link = none) : p.value = .null ∨ ∃ level ∈ levels, p.value = .text level := by
  have hunlinked : p.isLinked = false := by rw [Param.isLinked, hlink]; rfl
  rw [wrongLevel, hname, hunlinked] at h
  cases hvalue : p.value with
  | null => exact .inl rfl
  | text s =>
    rw [hvalue] at h
    obtain ⟨level, hlevel, hsame⟩ := List.any_eq_true.1 (by simpa [Scalar.isNull] using h)
    obtain rfl : level = s := by simpa [Scalar.same] using hsame
    exact .inr ⟨level, hlevel, rfl⟩
  | _ => simp [hvalue, Scalar.isNull, Scalar.same, levels, Scalar.toInt?] at h

theorem not_wrong_of_unobjected (h : call.Unobjected registry flags)
    (hregistered : registry.get? call.operation = some showDialog) {p : Param}
    (hp : p ∈ call.params) : wrongLevel p = false := by
  obtain ⟨-, -, hpasses⟩ := (Call.unobjected_iff hregistered).1 h
  exact inspectDialog_passes_iff.1 (hpasses inspectDialog rfl) p hp

end Builtin

/-- what a run of a call that ends in the world `next` with an outcome does to the entries and the
messages of the world `here` -/
structure Call.Traces (call : Call) (here next : World) (o : Outcome) : Prop where
  writes : o.operation = setContextId → o.success = true →
    ∃ key, call.supplied here "key" = .text key ∧
      next.store.entries = Table.insert here.store.entries (.text key) o.result
  leaves : ¬(o.operation = setContextId ∧ o.success = true) →
    next.store.entries = here.store.entries
  shows : o.operation = showDialogId → o.success = true →
    ∃ text, call.supplied here "text" = .text text ∧
      next.messages = here.messages ++ [⟨call.level here, .text text⟩]
  silent : ¬(o.operation = showDialogId ∧ o.success = true) → next.messages = here.messages
  level : o.operation = showDialogId → o.success = true →
    (∀ p, call.lastParam? "level" = some p → p.link = none) →
      ∃ level ∈ Builtin.levels, call.level here = .text level
  linked : ∀ name p key, call.lastParam? name = some p → p.link = some (.contextKey key) →
    call.supplied here name = here.store.get (.text key)

namespace World

/-- what is found turn by turn in a sweep: from each call that it gets to, with the world that the
call starts in and its outcome -/
def gathered {α : Type} (setting : Setting) (find : Call → World → Outcome → Option α)
    (calls : List Call) (w : World) : List α :=
  (w.sweep setting calls).1.outcomes.zipIdx.filterMap fun e =>
    calls[e.2]?.bind fun call => find call (w.sweep setting (calls.take e.2)).2 e.1

/-- the entries that the successful calls to set the context write, in the order of the sweep -/
def sweptWrites (setting : Setting) (w : World) : List (String × Value) :=
  w.gathered setting (fun call here o => o.write? (call.supplied here "key")) w.runner.calls

/-- the messages that the successful dialogs show, in the order of the sweep -/
def sweptMessages (setting : Setting) (w : World) : List Message :=
  w.gathered setting (fun call here o => o.shown? (call.level here) (call.supplied here "text"))
    w.runner.calls

variable {setting : Setting} {α : Type} {find : Call → World → Outcome → Option α} {call : Call}
  {calls : List Call} {w : World}

theorem gathered_cons_of_fails
    (hfails : (call.attempt setting (nestedRuns setting) w).1.success = false)
    (hstop : w.runner.stopOnError = true) :
    w.gathered setting find (call :: calls) =
      (find call w (call.attempt setting (nestedRuns setting) w).1).toList := by
  rw [gathered, sweep_cons_of_fails hfails hstop]
  cases h : find call w (call.attempt setting (nestedRuns setting) w).1 with
  | none => simp [sweep, h]
  | some x => simp [sweep, h]

theorem gathered_cons_of_goes_on
    (h : (call.attempt setting (nestedRuns setting) w).1.success = true ∨
      w.runner.stopOnError = false) :
    w.gathered setting find (call :: calls) =
      (find call w (call.attempt setting (nestedRuns setting) w).1).toList ++
        (call.attempt setting (nestedRuns setting) w).2.gathered setting find calls := by
  -- the places of the rest are one less in the sweep over the rest
  have hrest : ∀ outcomes : List (Outcome × Nat),
      (outcomes.map fun e => (e.1, e.2 + 1)).filterMap
        (fun e => (call :: calls)[e.2]?.bind fun other =>
          find other (w.sweep setting ((call :: calls).take e.2)).2 e.1) =
      outcomes.filterMap fun e => calls[e.2]?.bind fun other => find other
        ((call.attempt setting (nestedRuns setting) w).2.sweep setting (calls.take e.2)).2 e.1 := by
    intro outcomes
    rw [List.filterMap_map]
    refine List.filterMap_congr fun e _ => ?_
    dsimp only [Function.comp_apply]
    rw [List.getElem?_cons_succ, List.take_succ_cons, sweep_cons_of_goes_on h]
  unfold gathered
  rw [sweep_cons_of_goes_on h, List.zipIdx_cons, Nat.zero_add, List.zipIdx_succ, ← hrest,
    List.filterMap_cons]
  cases hfound : find call w (call.attempt setting (nestedRuns setting) w).1 with
  | none => simp [sweep, hfound]
  | some x => simp [sweep, hfound]

theorem sweep_take_succ {j : Nat} (hcall : calls[j]? = some call)
    (hj : j < (w.sweep setting calls).1.outcomes.length) :
    (w.sweep setting (calls.take (j + 1))).2 =
      (call.attempt setting (nestedRuns setting) (w.sweep setting (calls.take j)).2).2 := by
  induction calls generalizing w j with
  | nil => cases hcall
  | cons first calls ih =>
    rw [List.take_succ_cons]
    rcases sweep_cons_cases setting first calls w with ⟨hfails, hstop, hsweep⟩ | ⟨hgoes, hsweep⟩
    · rw [hsweep] at hj
      obtain rfl : j = 0 := Nat.lt_one_iff.1 hj
      obtain rfl := Option.some.inj hcall
      rw [List.take_zero, sweep_cons_of_fails hfails hstop]
      simp [stoppedAfter, note, sweep]
    · rw [sweep_cons_of_goes_on hgoes]
      cases j with
      | zero =>
        obtain rfl := Option.some.inj hcall
        rfl
      | succ j =>
        rw [hsweep] at hj
        rw [List.take_succ_cons, sweep_cons_of_goes_on hgoes]
        exact ih hcall (Nat.lt_of_succ_lt_succ hj)

end World

namespace Builtin

/-- what a run of a built-in operation comes to -/
inductive Does (call : Call) (w : World) : Effect → Prop where
  | fail (failure : Failure) : Does call w { ending := .error failure }
  | write {key : String} (value : Value) : call.operation = setContextId →
      call.supplied w "key" = .text key →
      Does call w { ending := .ok value, writes := [(key, value)] }
  | tell {text : String} : call.operation = showDialogId →
      call.supplied w "text" = .text text →
      ((∀ p, call.lastParam? "level" = some p → p.link = none) →
        ∃ level ∈ levels, call.level w = .text level) →
      Does call w { ending := .ok .null, messages := [⟨call.level w, .text text⟩] }
  | chat (ending : Except Failure Value) : call.operation = startChatId →
      Does call w { ending := ending }

theorem level_of_unobjected {call : Call} {w : World} {registry : Registry} {flags : Flags}
    (h : call.Unobjected registry flags)
    (hregistered : registry.get? call.operation = some showDialog)
    (hunlinked : ∀ p, call.lastParam? "level" = some p → p.link = none) :
    ∃ level ∈ levels, call.level w = .text level := by
  unfold Call.level Call.supplied Call.current
  rcases hparam : call.lastParam? "level" with _ | p
  · exact ⟨"Info", List.mem_cons_self, rfl⟩
  · have hname : p.name = "level" := by simpa using List.find?_some hparam
    -- without a link the value that was checked before the run is the one that is used in it
    have hmem := List.mem_reverse.1 (List.mem_of_find?_eq_some hparam)
    have hwrong := not_wrong_of_unobjected h hregistered hmem
    rw [Option.map_some, Option.getD_some, Param.current, hunlinked p hparam]
    rcases level_of_not_wrong hwrong hname (hunlinked p hparam) with
      hvalue | ⟨level, hlevel, hvalue⟩
    · rw [hvalue]
      exact ⟨"Info", List.mem_cons_self, rfl⟩
    · rw [hvalue]
      exact ⟨level, hlevel, rfl⟩

theorem exists_does {setting : Setting} (hregistry : setting.registry = Registry.builtin)
    (hshows : ∀ level text, setting.services.display level text = .ok ()) (call : Call)
    (w : World) : ∃ e, call.effect? setting w = some e ∧ Does call w e := by
  unfold Call.effect?
  rcases hprepare : call.prepare setting.registry w.flags w.store (Results.kept.others call w) with
    ⟨events, failure | ⟨d, params⟩⟩
  · exact ⟨_, rfl, .fail failure⟩
  · obtain ⟨hadmitted, rfl⟩ := Call.admitted_of_prepare hprepare
    obtain ⟨hd, hid⟩ := Registry.get?_eq_some hadmitted.registered
    rw [hregistry] at hd
    rcases mem_builtin hd with rfl | rfl | rfl
    · obtain ⟨key, value, hkey, he⟩ := effect?_setContext hadmitted
      exact ⟨_, he, .write value hid.symm hkey⟩
    · obtain ⟨text, htext, he⟩ := effect?_showDialog hadmitted
      rw [hshows] at he
      exact ⟨_, he, .tell hid.symm htext
        (level_of_unobjected hadmitted.unobjected hadmitted.registered)⟩
    · obtain ⟨ending, he⟩ := effect?_startChat call
        (call.admittedParams w.store (Results.kept.others call w) startChat)
      exact ⟨_, he, .chat ending hid.symm⟩

section Does

variable {call : Call} {w : World} {e : Effect} {o : Outcome}

theorem Does.writes_eq (h : Does call w e) (hoperation : o.operation = call.operation)
    (hending : o.ending = e.ending) :
    e.writes = (o.write? (call.supplied w "key")).toList := by
  cases h with
  | fail failure =>
    rw [Outcome.write?_of_not (by simp [Outcome.success, hending])]
    rfl
  | write value hset hkey =>
    have hresult : o.result = value := by rw [Outcome.result, hending]
    have hsuccess := Outcome.success_iff.2 ⟨_, hending⟩
    rw [hkey, Outcome.write?, if_pos ⟨hoperation.trans hset, hsuccess⟩, hresult]
    rfl
  | tell hshow =>
    rw [Outcome.write?_of_not fun h => absurd h.1 (by rw [hoperation, hshow]; decide)]
    rfl
  | chat ending hchat =>
    rw [Outcome.write?_of_not fun h => absurd h.1 (by rw [hoperation, hchat]; decide)]
    rfl

theorem Does.messages_eq (h : Does call w e) (hoperation : o.operation = call.operation)
    (hending : o.ending = e.ending) :
    e.messages = (o.shown? (call.level w) (call.supplied w "text")).toList := by
  cases h with
  | fail failure =>
    rw [Outcome.shown?_of_not (by simp [Outcome.success, hending])]
    rfl
  | write value hset =>
    rw [Outcome.shown?_of_not fun h => absurd h.1 (by rw [hoperation, hset]; decide)]
    rfl
  | tell hshow htext =>
    have hsuccess := Outcome.success_iff.2 ⟨_, hending⟩
    rw [Outcome.shown?, if_pos ⟨hoperation.trans hshow, hsuccess⟩, htext]
    rfl
  | chat ending hchat =>
    rw [Outcome.shown?_of_not fun h => absurd h.1 (by rw [hoperation, hchat]; decide)]
    rfl

theorem Does.key (h : Does call w e) (hset : call.operation = setContextId) {v : Value}
    (hok : e.ending = .ok v) : ∃ key, call.supplied w "key" = .text key := by
  cases h with
  | fail failure => cases hok
  | write value _ hkey => exact ⟨_, hkey⟩
  | tell hshow => exact absurd (hshow.symm.trans hset) (by decide)
  | chat ending hchat => exact absurd (hchat.symm.trans hset) (by decide)

theorem Does.text (h : Does call w e) (hshow : call.operation = showDialogId) {v : Value}
    (hok : e.ending = .ok v) :
    (∃ text, call.supplied w "text" = .text text) ∧
      ((∀ p, call.lastParam? "level" = some p → p.link = none) →
        ∃ level ∈ levels, call.level w = .text level) := by
  cases h with
  | fail failure => cases hok
  | write value hset => exact absurd (hset.symm.trans hshow) (by decide)
  | tell _ htext hlevel => exact ⟨⟨_, htext⟩, hlevel⟩
  | chat ending hchat => exact absurd (hchat.symm.trans hshow) (by decide)

end Does

end Builtin

section Run

variable {setting : Setting} (hregistry : setting.registry = Registry.builtin)
  (hquiet : setting.behaviour.Quiet)
  (hshows : ∀ level text, setting.services.display level text = .ok ())
include hregistry hquiet hshows

namespace Call

theorem attempt_does (call : Call) (w : World) (run : CallRunner) :
    ∃ e, Builtin.Does call w e ∧ (call.attempt setting run w).1.ending = e.ending ∧
      w.Gains (call.attempt setting run w).2 e.writes e.messages := by
  obtain ⟨e, he, hdoes⟩ := Builtin.exists_does hregistry hshows call w
  obtain ⟨huntimed, hgains⟩ := attempt_of_effect? hquiet he run
  exact ⟨e, hdoes, congrArg Outcome.ending huntimed, hgains⟩

/-- a run of a built-in operation writes and shows what its outcome says -/
theorem attempt_gains (call : Call) (w : World) (run : CallRunner) :
    w.Gains (call.attempt setting run w).2
      ((call.attempt setting run w).1.write? (call.supplied w "key")).toList
      ((call.attempt setting run w).1.shown? (call.level w) (call.supplied w "text")).toList := by
  obtain ⟨e, hdoes, hending, hgains⟩ := attempt_does hregistry hquiet hshows call w run
  rwa [hdoes.writes_eq rfl hending, hdoes.messages_eq rfl hending] at hgains

theorem attempt_traces (call : Call) (w : World) (run : CallRunner) :
    call.Traces w (call.attempt setting run w).2 (call.attempt setting run w).1 := by
  have hgains := attempt_gains hregistry hquiet hshows call w run
  obtain ⟨e, hdoes, hending, -⟩ := attempt_does hregistry hquiet hshows call w run
  have hends : (call.attempt setting run w).1.success = true → ∃ v, e.ending = .ok v := by
    intro hsuccess
    rw [← hending]
    exact Outcome.success_iff.1 hsuccess
  constructor
  case writes =>
    intro hset hsuccess
    obtain ⟨v, hv⟩ := hends hsuccess
    obtain ⟨key, hkey⟩ := hdoes.key hset hv
    refine ⟨key, hkey, ?_⟩
    rw [hgains.entries, hkey, Outcome.write?, if_pos ⟨hset, hsuccess⟩]
    rfl
  case leaves =>
    intro hnot
    rw [hgains.entries, Outcome.write?_of_not hnot]
    rfl
  case shows =>
    intro hshow hsuccess
    obtain ⟨v, hv⟩ := hends hsuccess
    obtain ⟨⟨text, htext⟩, -⟩ := hdoes.text hshow hv
    refine ⟨text, htext, ?_⟩
    rw [hgains.messages, htext, Outcome.shown?, if_pos ⟨hshow, hsuccess⟩]
    rfl
  case silent =>
    intro hnot
    rw [hgains.messages, Outcome.shown?_of_not hnot]
    exact List.append_nil _
  case level =>
    intro hshow hsuccess
    obtain ⟨v, hv⟩ := hends hsuccess
    exact (hdoes.text hshow hv).2
  case linked =>
    intro name p key hparam hlink
    simp [supplied, current, hparam, Param.current, hlink]

end Call

namespace World

/-- a sweep writes and shows what its calls do, turn by turn -/
theorem sweep_gains (calls : List Call) (w : World) :
    w.Gains (w.sweep setting calls).2
      (w.gathered setting (fun call here o => o.write? (call.supplied here "key")) calls)
      (w.gathered setting
        (fun call here o => o.shown? (call.level here) (call.supplied here "text")) calls) := by
  induction calls generalizing w with
  | nil => exact .refl w
  | cons call calls ih =>
    have hfirst := call.attempt_gains hregistry hquiet hshows w (nestedRuns setting)
    rcases sweep_cons_cases setting call calls w with ⟨hfails, hstop, hsweep⟩ | ⟨hgoes, hsweep⟩
    · rw [hsweep, gathered_cons_of_fails hfails hstop, gathered_cons_of_fails hfails hstop]
      exact hfirst.note _
    · rw [hsweep, gathered_cons_of_goes_on hgoes, gathered_cons_of_goes_on hgoes]
      exact hfirst.trans (ih _)

/-- What a sweep of built-in operations does to the world, whatever it starts with and whether or
not it stops on errors, where no listener writes and the display takes every message. The store ends
with the entries of the successful calls to set the context, written in their order; the messages of
the successful dialogs are shown in theirs, and no others. Turn by turn: a successful call to set
the context writes its result under its key and every other run leaves the entries; a successful
dialog shows its text, with one of the levels unless that is linked; what links to an entry has the
value that the calls before left there. -/
theorem runAll_traces (w : World) :
    let ended := w.runAll setting
    ended.2.store.entries = Table.write w.store.entries (w.sweptWrites setting) ∧
      ended.2.messages = w.messages ++ w.sweptMessages setting ∧
      ∀ (j : Nat) (o : Outcome), ended.1.outcomes[j]? = some o →
        ∃ call : Call, w.runner.calls[j]? = some call ∧
          o.call = call.id ∧ o.operation = call.operation ∧
          call.Traces (w.before setting j) (w.before setting (j + 1)) o := by
  intro ended
  have hgains := sweep_gains hregistry hquiet hshows w.runner.calls w
  refine ⟨hgains.entries, hgains.messages, fun j o ho => ?_⟩
  obtain ⟨call, hcall, rfl⟩ := sweep_outcome ho
  obtain ⟨hj, -⟩ := List.getElem?_eq_some_iff.1 ho
  refine ⟨call, hcall, rfl, rfl, ?_⟩
  rw [before, before, sweep_take_succ hcall hj]
  exact call.attempt_traces hregistry hquiet hshows _ _

end World

end Run

namespace Demo

def setNote : Call where
  id := "demo.setContext"
  operation := "setContext"
  params := [{ name := "key", value := .text "note" },
    { name := "value", value := .text "hello" }]

/-- shows the entry as a warning -/
def showNote : Call where
  id := "demo.showDialog"
  operation := "showDialog"
  params := [{ name := "text", link := some (.contextKey "note") },
    { name := "level", value := .text "Warning" }]

def noting : World where
  store := { entries := [(.text "note", .text "good bye")] }
  runner := { calls := [setNote, chat, showNote], stopOnError := false }

/-- the dialog shows what was written in this sweep; the chat in between fails without a trace -/
theorem noting_traces :
    setting.registry = Registry.builtin ∧ setting.behaviour.Quiet ∧
      (∀ level text, setting.services.display level text = .ok ()) ∧
      let ended := noting.runAll setting
      ended.2.store.entries = [(.text "note", .text "hello")] ∧
        ended.2.messages = [⟨.text "Warning", .text "hello"⟩] := by
  have hquiet : setting.behaviour.Quiet := fun _ _ => trivial
  obtain ⟨hentries, hmessages, -⟩ := World.runAll_traces rfl hquiet (fun _ _ => rfl) noting
  have hwritten : noting.sweptWrites setting = [("note", .text "hello")] := rfl
  have hshown : noting.sweptMessages setting = [⟨.text "Warning", .text "hello"⟩] := rfl
  rw [hwritten] at hentries
  rw [hshown] at hmessages
  exact ⟨rfl, hquiet, fun _ _ => rfl, hentries, hmessages⟩

end Demo

end LinkedCalls
