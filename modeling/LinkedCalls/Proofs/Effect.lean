import LinkedCalls.Proofs.Parameters
import LinkedCalls.Proofs.Run

/-!
The effect of a run. An implementation that only writes, tells and asks does the same in every
world: it ends in one way, with one list of entries written and one of messages shown. The built-in
operations are of this kind, and what they are handed depends on nothing but the flags, the entries
and the results that their call links to; so a run has the same effect wherever these are the same.
-/
namespace LinkedCalls

/-- it writes and deletes nothing -/
def Reaction.Quiet : Reaction → Prop
  | .done => True
  | .fail _ => True
  | .edit _ _ => False
  | .attach _ next => next.Quiet
  | .detach _ next => next.Quiet
  | .look next => ∀ s, (next s).Quiet
  | .keep _ next => next.Quiet

def Behaviour.Quiet (behaviour : Behaviour) : Prop :=
  ∀ listener change, (behaviour listener change).Quiet

namespace Store

theorem react_quiet (change : Changer) {reaction : Reaction} (h : reaction.Quiet) (s : Store) :
    (react change reaction s).2.1.entries = s.entries ∧ (react change reaction s).2.2 = [] := by
  induction reaction generalizing s with
  | done => exact ⟨rfl, rfl⟩
  | fail failure => exact ⟨rfl, rfl⟩
  | edit edit next ih => exact h.elim
  | attach listener next ih => exact ih h _
  | detach listener next ih => exact ih h _
  | look next ih => exact ih s (h s) s
  | keep memory next ih => exact ih h _

theorem notify_entries (change : Changer) {behaviour : Behaviour} (h : behaviour.Quiet) (c : Change)
    (listeners : List String) (s : Store) :
    (notify change behaviour c listeners s).1.entries = s.entries := by
  induction listeners generalizing s with
  | nil => rfl
  | cons l listeners ih => exact (ih _).trans (react_quiet change (h l c) s).1

/-- where listeners do not write, an edit is all that happens to the entries -/
theorem change_entries {behaviour : Behaviour} (h : behaviour.Quiet) (edit : Edit) (s : Store) :
    (change behaviour edit s).2.1.entries =
      ((s.apply edit).map fun made => made.1.entries).getD s.entries := by
  rcases happly : s.apply edit with _ | ⟨edited, c⟩
  · simp only [change, changeWithin, happly]
    rfl
  · simp only [change, changeWithin, happly]
    split
    · rfl
    · exact notify_entries _ h _ _ _

theorem change_set {behaviour : Behaviour} (h : behaviour.Quiet) (key : Scalar) (value : Value)
    (s : Store) :
    (change behaviour (.set key value) s).2.1.entries = Table.insert s.entries key value :=
  change_entries h (.set key value) s

theorem change_delete {behaviour : Behaviour} (h : behaviour.Quiet) (key : Scalar) (s : Store) :
    (change behaviour (.delete key) s).2.1.entries = Table.erase s.entries key := by
  rw [change_entries h]
  cases hkey : s.has key with
  | true => simp [apply, hkey]
  | false => simp [apply, hkey, Table.erase_of_not_has hkey]

/-- writes one after another, each with what listeners make of it -/
def setAll (behaviour : Behaviour) (s : Store) (writes : List (String × Value)) : Store :=
  writes.foldl (fun s e => (s.set behaviour (.text e.1) e.2).2.1) s

theorem setAll_entries {behaviour : Behaviour} (h : behaviour.Quiet) (s : Store)
    (writes : List (String × Value)) :
    (s.setAll behaviour writes).entries = Table.write s.entries writes := by
  induction writes generalizing s with
  | nil => rfl
  | cons e writes ih =>
    exact (ih _).trans (congrArg (Table.write · writes) (change_set h (.text e.1) e.2 s))

end Store

/-- how a routine ends, with the entries that it writes and the messages that it shows -/
structure Effect where
  ending : Except Failure Value
  writes : List (String × Value) := []
  messages : List Message := []

/-- the world after differs from the one before by these writes, with all that listeners make of
them, and by these messages -/
structure World.Undergoes (behaviour : Behaviour) (w w' : World) (writes : List (String × Value))
    (messages : List Message) : Prop where
  store : w'.store = w.store.setAll behaviour writes
  messages : w'.messages = w.messages ++ messages
  flags : w'.flags = w.flags

/-- the world after differs from the one before by these writes and messages -/
structure World.Gains (w w' : World) (writes : List (String × Value)) (messages : List Message) :
    Prop where
  entries : w'.store.entries = Table.write w.store.entries writes
  messages : w'.messages = w.messages ++ messages
  flags : w'.flags = w.flags

theorem World.Undergoes.gains {behaviour : Behaviour} (hquiet : behaviour.Quiet) {w w' : World}
    {writes : List (String × Value)} {messages : List Message}
    (h : w.Undergoes behaviour w' writes messages) : w.Gains w' writes messages where
  entries := by rw [h.store, Store.setAll_entries hquiet]
  messages := h.messages
  flags := h.flags

namespace World.Gains

theorem refl (w : World) : w.Gains w [] [] := ⟨rfl, (List.append_nil _).symm, rfl⟩

variable {w w' w'' : World} {writes writes' : List (String × Value)}
  {messages messages' : List Message}

theorem trans (h : w.Gains w' writes messages) (h' : w'.Gains w'' writes' messages') :
    w.Gains w'' (writes ++ writes') (messages ++ messages') where
  entries := by rw [h'.entries, h.entries, Table.write_append]
  messages := by rw [h'.messages, h.messages, List.append_assoc]
  flags := h'.flags.trans h.flags

theorem note (h : w.Gains w' writes messages) (events : List Event) :
    w.Gains (w'.note events) writes messages := ⟨h.entries, h.messages, h.flags⟩

theorem find?_of_not_mem (h : w.Gains w' writes messages) {key : String}
    (hkey : key ∉ writes.map Prod.fst) :
    Table.find? w'.store.entries (.text key) = Table.find? w.store.entries (.text key) := by
  rw [h.entries, Table.find?_write_of_not_mem (Table.not_mem_keys_iff.2 hkey)]

/-- after the same writes the worlds agree on an entry if it was written, or was the same before -/
theorem find?_congr {u u' : World} (h : w.Gains w' writes messages)
    (h' : u.Gains u' writes messages') {key : String}
    (hkey : key ∉ writes.map Prod.fst →
      Table.find? w.store.entries (.text key) = Table.find? u.store.entries (.text key)) :
    Table.find? w'.store.entries (.text key) = Table.find? u'.store.entries (.text key) := by
  rw [h.entries, h'.entries]
  exact Table.find?_write_congr fun hunwritten => hkey (Table.not_mem_keys_iff.1 hunwritten)

end World.Gains

namespace Routine

/-- the effect of a routine that only writes, tells and asks; the others have none of their own -/
def effect? (services : Services) : Routine → Option Effect
  | .done v => some { ending := .ok v }
  | .fail failure => some { ending := .error failure }
  | .edit (.set (.text key) value) next =>
    ((next (.ok true)).effect? services).map fun e => { e with writes := (key, value) :: e.writes }
  | .tell level text next =>
    ((next (services.display level text)).effect? services).map fun e =>
      { e with messages := ⟨level, text⟩ :: e.messages }
  | .ask prompt next => (next (services.answer prompt)).effect? services
  | .note _ next => next.effect? services
  | _ => none

variable {setting : Setting}

/-- a routine that has an effect has it in every world -/
theorem exec_undergoes {routine : Routine} {e : Effect}
    (h : routine.effect? setting.services = some e) (run : CallRunner) (w : World) :
    (routine.exec setting run w).1 = e.ending ∧
      w.Undergoes setting.behaviour (routine.exec setting run w).2 e.writes e.messages := by
  induction routine generalizing e w with
  | done v =>
    obtain rfl := Option.some.inj h
    exact ⟨rfl, rfl, (List.append_nil _).symm, rfl⟩
  | fail failure =>
    obtain rfl := Option.some.inj h
    exact ⟨rfl, rfl, (List.append_nil _).symm, rfl⟩
  | edit edit next ih =>
    rcases edit with ⟨key, value⟩ | key
    · cases key with
      | text key =>
        obtain ⟨rest, hrest, rfl⟩ := Option.map_eq_some_iff.1 h
        obtain ⟨hending, hdone⟩ :=
          ih (.ok true) hrest (w.edit setting.behaviour (.set (.text key) value)).2
        exact ⟨hending, hdone.store, hdone.messages, hdone.flags⟩
      | _ => cases h
    · cases h
  | tell level text next ih =>
    obtain ⟨rest, hrest, rfl⟩ := Option.map_eq_some_iff.1 h
    obtain ⟨hending, hdone⟩ := ih _ hrest (setting.services.tell level text w).2
    refine ⟨hending, hdone.store, ?_, hdone.flags⟩
    exact hdone.messages.trans (List.append_assoc _ _ _)
  | ask prompt next ih =>
    obtain ⟨exchanges, journal, hasked⟩ := setting.services.ask_snd prompt w
    obtain ⟨hending, hdone⟩ := ih _ h (setting.services.ask prompt w).2
    simp only [exec, setting.services.ask_fst]
    rw [hasked] at hending hdone ⊢
    exact ⟨hending, hdone.store, hdone.messages, hdone.flags⟩
  | note event next ih =>
    obtain ⟨hending, hdone⟩ := ih h (w.note [event])
    exact ⟨hending, hdone.store, hdone.messages, hdone.flags⟩
  -- what is left reads the store or acts on the runner or the flags, and has no effect
  | _ => cases h

end Routine

section Congr

variable {flags : Flags} {store store' : Store} {cache cache' : Option (Table Value)} {call : Call}

theorem resolveParam_congr {p : Param}
    (hkey : ∀ key, p.link = some (.contextKey key) → store.get (.text key) = store'.get (.text key))
    (hresult : ∀ target, p.link = some (.operation target) →
      linkedResult cache target = linkedResult cache' target) :
    resolveParam flags store cache call p = resolveParam flags store' cache' call p := by
  unfold resolveParam
  rcases hlink : p.link with _ | key | target
  · rfl
  · simp only [hkey key hlink]
  · have hfound := hresult target hlink
    unfold linkedResult at hfound
    simp only [resolveResult, hfound]

theorem resolveAll_congr {f g : Param → Except Failure Resolved} {ps : List Param}
    (h : ∀ p ∈ ps, f p = g p) : resolveAll f ps = resolveAll g ps := by
  induction ps with
  | nil => rfl
  | cons p ps ih =>
    obtain ⟨hp, hps⟩ := List.forall_mem_cons.1 h
    simp only [resolveAll, hp, ih hps]

namespace Call

/-- the entries of the store that a call depends on -/
def contextKeys (c : Call) : List String :=
  c.params.filterMap fun p =>
    match p.link with
    | some (.contextKey key) => some key
    | _ => none

theorem mem_contextKeys {key : String} {p : Param} (hp : p ∈ call.params)
    (hlink : p.link = some (.contextKey key)) : key ∈ call.contextKeys :=
  List.mem_filterMap.2 ⟨p, hp, by rw [hlink]⟩

theorem resolve_congr
    (hkeys : ∀ key ∈ call.contextKeys, store.get (.text key) = store'.get (.text key))
    (hresults : ∀ target ∈ call.targets, linkedResult cache target = linkedResult cache' target) :
    call.resolve flags store cache = call.resolve flags store' cache' := by
  refine resolveAll_congr fun p hp => resolveParam_congr ?_ ?_
  · intro key hlink
    exact hkeys key (mem_contextKeys hp hlink)
  · intro target hlink
    exact hresults target (mem_targets.2 ⟨p, hp, hlink⟩)

theorem prepare_congr (registry : Registry)
    (hkeys : ∀ key ∈ call.contextKeys, store.get (.text key) = store'.get (.text key))
    (hresults : ∀ target ∈ call.targets, linkedResult cache target = linkedResult cache' target) :
    call.prepare registry flags store cache = call.prepare registry flags store' cache' := by
  unfold prepare
  rw [resolve_congr hkeys hresults]

/-- a call reads the same in two worlds: the flags, what its links find in the store, and the
results that it links to but for its own -/
structure ReadsSame (call : Call) (results results' : Results) (w w' : World) : Prop where
  flags : w.flags = w'.flags
  entries : ∀ key ∈ call.contextKeys, w.store.get (.text key) = w'.store.get (.text key)
  results : ∀ target ∈ call.targets, target ≠ call.id →
    linkedResult (results.of w) target = linkedResult (results'.of w') target

def effectIn? (setting : Setting) (results : Results) (call : Call) (w : World) : Option Effect :=
  match (call.prepare setting.registry w.flags w.store (results.others call w)).2 with
  | .error failure => some { ending := .error failure }
  | .ok (d, params) => (d.routine call params).effect? setting.services

/-- a link to itself finds nothing, as the old result is dropped first -/
theorem linkedResult_others (results : Results) (call : Call) {w : World}
    (hw : Table.Distinct w.runner.results) (target : String) :
    linkedResult (results.others call w) target =
      if target = call.id then none else linkedResult (results.of w) target := by
  cases results with
  | none => exact (ite_self _).symm
  | kept =>
    have hothers : linkedResult (Results.kept.others call w) target =
        Table.find? (Table.erase w.runner.results (.text call.id)) (.text target) := rfl
    rw [hothers]
    split
    · next hself => rw [hself, hw.find?_erase_self]
    · next hother => exact Table.find?_erase_of_ne (Ne.symm hother)

theorem ReadsSame.effectIn?_eq {results results' : Results} {w w' : World}
    (h : call.ReadsSame results results' w w') (hw : Table.Distinct w.runner.results)
    (hw' : Table.Distinct w'.runner.results) (setting : Setting) :
    call.effectIn? setting results w = call.effectIn? setting results' w' := by
  have hresults : ∀ target ∈ call.targets, linkedResult (results.others call w) target =
      linkedResult (results'.others call w') target := by
    intro target htarget
    rw [linkedResult_others results call hw, linkedResult_others results' call hw']
    split
    · rfl
    · next hother => exact h.results target htarget hother
  unfold effectIn?
  rw [h.flags, prepare_congr setting.registry h.entries hresults]

/-- two worlds show a call the same: the flags, the entries that it links to, and the results that
it links to but for its own -/
structure SeesSame (call : Call) (w w' : World) : Prop where
  flags : w.flags = w'.flags
  entries : ∀ key ∈ call.contextKeys,
    Table.find? w.store.entries (.text key) = Table.find? w'.store.entries (.text key)
  results : ∀ target ∈ call.targets, target ≠ call.id →
    Table.find? w.runner.results (.text target) = Table.find? w'.runner.results (.text target)

def effect? (setting : Setting) (call : Call) (w : World) : Option Effect :=
  match (call.prepare setting.registry w.flags w.store (Results.kept.others call w)).2 with
  | .error failure => some { ending := .error failure }
  | .ok (d, params) => (d.routine call params).effect? setting.services

/-- a run of the call writes this key of the store -/
def Writes (setting : Setting) (call : Call) (w : World) (key : String) : Prop :=
  ∃ e, call.effect? setting w = some e ∧ key ∈ e.writes.map Prod.fst

theorem SeesSame.readsSame {w w' : World} (h : call.SeesSame w w') :
    call.ReadsSame .kept .kept w w' where
  flags := h.flags
  entries := fun key hkey => congrArg (·.getD .null) (h.entries key hkey)
  results := h.results

theorem SeesSame.effect?_eq {w w' : World} (h : call.SeesSame w w')
    (hw : Table.Distinct w.runner.results) (hw' : Table.Distinct w'.runner.results)
    (setting : Setting) : call.effect? setting w = call.effect? setting w' :=
  h.readsSame.effectIn?_eq hw hw' setting

end Call

end Congr

section Run

variable {setting : Setting} {results : Results} {call : Call} {w w' : World} {e : Effect}
  {behaviour : Behaviour} {writes : List (String × Value)} {messages : List Message}

theorem World.Undergoes.of_discard {id : String} {events : List Event}
    (h : ((results.discard id w).note events).Undergoes behaviour w' writes messages) :
    w.Undergoes behaviour w' writes messages := by
  cases results <;> exact ⟨h.store, h.messages, h.flags⟩

theorem World.Undergoes.conclude (h : w.Undergoes behaviour w' writes messages)
    (ending : Except Failure Value) :
    w.Undergoes behaviour (results.conclude call (ending, w')).2 writes messages := by
  cases ending with
  | error failure => exact h
  | ok v => cases results <;> exact ⟨h.store, h.messages, h.flags⟩

theorem Results.conclude_fst (results : Results) (call : Call)
    (ended : Except Failure Value × World) : (results.conclude call ended).1 = ended.1 := by
  rcases ended with ⟨failure | v, w⟩ <;> rfl

theorem Call.run_undergoes (h : call.effectIn? setting results w = some e) (run : CallRunner) :
    (call.run setting run results w).1 = e.ending ∧
      w.Undergoes setting.behaviour (call.run setting run results w).2 e.writes e.messages := by
  unfold Call.effectIn? at h
  rcases call.run_cases setting run results w with
    ⟨events, failure, hprepare, hends⟩ | ⟨events, d, params, hprepare, -, hends⟩
  · rw [hprepare] at h
    obtain rfl := Option.some.inj h
    rw [hends]
    have hsame : ((results.discard call.id w).note events).Undergoes setting.behaviour
        ((results.discard call.id w).note events) [] [] := ⟨rfl, (List.append_nil _).symm, rfl⟩
    exact ⟨rfl, hsame.of_discard⟩
  · rw [hprepare] at h
    rw [hends]
    obtain ⟨hending, hdone⟩ :=
      Routine.exec_undergoes h run ((results.discard call.id w).note events)
    exact ⟨(results.conclude_fst call _).trans hending, hdone.of_discard.conclude _⟩

theorem Call.attempt_of_effect? (hquiet : setting.behaviour.Quiet)
    (h : call.effect? setting w = some e) (run : CallRunner) :
    (call.attempt setting run w).1.untimed = ⟨call.id, call.operation, e.ending, .zero⟩ ∧
      w.Gains (call.attempt setting run w).2 e.writes e.messages := by
  have hstart : call.effectIn? setting .kept w.readClock.2 = some e := h
  obtain ⟨hending, hdone⟩ := Call.run_undergoes hstart run
  have hgains := hdone.gains hquiet
  obtain ⟨clock, journal, hended⟩ := call.attempt_snd setting run w
  rw [Call.attempt_untimed, hending, hended]
  exact ⟨rfl, hgains.entries, hgains.messages, hgains.flags⟩

end Run

/-- it writes one entry at most, and shows one message at most -/
structure Effect.Single (e : Effect) : Prop where
  writes : e.writes.length ≤ 1
  messages : e.messages.length ≤ 1

theorem Effect.single_ending (ending : Except Failure Value) :
    Effect.Single { ending := ending } := ⟨Nat.zero_le _, Nat.zero_le _⟩

namespace Builtin

theorem wellFormed {d : Definition} (hd : d ∈ Registry.builtin) : d.WellFormed :=
  (Registry.Reachable.registerAll definitions .empty).wellFormed.definitions d hd

variable {services : Services} {registry : Registry} {flags : Flags} {store : Store}
  {cache : Option (Table Value)} {call : Call}

theorem setContext_wellFormed : setContext.WellFormed := wellFormed List.mem_cons_self

theorem showDialog_wellFormed : showDialog.WellFormed :=
  wellFormed (List.mem_cons_of_mem _ List.mem_cons_self)

theorem effect?_setContext (h : call.Admitted registry flags store cache setContext) :
    ∃ key value, call.current store cache "key" = .text key ∧
      (setContextRoutine call (call.admittedParams store cache setContext)).effect? services =
        some { ending := .ok value, writes := [(key, value)] } := by
  obtain ⟨key, hkey, hfindsKey⟩ := h.requires setContext_wellFormed List.mem_cons_self rfl rfl rfl
  obtain ⟨value, -, hfindsValue⟩ := h.requires setContext_wellFormed
    (List.mem_cons_of_mem _ List.mem_cons_self) rfl rfl rfl
  refine ⟨key, .text value, hkey, ?_⟩
  rw [setContextRoutine, hfindsKey, hfindsValue]
  rfl

theorem getD_level (default : Value) :
    (call.admittedParams store cache showDialog).getD "level" default =
      if (call.current store cache "level").isNull then defaultLevel
      else call.current store cache "level" := by
  refine Call.getD_admittedParams showDialog_wellFormed
    (List.mem_cons_of_mem _ List.mem_cons_self) ?_ default
  unfold Call.effective
  split
  · rintro ⟨⟩
  · next hnull => exact fun hcurrent => hnull (Value.isNull_iff.2 hcurrent)

theorem effect?_showDialog (h : call.Admitted registry flags store cache showDialog) :
    let level := if (call.current store cache "level").isNull then defaultLevel
      else call.current store cache "level"
    ∃ text, call.current store cache "text" = .text text ∧
      (showDialogRoutine call (call.admittedParams store cache showDialog)).effect? services =
        some { ending := (services.display level (.text text)).map fun _ => .null,
               messages := [⟨level, .text text⟩] } := by
  intro level
  obtain ⟨text, htext, hfinds⟩ := h.requires showDialog_wellFormed List.mem_cons_self rfl rfl rfl
  refine ⟨text, htext, ?_⟩
  rw [showDialogRoutine, hfinds, Routine.effect?, getD_level]
  cases services.display level (.text text) <;> rfl

theorem effect?_startChat (call : Call) (params : Params) :
    ∃ ending, (startChatRoutine call params).effect? services = some { ending := ending } := by
  unfold startChatRoutine
  rw [Routine.effect?]
  rcases services.answer (params.getD "prompt" defaultPrompt) with failure | reply
  · exact ⟨_, rfl⟩
  · unfold Routine.orFail
    dsimp only
    split_ifs
    · exact ⟨_, rfl⟩
    · exact ⟨_, rfl⟩
    · exact ⟨_, rfl⟩

/-- every run of a call of a built-in operation has an effect, in whatever registry that is -/
theorem exists_effectIn? {setting : Setting} {call : Call}
    (h : ∀ d, setting.registry.get? call.operation = some d → d ∈ Registry.builtin)
    (results : Results) (w : World) :
    ∃ e, call.effectIn? setting results w = some e ∧ e.Single := by
  unfold Call.effectIn?
  rcases hprepare : call.prepare setting.registry w.flags w.store (results.others call w) with
    ⟨events, failure | ⟨d, params⟩⟩
  · exact ⟨_, rfl, Effect.single_ending _⟩
  · obtain ⟨hadmitted, rfl⟩ := Call.admitted_of_prepare hprepare
    rcases mem_builtin (h d hadmitted.registered) with rfl | rfl | rfl
    · obtain ⟨key, value, -, he⟩ := effect?_setContext hadmitted
      exact ⟨_, he, Nat.le_refl _, Nat.zero_le _⟩
    · obtain ⟨text, -, he⟩ := effect?_showDialog hadmitted
      exact ⟨_, he, Nat.zero_le _, Nat.le_refl _⟩
    · obtain ⟨ending, hending⟩ := effect?_startChat call _
      exact ⟨_, hending, Effect.single_ending _⟩

theorem exists_effect? {setting : Setting} (h : setting.registry = Registry.builtin) (call : Call)
    (w : World) : ∃ e, call.effect? setting w = some e := by
  have hbuiltin : ∀ d, setting.registry.get? call.operation = some d → d ∈ Registry.builtin := by
    rw [h]
    exact fun d hd => (Registry.get?_eq_some hd).1
  obtain ⟨e, he, -⟩ := exists_effectIn? hbuiltin .kept w
  exact ⟨e, he⟩

end Builtin

/-- where a call sees the same, a run of a built-in operation does the same -/
theorem Call.SeesSame.attempt_eq {setting : Setting}
    (hregistry : setting.registry = Registry.builtin)
    (hquiet : setting.behaviour.Quiet) {call : Call} {w w' : World} (h : call.SeesSame w w')
    (hw : Table.Distinct w.runner.results) (hw' : Table.Distinct w'.runner.results)
    (run : CallRunner) :
    (call.attempt setting run w).1.untimed = (call.attempt setting run w').1.untimed ∧
      ∃ e, call.effect? setting w = some e ∧
        w.Gains (call.attempt setting run w).2 e.writes e.messages ∧
        w'.Gains (call.attempt setting run w').2 e.writes e.messages := by
  obtain ⟨e, he⟩ := Builtin.exists_effect? hregistry call w
  have he' : call.effect? setting w' = some e := (h.effect?_eq hw hw' setting).symm.trans he
  obtain ⟨huntimed, hgains⟩ := Call.attempt_of_effect? hquiet he run
  obtain ⟨huntimed', hgains'⟩ := Call.attempt_of_effect? hquiet he' run
  exact ⟨huntimed.trans huntimed'.symm, e, he, hgains, hgains'⟩

end LinkedCalls
