import LinkedCalls.Proofs.Delivery
import LinkedCalls.Proofs.Format
import LinkedCalls.Proofs.History
import LinkedCalls.Server

/-!
The answers of the server. Every call of a tool is answered by an envelope: data, or a refusal with
a message and a code. A tool that does not run calls does its work or leaves the world as it was.
One answer is of neither kind: a key that is too long to be written out is written to the store, and
then the tool fails.
-/
namespace LinkedCalls

theorem Code.name_ne (code : Code) : code.name ≠ "" := by
  cases code <;> decide

theorem Code.name_injective : Function.Injective Code.name := by
  intro code code' h
  cases code <;> cases code' <;> first | rfl | exact absurd h (by decide)

theorem Tool.name_injective : Function.Injective Tool.name := by
  intro tool tool' h
  cases tool <;> cases tool' <;> first | rfl | exact absurd h (by decide)

/-- the journal apart, the worlds are the same -/
def World.Noted (w w' : World) : Prop := ∃ journal, w' = { w with journal := journal }

theorem World.Noted.refl (w : World) : w.Noted w := ⟨w.journal, rfl⟩

theorem World.Noted.note {w w' : World} (h : w.Noted w') (events : List Event) :
    w.Noted (w'.note events) := by
  obtain ⟨journal, rfl⟩ := h
  exact ⟨journal ++ events, rfl⟩

namespace HelloWorld

def operations : List String := [setContextId, showDialogId, startChatId]

theorem map_id_calls (owner delimiter : String) :
    (program owner delimiter).calls.map Call.id = operations.map (Call.makeId owner delimiter) :=
  rfl

theorem ids_of_checked {owner delimiter : String} {p : Program}
    (h : checked owner delimiter = .ok p) :
    p = program owner delimiter ∧ ∀ c ∈ p.calls, IsName c.id := by
  obtain ⟨ids, hids, hp⟩ := bind_eq_ok.1 h
  obtain rfl := Except.ok.inj hp
  refine ⟨rfl, fun c hc => ?_⟩
  obtain ⟨id, hid⟩ := exists_of_mapM hids c hc
  rw [Reading.report_eq_ok, Checked.within_eq_ok, Reading.ofText_eq_ok] at hid
  obtain ⟨rfl, hname⟩ := hid
  exact hname rfl

theorem checked_valid {owner delimiter : String} {p : Program}
    (h : checked owner delimiter = .ok p) : p.Valid := by
  obtain ⟨rfl, hids⟩ := ids_of_checked h
  have hliteral : ∀ {name : String} {value : Scalar}, IsName name →
      Param.Valid { name := name, value := value } := fun hname => ⟨hname, by rintro _ ⟨⟩⟩
  refine ⟨(by decide +kernel : IsName name), fun c hc => ?_, ?_⟩
  · have hid := hids c hc
    simp only [program, List.mem_cons, List.not_mem_nil, or_false] at hc
    rcases hc with rfl | rfl | rfl
    · refine ⟨hid, (by decide +kernel : IsName setContextId), ?_,
        (by decide : ["key", "value"].Nodup)⟩
      simp only [List.forall_mem_cons]
      exact ⟨hliteral (by decide +kernel), hliteral (by decide +kernel), by simp⟩
    · refine ⟨hid, (by decide +kernel : IsName showDialogId), ?_,
        (by decide : ["text", "level"].Nodup)⟩
      simp only [List.forall_mem_cons]
      refine ⟨⟨(by decide +kernel : IsName "text"), ?_⟩, hliteral (by decide +kernel), by simp⟩
      rintro _ ⟨⟩
      exact (by decide +kernel : IsName key)
    · exact ⟨hid, (by decide +kernel : IsName startChatId), by simp, List.nodup_nil⟩
  · have hinj : ∀ a b, Call.makeId owner delimiter a = Call.makeId owner delimiter b → a = b := by
      intro a b hab
      exact (String.append_right_inj _).1 hab
    rw [map_id_calls]
    exact List.Nodup.map hinj (by decide)

end HelloWorld

namespace Tool

/-- the program that the arguments name in one of the three ways -/
inductive Offers (files : Files) (args : Arguments) : Program → Prop where
  | file {path : String} {program : Program} : sources args = ["path"] →
      args.find? "path" = some (.text path) → Program.load files path = .ok program →
      Offers files args program
  | inline {source : Value} {program : Program} : sources args = ["program"] →
      args.find? "program" = some source → Program.read source = .ok program →
      Offers files args program
  | demo {owner : String} {program : Program} : sources args = ["demo"] →
      ((args.find? "owner_id").getD defaultOwner).written = .ok owner →
      HelloWorld.checked owner "." = .ok program → Offers files args program

/-- the codes of loading; a program that cannot be found, read or validated has one of its own -/
def loadingCodes : List Code :=
  [.invalidArguments, .programNotFound, .invalidProgram, .unknownProgram]

/-- what comes of the arguments: a failure, a refusal or a program -/
inductive Chosen (files : Files) (args : Arguments) : Loading → Prop where
  | fail (failure : Failure) : Chosen files args (.error failure)
  | refuse {code : Code} (message : String) (cause : Option Failure) : code ∈ loadingCodes →
      Chosen files args (.ok (.error (.refusal code message .null cause)))
  | offer {program : Program} (events : List Event) : Offers files args program →
      Chosen files args (.ok (.ok (program, events)))

theorem chosen_refusing {files : Files} {args : Arguments}
    {r : Except Failure (Program × List Event)}
    (h : ∀ program events, r = .ok (program, events) → Offers files args program) :
    Chosen files args (refusing r) := by
  unfold refusing
  split
  · next e => exact .offer e.2 (h e.1 e.2 rfl)
  · exact .refuse _ none (by decide)
  · split
    · exact .refuse _ _ (by decide)
    · exact .fail _

theorem offers_loadFile {files : Files} {args : Arguments} {program : Program}
    {events : List Event} (hsources : sources args = ["path"])
    (h : (args.demand "path").bind (loadFile files) = .ok (program, events)) :
    Offers files args program := by
  unfold Arguments.demand at h
  split at h
  · next path hpath =>
    unfold Except.bind loadFile at h
    dsimp only at h
    split at h
    · next file =>
      rcases hload : Program.load files file with failure | p
      · rw [hload] at h
        cases h
      · rw [hload] at h
        obtain ⟨rfl, -⟩ := Prod.mk.inj (Except.ok.inj h)
        exact .file hsources hpath hload
    · cases h
  · cases h

theorem offers_readInline {files : Files} {args : Arguments} {program : Program}
    {events : List Event} (hsources : sources args = ["program"])
    (h : (args.demand "program").bind readInline = .ok (program, events)) :
    Offers files args program := by
  unfold Arguments.demand at h
  split at h
  · next source hsource =>
    rcases hread : Program.read source with report | p
    · simp [Except.bind, readInline, hread, Except.mapError, Except.map] at h
    · simp only [Except.bind, readInline, hread, Except.mapError, Except.map] at h
      obtain ⟨rfl, -⟩ := Prod.mk.inj (Except.ok.inj h)
      exact .inline hsources hsource hread
  · cases h

theorem offers_readDemo {files : Files} {args : Arguments} {program : Program}
    {events : List Event} (hsources : sources args = ["demo"])
    (h : readDemo args = .ok (program, events)) : Offers files args program := by
  obtain ⟨owner, howner, hread⟩ := bind_eq_ok.1 h
  rcases hchecked : HelloWorld.checked owner "." with report | p
  · simp [hchecked, Except.mapError, Except.map] at hread
  · simp only [hchecked, Except.mapError, Except.map] at hread
    obtain ⟨rfl, -⟩ := Prod.mk.inj (Except.ok.inj hread)
    exact .demo hsources howner hchecked

theorem chosen_demo {files : Files} {args : Arguments} (hsources : sources args = ["demo"]) :
    Chosen files args ((args.demand "demo").bind (demo args)) := by
  unfold Arguments.demand
  split
  · next name hname =>
    rcases hkey : name.key with failure | key
    · simp only [Except.bind, demo, hkey]
      exact .fail failure
    · simp only [Except.bind, demo, hkey, bind]
      split
      · exact chosen_refusing fun program events => offers_readDemo hsources
      · split
        · exact .refuse _ none (by decide)
        · exact chosen_refusing fun program events h => nomatch h
  · exact .fail _

theorem chosen_chosen (files : Files) (args : Arguments) :
    Chosen files args (chosen files args) := by
  unfold chosen
  split
  · next hsources => exact chosen_refusing fun program events => offers_loadFile hsources
  · next hsources => exact chosen_refusing fun program events => offers_readInline hsources
  · next hsources => exact chosen_demo hsources
  · exact .refuse _ none (by decide)

theorem Offers.valid {files : Files} {args : Arguments} {program : Program}
    (h : Offers files args program) : program.Valid := by
  cases h with
  | file _ _ hload => exact Program.valid_of_load hload
  | inline _ _ hread => exact Program.valid_of_read hread
  | demo _ _ hchecked => exact HelloWorld.checked_valid hchecked

end Tool

theorem Arguments.demand_eq_ok {args : Arguments} {name : String} {v : Value} :
    args.demand name = .ok v ↔ args.find? name = some v := by
  unfold Arguments.demand
  cases args.find? name <;> simp

theorem Scalar.truthy_of_isLong {key : Scalar} (h : key.isLong = true) : key.truthy = true := by
  cases key with
  | int n =>
    have hpos : ∀ digits, 0 < Nat.pow 10 digits := fun digits => Nat.pow_pos (by decide)
    simp only [isLong, decide_eq_true_eq] at h
    -- the power itself is never to be computed
    generalize hlimit : Nat.pow 10 mostDigits = limit at h
    have hlimit : 0 < limit := hlimit ▸ hpos mostDigits
    exact bne_iff_ne.2 (Int.natAbs_pos.1 (by omega))
  | _ => cases h

theorem Scalar.isLong_of_le {n : Nat} (h : Nat.pow 10 mostDigits ≤ n) :
    (Scalar.int n).isLong = true := by
  simpa only [isLong, decide_eq_true_eq, Int.natAbs_natCast] using h

/-- they give a value for a key that is too long to be written out -/
def Arguments.SetLongKey (args : Arguments) : Prop :=
  ∃ key value, args.find? "key" = some (.scalar key) ∧ args.find? "value" = some value ∧
    key.isLong = true

def Tool.WritesLongKey (args : Arguments) : Tool → Prop
  | .contextSet => args.SetLongKey
  | _ => False

theorem Tool.not_writesLongKey {args : Arguments} {tool : Tool}
    (h : tool.name = "context_set" → ¬args.SetLongKey) : ¬tool.WritesLongKey args := by
  cases tool with
  | contextSet => exact h rfl
  | _ => exact id

/-- what a tool does: it fails or refuses and leaves the world, or succeeds; a tool that runs calls
may report failures of theirs, and one may fail when its work is done -/
inductive Deed.Answers (w : World) (spoils : Prop) (refusals failures : List Code) :
    Deed → Prop where
  | fail (failure : Failure) : Answers w spoils refusals failures (.error failure, w)
  | spoil (failure : Failure) (after : World) : spoils →
      Answers w spoils refusals failures (.error failure, after)
  | succeed (data : Value) (after : World) :
      Answers w spoils refusals failures (.ok (.success data), after)
  | refuse {code : Code} {after : World} (message : String) (cause : Option Failure) :
      code ∈ refusals → w.Noted after →
      Answers w spoils refusals failures (.ok (.refusal code message .null cause), after)
  | report {code : Code} (message : String) (details : Value) (after : World) : code ∈ failures →
      Answers w spoils refusals failures (.ok (.refusal code message details), after)

namespace Tool

/-- what a tool refuses its arguments for -/
def refusals (args : Arguments) : Tool → List Code
  | .operationDescribe => [.unknownOperation]
  | .contextGet => [.keyNotFound]
  | .contextSet => [.invalidKey]
  | .programLoad => if args.gives "replace" then loadingCodes else .duplicateCall :: loadingCodes
  | .programRunCall => [.unknownCall]
  | .operationList | .contextList | .programCalls | .programRun => []

/-- what a tool reports of the calls that it runs -/
def failures : Tool → List Code
  | .programRun => [.programFailed]
  | .programRunCall =>
    [.unknownOperation, .invalidCall, .unresolvedLink, .capabilityUnavailable, .executionError]
  | _ => []

variable {host : Host} {args : Arguments} {w : World}

theorem operationDescribe_answers (r : Registry) :
    Deed.Answers w False [.unknownOperation] [] (w.operationDescribe r args) := by
  unfold World.operationDescribe World.reply
  rcases args.demand "op_id" with failure | id
  · exact .fail failure
  · rcases hkey : id.key with failure | key
    · simp only [bind, Except.bind, hkey]
      exact .fail failure
    · simp only [bind, Except.bind, hkey]
      unfold docsOf
      split
      · split
        · exact .succeed _ w
        · exact .refuse _ none (by decide) (.refl w)
      · cases key.written with
        | error failure => exact .fail failure
        | ok name => exact .refuse _ none (by decide) (.refl w)

theorem contextGet_answers : Deed.Answers w False [.keyNotFound] [] (w.contextGet args) := by
  unfold World.contextGet World.reply
  rcases args.demand "key" with failure | key
  · exact .fail failure
  · rcases hkey : key.key with failure | key
    · simp only [bind, Except.bind, hkey]
      exact .fail failure
    · simp only [bind, Except.bind, hkey, pure, Except.pure]
      split
      · exact .succeed _ w
      · cases key.written with
        | error failure => exact .fail failure
        | ok name => exact .refuse _ none (by decide) (.refl w)

theorem written_eq_ok {args : Arguments} {k v : Value} {key : Scalar} :
    written args k = .ok (key, v) ↔ args.find? "value" = some v ∧ k = .scalar key := by
  unfold written Arguments.demand
  rcases args.find? "value" with _ | value
  · simp [bind, Except.bind]
  · cases k with
    | scalar s => simp [bind, Except.bind, pure, Except.pure, Value.key, Value.toKey?, and_comm]
    | _ => simp [bind, Except.bind, Value.key, Value.toKey?]

/-- the tool writes one entry, or finds that its key amounts to nothing or that one is missing -/
theorem contextSet_cases (setting : Setting) (args : Arguments) (w : World) :
    (∃ key v, args.find? "key" = some (.scalar key) ∧ args.find? "value" = some v ∧
      key.truthy = true ∧
      (w.contextSet setting args).2 = (w.edit setting.behaviour (.set key v)).2) ∨
    (w.contextSet setting args).2 = w ∧ ∀ key v, args.find? "key" = some (.scalar key) →
      args.find? "value" = some v → key.truthy = false := by
  rcases hkey : args.find? "key" with _ | k
  · refine .inr ⟨?_, by rintro key v ⟨⟩⟩
    simp only [World.contextSet, Arguments.demand, hkey, World.reply]
  cases htruthy : k.truthy with
  | false =>
    refine .inr ⟨?_, ?_⟩
    · simp only [World.contextSet, Arguments.demand, hkey, World.reply, htruthy, Bool.not_false,
        if_true]
    · rintro key v heq -
      obtain rfl := Option.some.inj heq
      exact htruthy
  | true =>
    rcases hwritten : written args k with failure | ⟨key, v⟩
    · refine .inr ⟨?_, ?_⟩
      · simp only [World.contextSet, Arguments.demand, hkey, World.reply, htruthy, hwritten,
          Bool.not_true, Bool.false_eq_true, if_false]
      · rintro key v heq hvalue
        have hk : k = .scalar key := Option.some.inj heq
        cases hwritten.symm.trans (written_eq_ok.2 ⟨hvalue, hk⟩)
    · obtain ⟨hvalue, rfl⟩ := written_eq_ok.1 hwritten
      refine .inl ⟨key, v, rfl, hvalue, htruthy, ?_⟩
      simp only [World.contextSet, Arguments.demand, hkey, World.reply, htruthy, hwritten,
        Bool.not_true, Bool.false_eq_true, if_false]

theorem edit_set_fst (behaviour : Behaviour) (key : Scalar) (value : Value) (w : World) :
    (w.edit behaviour (.set key value)).1 =
      if key.isLong then .error .longNumber else .ok true :=
  Store.change_set_fst behaviour key value w.store

theorem contextSet_answers (setting : Setting) :
    Deed.Answers w args.SetLongKey [.invalidKey] [] (w.contextSet setting args) := by
  unfold World.contextSet
  split
  · exact .fail _
  · next k hk =>
    split
    · exact .refuse _ none (by decide) (.refl w)
    · split
      · exact .fail _
      · next key value hwritten =>
        obtain ⟨hvalue, rfl⟩ := written_eq_ok.1 hwritten
        dsimp only [World.reply]
        rw [edit_set_fst]
        split
        · next hlong => exact .spoil _ _ ⟨key, value, Arguments.demand_eq_ok.1 hk, hvalue, hlong⟩
        · exact .succeed _ _

/-- an entry under a key that is too long to be written out is there when the tool fails -/
theorem contextSet_of_isLong (setting : Setting) {key : Scalar} {value : Value}
    (hkey : args.find? "key" = some (.scalar key)) (hvalue : args.find? "value" = some value)
    (hlong : key.isLong = true) : w.contextSet setting args = (.error .longNumber,
      { w with store := { w.store with entries := Table.insert w.store.entries key value } }) := by
  have hwritten : written args (.scalar key) = .ok (key, value) := written_eq_ok.2 ⟨hvalue, rfl⟩
  have hchange : w.store.change setting.behaviour (.set key value) = _ :=
    Store.change_of_isLong rfl hlong
  simp only [World.contextSet, Arguments.demand_eq_ok.2 hkey, Value.truthy,
    Scalar.truthy_of_isLong hlong, hwritten, World.edit, hchange, World.note, List.append_nil]
  rfl

theorem loadingCodes_subset : loadingCodes ⊆ refusals args .programLoad := by
  rw [refusals]
  split
  · exact List.Subset.refl _
  · exact List.subset_cons_self _ _

theorem load_reset (r : Runner) (program : Program) :
    r.reset.load program = .ok { r.reset with calls := program.calls } :=
  Runner.load_of_fresh fun _ _ => List.not_mem_nil

/-- what comes of loading: as far as a program is offered, it is loaded or there already -/
inductive Loads (files : Files) (args : Arguments) (w : World) : Deed → Prop where
  | fail (failure : Failure) : Loads files args w (.error failure, w)
  | refuse {code : Code} (message : String) (cause : Option Failure) : code ∈ loadingCodes →
      Loads files args w (.ok (.refusal code message .null cause), w)
  | duplicate (message : String) (events : List Event) : args.gives "replace" = false →
      Loads files args w (.ok (.refusal .duplicateCall message), w.note events)
  | load {program : Program} {runner : Runner} (data : Value) (events : List Event) :
      Offers files args program →
      (w.cleared (args.gives "replace")).runner.load program = .ok runner →
      Loads files args w (.ok (.success data), { w with runner := runner }.note events)

theorem programLoad_loads (files : Files) (args : Arguments) (w : World) :
    Loads files args w (w.programLoad files args) := by
  have hchosen := chosen_chosen files args
  unfold World.programLoad
  generalize chosen files args = loading at hchosen
  cases hchosen with
  | fail failure => exact .fail failure
  | refuse message cause hcode => exact .refuse message cause hcode
  | @offer program events hoffers =>
    dsimp only
    unfold World.loadProgram
    rcases hload : ((w.note events).cleared (args.gives "replace")).runner.load program with
      failure | runner
    · cases hreplace : args.gives "replace" with
      | true =>
        rw [hreplace] at hload
        exact absurd (hload.symm.trans (load_reset w.runner program)) (by rintro ⟨⟩)
      | false => exact .duplicate failure.message events hreplace
    · have hcleared : (w.cleared (args.gives "replace")).runner.load program = .ok runner := by
        cases hreplace : args.gives "replace" with
        | true => rwa [hreplace] at hload
        | false => rwa [hreplace] at hload
      have hafter : ({ (w.note events).cleared (args.gives "replace") with runner := runner } :
          World).note [Runner.loaded program] =
          ({ w with runner := runner } : World).note (events ++ [Runner.loaded program]) := by
        cases args.gives "replace" with
        | true => simp [World.cleared, World.note]
        | false => simp [World.cleared, World.note]
      dsimp only
      rw [hafter]
      exact .load _ _ hoffers hcleared

/-- loading touches the loaded calls and the journal only -/
theorem programLoad_leaves (files : Files) (args : Arguments) (w : World) :
    ∃ runner journal,
      (w.programLoad files args).2 = { w with runner := runner, journal := journal } := by
  have hloads := programLoad_loads files args w
  generalize w.programLoad files args = deed at hloads
  cases hloads <;> exact ⟨_, _, rfl⟩

theorem programLoad_answers (files : Files) :
    Deed.Answers w False (refusals args .programLoad) [] (w.programLoad files args) := by
  have hloads := programLoad_loads files args w
  generalize w.programLoad files args = deed at hloads
  cases hloads with
  | fail failure => exact .fail failure
  | refuse message cause hcode => exact .refuse message cause (loadingCodes_subset hcode) (.refl w)
  | duplicate message events hreplace =>
    refine .refuse message none ?_ ((World.Noted.refl w).note events)
    simp [refusals, hreplace]
  | load data events _ _ => exact .succeed data _

theorem programRun_answers (setting : Setting) :
    Deed.Answers w False [] [.programFailed] (w.programRun setting) := by
  unfold World.programRun
  dsimp only
  split
  · exact .succeed _ _
  · exact .report _ _ _ (by decide)

theorem codeOf_mem (type : String) : codeOf type ∈ failures .programRunCall := by
  unfold codeOf
  split_ifs <;> decide

theorem programRunCall_of_none (setting : Setting) {id : Scalar}
    (hkey : (args.demand "call_id").bind Value.key = .ok id) (hnone : w.runner.call? id = none) :
    w.programRunCall setting args = (.error .longNumber, w) ∨
      ∃ message, w.programRunCall setting args = (.ok (.refusal .unknownCall message), w) := by
  simp only [World.programRunCall, hkey, World.runCall_eq, hnone]
  unfold unknownCall Scalar.written
  split_ifs
  · exact .inl rfl
  · exact .inr ⟨_, rfl⟩

theorem programRunCall_answers (setting : Setting) :
    Deed.Answers w False [.unknownCall] (failures .programRunCall)
      (w.programRunCall setting args) := by
  rcases hkey : (args.demand "call_id").bind Value.key with failure | id
  · simp only [World.programRunCall, hkey]
    exact .fail failure
  · rcases hcall : w.runner.call? id with _ | call
    · rcases programRunCall_of_none setting hkey hcall with hdid | ⟨message, hdid⟩
      · rw [hdid]
        exact .fail _
      · rw [hdid]
        exact .refuse message none (by decide) (.refl w)
    · simp only [World.programRunCall, hkey, World.runCall_eq, hcall]
      unfold outcomeEnvelope World.reply
      dsimp only
      split
      · exact .succeed _ _
      · exact .report _ _ _ (codeOf_mem _)

theorem work_answers (host : Host) (tool : Tool) (args : Arguments) (w : World) :
    Deed.Answers w (tool.WritesLongKey args) (tool.refusals args) tool.failures
      (tool.work host args w) := by
  cases tool with
  | operationList => exact .succeed _ w
  | operationDescribe => exact operationDescribe_answers host.registry
  | contextGet => exact contextGet_answers
  | contextSet => exact contextSet_answers host.setting
  | contextList => exact .succeed _ w
  | programLoad => exact programLoad_answers host.files
  | programCalls => exact .succeed _ w
  | programRun => exact programRun_answers host.setting
  | programRunCall => exact programRunCall_answers host.setting

theorem work_noted (host : Host) (tool : Tool) (args : Arguments) (w : World) :
    (tool.work host args w).2.Noted (tool.guarded host args w).2 := by
  unfold guarded
  split
  · next hdid =>
    rw [hdid]
    exact .refl _
  · next hdid =>
    rw [hdid]
    exact (World.Noted.refl _).note _

end Tool

namespace Value

/-- an envelope as it is answered -/
inductive IsEnvelope (v : Value) : Prop where
  | success {data : Value} : v.field? "ok" = some (.bool true) → v.field? "data" = some data →
      IsEnvelope v
  | refused {error : Value} {message code : String} : v.field? "ok" = some (.bool false) →
      v.field? "error" = some error → error.field? "message" = some (.text message) →
      error.field? "code" = some (.text code) → code ≠ "" → IsEnvelope v

def errorCode? (v : Value) : Option Value := (v.field? "error").bind (·.field? "code")

end Value

namespace Server

/-- what a call of a tool is answered, and the world after it -/
inductive Answers (w : World) (spoils : Prop) (refusals failures : List Code) :
    Envelope × World → Prop where
  | succeed (data : Value) (after : World) :
      Answers w spoils refusals failures (.success data, after)
  | refuse {code : Code} {after : World} (message : String) (cause : Option Failure)
      (tool : Option String) : code ∈ refusals → spoils ∨ w.Noted after →
      Answers w spoils refusals failures
        (.refused ⟨.text message, .text code.name, .null, cause⟩ tool, after)
  | report {code : Code} (message : String) (details : Value) (after : World) : code ∈ failures →
      Answers w spoils refusals failures (.refusal code message details, after)

variable {host : Host} {args : Arguments} {w : World}

theorem guarded_answers (host : Host) (tool : Tool) (args : Arguments) (w : World) :
    Answers w (tool.WritesLongKey args) (.toolError :: tool.refusals args) tool.failures
      (tool.guarded host args w) := by
  have hwork := tool.work_answers host args w
  unfold Tool.guarded
  generalize tool.work host args w = deed at hwork
  cases hwork with
  | fail failure => exact .refuse _ _ none List.mem_cons_self (.inr ((World.Noted.refl w).note _))
  | spoil failure after hspoils => exact .refuse _ _ none List.mem_cons_self (.inl hspoils)
  | succeed data after => exact .succeed data after
  | refuse message cause hcode hnoted =>
    exact .refuse message cause none (List.mem_cons_of_mem _ hcode) (.inr hnoted)
  | report message details after hcode => exact .report message details after hcode

theorem find_name (tool : Tool) :
    ToolGroup.ofName? tool.name = some tool.group ∧ tool.group.tool? tool.name = some tool := by
  cases tool <;> decide

theorem call_name (host : Host) (tool : Tool) (args : Arguments) (w : World) :
    call host tool.name args w = tool.guarded host args w := by
  obtain ⟨hgroup, hfound⟩ := find_name tool
  simp only [call, dispatch, hgroup, ToolGroup.handler, hfound]
  rfl

/-- a name is that of no tool, and nothing is done, or its tool is called -/
theorem call_cases (host : Host) (name : String) (args : Arguments) (w : World) :
    ((∀ tool : Tool, tool.name ≠ name) ∧ (call host name args w).2 = w ∧
      Answers w False [.unknownTool] [] (call host name args w)) ∨
    ∃ tool : Tool, tool.name = name ∧ call host name args w = tool.guarded host args w := by
  by_cases htool : ∃ tool : Tool, tool.name = name
  · obtain ⟨tool, rfl⟩ := htool
    exact .inr ⟨tool, rfl, call_name host tool args w⟩
  · have hnone : ∀ tool : Tool, tool.name ≠ name := fun tool hname => htool ⟨tool, hname⟩
    have hlost : ∀ g : ToolGroup, g.tool? name = none := fun g => by
      simp [ToolGroup.tool?, hnone]
    refine .inl ⟨hnone, ?_⟩
    unfold call dispatch
    cases ToolGroup.ofName? name with
    | none => exact ⟨rfl, .refuse _ _ _ List.mem_cons_self (.inr (.refl w))⟩
    | some g =>
      dsimp only [ToolGroup.handler]
      rw [hlost g]
      exact ⟨rfl, .refuse _ none none List.mem_cons_self (.inr (.refl w))⟩

theorem toValue_refused (code : Code) (message : String) (details : Value)
    (cause : Option Failure) (tool : Option String) :
    ∃ error, (Envelope.refused ⟨.text message, .text code.name, details, cause⟩ tool).toValue.field?
        "error" = some error ∧ error.field? "message" = some (.text message) ∧
      error.field? "code" = some (.text code.name) := by
  refine ⟨_, rfl, rfl, ?_⟩
  cases code <;> rfl

theorem errorCode?_refused (code : Code) (message : String) (details : Value)
    (cause : Option Failure) (tool : Option String) :
    (Envelope.refused ⟨.text message, .text code.name, details, cause⟩ tool).toValue.errorCode? =
      some (.text code.name) := by
  obtain ⟨error, herror, -, hcode⟩ := toValue_refused code message details cause tool
  rw [Value.errorCode?, herror, Option.bind_some, hcode]

theorem isEnvelope_refused (code : Code) (message : String) (details : Value)
    (cause : Option Failure) (tool : Option String) :
    (Envelope.refused ⟨.text message, .text code.name, details, cause⟩
      tool).toValue.IsEnvelope := by
  obtain ⟨error, herror, hmessage, hcode⟩ := toValue_refused code message details cause tool
  exact .refused rfl herror hmessage hcode code.name_ne

variable {spoils : Prop} {refusals failures : List Code} {answered : Envelope × World}

theorem Answers.isEnvelope (h : Answers w spoils refusals failures answered) :
    answered.1.toValue.IsEnvelope := by
  cases h with
  | succeed data after => exact .success rfl rfl
  | refuse message cause tool _ _ => exact isEnvelope_refused _ message _ cause tool
  | report message details after _ => exact isEnvelope_refused _ message details none none

theorem eq_of_errorCode {code code' : Code}
    (h : some (Value.text code.name) = some (.text code'.name)) : code = code' :=
  Code.name_injective (Scalar.text.inj (Value.scalar.inj (Option.some.inj h)))

/-- where no calls are run, only a success leaves a trace -/
theorem Answers.noted (h : Answers w spoils refusals [] answered) (hspoils : ¬spoils)
    (hrefused : answered.1.toValue.field? "ok" = some (.bool false)) : w.Noted answered.2 := by
  cases h with
  | succeed data after => cases hrefused
  | refuse _ _ _ _ hnoted => exact hnoted.resolve_left hspoils
  | report _ _ _ hcode => cases hcode

theorem Answers.noted_of_code (h : Answers w spoils refusals failures answered) (code : Code)
    (hcode : answered.1.toValue.errorCode? = some (.text code.name)) (hnot : code ∉ failures) :
    code ∈ refusals ∧ (spoils ∨ w.Noted answered.2) := by
  cases h with
  | succeed data after => cases hcode
  | refuse message cause tool hmem hnoted =>
    rw [errorCode?_refused] at hcode
    obtain rfl := eq_of_errorCode hcode
    exact ⟨hmem, hnoted⟩
  | report message details after hmem =>
    rw [Envelope.refusal, errorCode?_refused] at hcode
    obtain rfl := eq_of_errorCode hcode
    exact absurd hmem hnot

theorem call_contextSet_of_isLong (host : Host) (w : World) {key : Scalar} {value : Value}
    (hkey : args.find? "key" = some (.scalar key)) (hvalue : args.find? "value" = some value)
    (hlong : key.isLong = true) : call host "context_set" args w = (.broken .longNumber,
      World.note
        { w with store := { w.store with entries := Table.insert w.store.entries key value } }
        [.log .error s!"Error in context_set: {Failure.longNumber.message}"]) := by
  have hwork : Tool.contextSet.work host args w = _ :=
    Tool.contextSet_of_isLong host.setting hkey hvalue hlong
  rw [show call host "context_set" args w = _ from call_name host .contextSet args w, Tool.guarded,
    hwork]
  rfl

/-- with these codes an answer says that nothing was run -/
theorem call_noted_of_code (host : Host) {name : String} (args : Arguments) (w : World)
    (hname : name ≠ "context_set")
    (hcode : (call host name args w).1.toValue.errorCode? = some (.text "UNKNOWN_CALL") ∨
      (call host name args w).1.toValue.errorCode? = some (.text "TOOL_ERROR")) :
    w.Noted (call host name args w).2 := by
  rcases call_cases host name args w with ⟨-, hsame, -⟩ | ⟨tool, rfl, hcall⟩
  · rw [hsame]
    exact .refl w
  · rw [hcall] at hcode ⊢
    have hanswers := guarded_answers host tool args w
    have hspoils : ¬tool.WritesLongKey args :=
      Tool.not_writesLongKey fun h => absurd h hname
    rcases hcode with hcode | hcode
    · exact (hanswers.noted_of_code .unknownCall hcode (by cases tool <;> decide)).2.resolve_left
        hspoils
    · exact (hanswers.noted_of_code .toolError hcode (by cases tool <;> decide)).2.resolve_left
        hspoils

/-- a refusal by a tool that runs no calls says that nothing was done -/
theorem call_noted_of_refused (host : Host) {name : String} (args : Arguments) (w : World)
    (hrefused : (call host name args w).1.toValue.field? "ok" = some (.bool false))
    (hrun : name ≠ "program_run") (hrunCall : name ≠ "program_run_call")
    (hlong : name = "context_set" → ¬args.SetLongKey) : w.Noted (call host name args w).2 := by
  rcases call_cases host name args w with ⟨-, -, hanswers⟩ | ⟨tool, rfl, hcall⟩
  · exact hanswers.noted id hrefused
  · have hanswers := guarded_answers host tool args w
    have hquiet : tool.failures = [] := by
      cases tool with
      | programRun => exact absurd rfl hrun
      | programRunCall => exact absurd rfl hrunCall
      | _ => rfl
    rw [hquiet, ← hcall] at hanswers
    exact hanswers.noted (Tool.not_writesLongKey hlong) hrefused

theorem call_isEnvelope (host : Host) (name : String) (args : Arguments) (w : World) :
    (call host name args w).1.toValue.IsEnvelope := by
  rcases call_cases host name args w with ⟨-, -, hanswers⟩ | ⟨tool, rfl, hcall⟩
  · exact hanswers.isEnvelope
  · rw [hcall]
    exact (guarded_answers host tool args w).isEnvelope

/-- a program that is loaded comes behind the calls that were there, or takes their place -/
theorem loaded_of_ok {replace : Bool} {program : Program} {runner : Runner}
    (h : (w.cleared replace).runner.load program = .ok runner) :
    (replace = false → runner.calls = w.runner.calls ++ program.calls ∧
      runner.results = w.runner.results) ∧
    (replace = true → runner.calls = program.calls ∧ runner.results = []) := by
  rw [Runner.load_eq_ok h]
  constructor
  · rintro rfl
    exact ⟨rfl, rfl⟩
  · rintro rfl
    exact ⟨rfl, rfl⟩

theorem guarded_programLoad
    (h : (Tool.programLoad.guarded host args w).1.toValue.field? "ok" = some (.bool true)) :
    ∃ program, Tool.Offers host.files args program ∧ ∃ runner journal,
      (Tool.programLoad.guarded host args w).2 =
        { w with runner := runner, journal := journal } ∧
      (w.cleared (args.gives "replace")).runner.load program = .ok runner := by
  have hloads : Tool.Loads host.files args w (Tool.programLoad.work host args w) :=
    Tool.programLoad_loads host.files args w
  unfold Tool.guarded at h ⊢
  generalize Tool.programLoad.work host args w = deed at h hloads ⊢
  cases hloads with
  | fail failure => cases h
  | refuse message cause hcode => cases h
  | duplicate message events hreplace => cases h
  | @load program runner data events hoffers hload =>
    exact ⟨program, hoffers, runner, _, rfl, hload⟩

/-- once the calls are cleared a valid program has no name twice, so no call can be there already -/
theorem call_programLoad_replace (host : Host) (w : World)
    (hreplace : args.gives "replace" = true) :
    (call host "program_load" args w).1.toValue.errorCode? ≠ some (.text "DUPLICATE_CALL") := by
  intro hduplicate
  have hanswers := guarded_answers host .programLoad args w
  rw [← call_name] at hanswers
  obtain ⟨hmem, -⟩ := hanswers.noted_of_code .duplicateCall hduplicate (by decide)
  rw [Tool.refusals, if_pos hreplace] at hmem
  exact absurd hmem (by decide)

/-- The server answers every call of a tool with an envelope. What it refuses leaves the world as it
was, the journal apart, unless the tool runs calls or is to write under a key that is too long to be
written out: then it fails with the entry in the store, and with nothing else changed. A program
that is loaded is what the arguments offer, and valid: its calls come behind those loaded before,
which keep their results, or with `replace` take their place, without results; then no call can be
there already. Running a call that is not there, or failing to look for one, changes nothing either.
-/
theorem call_answers (host : Host) (name : String) (args : Arguments) (w : World) :
    let answer := (call host name args w).1.toValue
    let after := (call host name args w).2
    answer.IsEnvelope ∧
    (answer.field? "ok" = some (.bool false) → name ≠ "program_run" → name ≠ "program_run_call" →
      (name = "context_set" → ¬args.SetLongKey) → w.Noted after) ∧
    (name = "context_set" → ∀ key value, args.find? "key" = some (.scalar key) →
      args.find? "value" = some value → key.isLong = true →
      answer.errorCode? = some (.text "TOOL_ERROR") ∧ ∃ journal, after =
        { w with
          store := { w.store with entries := Table.insert w.store.entries key value }
          journal := journal }) ∧
    (name = "program_load" → answer.field? "ok" = some (.bool true) →
      ∃ program, Tool.Offers host.files args program ∧ program.Valid ∧ ∃ runner journal,
        after = { w with runner := runner, journal := journal } ∧
        (args.gives "replace" = false → runner.calls = w.runner.calls ++ program.calls ∧
          runner.results = w.runner.results) ∧
        (args.gives "replace" = true → runner.calls = program.calls ∧ runner.results = [])) ∧
    (name = "program_load" → args.gives "replace" = true →
      answer.errorCode? ≠ some (.text "DUPLICATE_CALL")) ∧
    (name = "program_run_call" → (answer.errorCode? = some (.text "UNKNOWN_CALL") ∨
      answer.errorCode? = some (.text "TOOL_ERROR")) → w.Noted after) := by
  intro answer after
  refine ⟨call_isEnvelope host name args w, fun hrefused hrun hrunCall hlong =>
    call_noted_of_refused host args w hrefused hrun hrunCall hlong, ?_, ?_, ?_, ?_⟩
  · rintro rfl key value hkey hvalue hlong
    have hset := call_contextSet_of_isLong host w hkey hvalue hlong
    exact ⟨congrArg (fun answered => answered.1.toValue.errorCode?) hset, _,
      congrArg Prod.snd hset⟩
  · rintro rfl hok
    have hcall : call host "program_load" args w = _ := call_name host .programLoad args w
    simp only [answer, after, hcall] at hok ⊢
    obtain ⟨program, hoffers, runner, journal, hafter, hload⟩ := guarded_programLoad hok
    exact ⟨program, hoffers, hoffers.valid, runner, journal, hafter, loaded_of_ok hload⟩
  · rintro rfl hreplace
    exact call_programLoad_replace host w hreplace
  · rintro rfl hcode
    exact call_noted_of_code host args w (by decide) hcode

end Server

namespace Demo

/-- the shortest number that is too long to be written out, and a value for it -/
def longKey : Arguments :=
  [(.text "key", .int (Nat.pow 10 Scalar.mostDigits : Nat)), (.text "value", .text "v")]

/-- its value is refused, and yet written -/
theorem longKey_written :
    let start := World.start .allOn []
    let answered := Server.call {} "context_set" longKey start
    answered.1.toValue.field? "ok" = some (.bool false) ∧ ¬start.Noted answered.2 := by
  have hlong : (Scalar.int (Nat.pow 10 Scalar.mostDigits : Nat)).isLong = true :=
    Scalar.isLong_of_le (Nat.le_refl _)
  have hcall : Server.call {} "context_set" longKey (.start .allOn []) = _ :=
    Server.call_contextSet_of_isLong {} _ rfl rfl hlong
  dsimp only
  rw [hcall]
  refine ⟨rfl, ?_⟩
  rintro ⟨journal, hsame⟩
  cases congrArg (fun w : World => w.store.entries) hsame

end Demo

end LinkedCalls
