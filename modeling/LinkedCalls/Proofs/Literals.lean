import LinkedCalls.Proofs.Parameters
import LinkedCalls.Proofs.Run

/-!
The literals of linked parameters. A literal under a link is never looked at: the check of a dialog
level passes it over, resolution puts what the link leads to in its place, and decoding only sees
what was resolved. So two calls that differ in such literals are answered alike and run alike.
-/
namespace LinkedCalls

namespace Param

variable {f : Param → Scalar}

/-- the parameter with another literal, if it is linked -/
def restate (f : Param → Scalar) (p : Param) : Param :=
  if p.isLinked then { p with value := f p } else p

@[simp] theorem restate_name (p : Param) : (p.restate f).name = p.name := by
  unfold restate
  split <;> rfl

@[simp] theorem restate_link (p : Param) : (p.restate f).link = p.link := by
  unfold restate
  split <;> rfl

theorem restate_of_link_none {p : Param} (h : p.link = none) : p.restate f = p := by
  rw [restate, isLinked, h]
  rfl

theorem find?_restate (found : String → Bool) (ps : List Param) :
    (ps.map (restate f)).find? (fun p => found p.name) =
      (ps.find? fun p => found p.name).map (restate f) := by
  simp only [List.find?_map, Function.comp_def, restate_name]

end Param

def Call.restate (f : Param → Scalar) (call : Call) : Call :=
  { call with params := call.params.map (Param.restate f) }

def Resolved.restate (f : Param → Scalar) (r : Resolved) : Resolved :=
  { r with source := r.source.restate f }

/-- the operation's own check passes over the literals of linked parameters -/
def Definition.IgnoresLinked (d : Definition) : Prop :=
  ∀ inspect, d.inspect = some inspect → ∀ (f : Param → Scalar) (ps : List Param),
    inspect (ps.map (Param.restate f)) = inspect ps

section Resolve

variable {flags : Flags} {store : Store} {cache : Option (Table Value)} {f : Param → Scalar}

theorem suppliedValue_restate (supplied : List Resolved) (name : String) :
    suppliedValue (supplied.map (Resolved.restate f)) name = suppliedValue supplied name := by
  simp only [suppliedValue, ← List.map_reverse, List.find?_map, Function.comp_def, Resolved.restate,
    Param.restate_name, Option.map_map]

theorem resolveParam_restate (call : Call) (p : Param) :
    resolveParam flags store cache (call.restate f) (p.restate f) =
      (resolveParam flags store cache call p).map (Resolved.restate f) := by
  rcases hlink : p.link with _ | key | target
  · have hsame : p.restate f = p := Param.restate_of_link_none hlink
    simp only [resolveParam, hsame, hlink, Except.map, Resolved.restate]
  · simp only [resolveParam, Param.restate_link, hlink, Except.map, Resolved.restate]
  · have hresult : resolveResult flags cache (call.restate f) (p.restate f) target =
        resolveResult flags cache call p target := by
      simp only [resolveResult, Param.restate_name]
      rfl
    simp only [resolveParam, Param.restate_link, hlink, hresult]
    cases resolveResult flags cache call p target <;> rfl

theorem resolveAll_map {g : Param → Param} {k : Resolved → Resolved}
    {resolve resolve' : Param → Except Failure Resolved}
    (h : ∀ p, resolve (g p) = (resolve' p).map k) (ps : List Param) :
    resolveAll resolve (ps.map g) = (resolveAll resolve' ps).map (List.map k) := by
  induction ps with
  | nil => rfl
  | cons p ps ih =>
    simp only [List.map_cons, resolveAll, h, ih]
    cases resolve' p with
    | error failure => rfl
    | ok r => cases resolveAll resolve' ps <;> rfl

/-- what is resolved has the same values, and fails at the same link -/
theorem Call.resolve_restate (call : Call) :
    (call.restate f).resolve flags store cache =
      (call.resolve flags store cache).map (List.map (Resolved.restate f)) :=
  resolveAll_map (resolveParam_restate call) call.params

theorem Definition.decode_restate (d : Definition) (supplied : List Resolved) :
    d.decode (supplied.map (Resolved.restate f)) = d.decode supplied :=
  Definition.decodeSpecs_congr fun spec _ => suppliedValue_restate supplied spec.name

end Resolve

namespace Builtin

/-- a literal level under a link is not checked, so it may be any -/
theorem wrongLevel_restate (f : Param → Scalar) (p : Param) :
    wrongLevel (p.restate f) = wrongLevel p := by
  cases hlink : p.link with
  | none => rw [Param.restate_of_link_none hlink]
  | some link => simp [wrongLevel, Param.isLinked, hlink]

theorem inspectDialog_restate (f : Param → Scalar) (ps : List Param) :
    inspectDialog (ps.map (Param.restate f)) = inspectDialog ps := by
  have hwrong : wrongLevel ∘ Param.restate f = wrongLevel := funext (wrongLevel_restate f)
  have hfind : (ps.map (Param.restate f)).find? wrongLevel = ps.find? wrongLevel := by
    rw [List.find?_map, hwrong]
    cases hp : ps.find? wrongLevel with
    | none => rfl
    | some p =>
      -- what the check finds fault with is no linked parameter
      have hfault : wrongLevel p = true := List.find?_some hp
      have hlink : p.link = none := by
        simp only [wrongLevel, Param.isLinked, Bool.and_eq_true, Bool.not_eq_true',
          Option.isSome_eq_false_iff, Option.isNone_iff_eq_none] at hfault
        exact hfault.1.1.2
      exact congrArg some (Param.restate_of_link_none hlink)
  unfold inspectDialog
  rw [hfind]

theorem ignoresLinked {d : Definition} (hd : d ∈ Registry.builtin) : d.IgnoresLinked := by
  rintro inspect hinspect f ps
  rcases mem_builtin hd with rfl | rfl | rfl
  · cases hinspect
  · obtain rfl : inspectDialog = inspect := Option.some.inj hinspect
    exact inspectDialog_restate f ps
  · cases hinspect

end Builtin

namespace Call

variable {registry : Registry} {flags : Flags} {store : Store} {cache : Option (Table Value)}
  {f : Param → Scalar} {call : Call}

theorem param?_restate (name : String) :
    (call.restate f).param? name = (call.param? name).map (Param.restate f) :=
  Param.find?_restate (· == name) call.params

theorem missing?_restate (d : Definition) (call : Call) :
    d.missing? (call.restate f) = d.missing? call := by
  simp only [Definition.missing?, param?_restate, Option.isNone_map]

theorem unknown?_restate (d : Definition) (call : Call) :
    d.unknown? (call.restate f) = d.unknown? call := by
  unfold Definition.unknown? restate
  rw [Param.find?_restate fun name => (d.spec? name).isNone, Option.map_map]
  exact congrArg (Option.map · _) (funext fun p => p.restate_name)

theorem validate_restate
    (h : ∀ d, registry.get? call.operation = some d → d.IgnoresLinked) (flags : Flags) :
    registry.validate flags (call.restate f) = registry.validate flags call := by
  have hoperation : (call.restate f).operation = call.operation := rfl
  unfold Registry.validate
  rw [hoperation]
  cases hget : registry.get? call.operation with
  | none => rfl
  | some d =>
    dsimp only
    unfold Definition.validate
    rw [missing?_restate, unknown?_restate]
    cases hinspect : d.inspect with
    | none => rfl
    | some inspect =>
      have hsame : inspect (call.restate f).params = inspect call.params :=
        h d hget inspect hinspect f call.params
      simp only [hsame]

theorem prepare_restate
    (h : ∀ d, registry.get? call.operation = some d → d.IgnoresLinked) :
    (call.restate f).prepare registry flags store cache =
      call.prepare registry flags store cache := by
  have hoperation : (call.restate f).operation = call.operation := rfl
  unfold prepare
  rw [hoperation]
  cases hget : registry.get? call.operation with
  | none => rfl
  | some d =>
    have hget' : registry.get? (call.restate f).operation = some d := hget
    have hcheck : d.validate flags (call.restate f) = d.validate flags call := by
      rw [← validate_of_get? hget, ← validate_of_get? hget', validate_restate h]
    simp only [hcheck, resolve_restate]
    cases call.resolve flags store cache with
    | error failure => rfl
    | ok resolved => simp only [Except.map, d.decode_restate]

section Run

variable {setting : Setting} {results : Results} {w : World}

theorem invokes_restate
    (h : ∀ d, setting.registry.get? call.operation = some d → d.IgnoresLinked)
    (run : CallRunner) (params : Params) :
    (call.restate f).Invokes setting run results w params ↔
      call.Invokes setting run results w params := by
  have hprepare : (call.restate f).prepare setting.registry w.flags w.store
      (results.others (call.restate f) w) =
        call.prepare setting.registry w.flags w.store (results.others call w) := prepare_restate h
  rw [invokes_iff_prepare, invokes_iff_prepare, hprepare]

theorem run_restate
    (h : ∀ d, setting.registry.get? call.operation = some d → d ∈ Registry.builtin)
    (run : CallRunner) :
    (call.restate f).run setting run results w = call.run setting run results w := by
  have hsame : (call.restate f).prepare setting.registry w.flags w.store
      (results.others (call.restate f) w) =
        call.prepare setting.registry w.flags w.store (results.others call w) :=
    prepare_restate fun d hd => Builtin.ignoresLinked (h d hd)
  rcases hprepare : call.prepare setting.registry w.flags w.store (results.others call w) with
    ⟨events, failure | ⟨d, params⟩⟩
  · rw [run_of_prepare_error (hsame.trans hprepare), run_of_prepare_error hprepare]
    rfl
  · have hbuiltin : d ∈ Registry.builtin :=
      h d (admitted_of_prepare hprepare).1.registered
    rw [run_of_prepare_ok (hsame.trans hprepare), run_of_prepare_ok hprepare,
      Builtin.routine_of_call hbuiltin (call.restate f) call]
    rfl

end Run

/-- The literal of a linked parameter carries no meaning. Put any other literals under the links of
a call of a built-in operation, or none: the check answers the same under all flags, the
implementation is handed the same parameters if it is reached, and a run in any world ends the same
and leaves the same world behind, with its store, messages and results. -/
theorem linked_literals_are_idle (setting : Setting) (call : Call)
    (hbuiltin : ∀ d, setting.registry.get? call.operation = some d → d ∈ Registry.builtin)
    (f : Param → Scalar) :
    (∀ flags, setting.registry.validate flags (call.restate f) =
      setting.registry.validate flags call) ∧
    ∀ (results : Results) (w : World),
      (∀ params, (call.restate f).Invokes setting (World.nestedRuns setting) results w params ↔
        call.Invokes setting (World.nestedRuns setting) results w params) ∧
      w.runOperation setting results (call.restate f) = w.runOperation setting results call ∧
      ∀ run, (call.restate f).attempt setting run w = call.attempt setting run w := by
  have hignores : ∀ d, setting.registry.get? call.operation = some d → d.IgnoresLinked :=
    fun d hd => Builtin.ignoresLinked (hbuiltin d hd)
  refine ⟨validate_restate hignores, fun results w => ⟨invokes_restate hignores _,
    run_restate hbuiltin _, fun run => ?_⟩⟩
  simp only [attempt, run_restate hbuiltin]
  rfl

end Call

namespace Demo

/-- a level that is no level stands under the link to the level -/
def shout : Call where
  id := "demo.shout"
  operation := "showDialog"
  params := [{ name := "text", value := .text "fire" },
    { name := "level", value := .text "Scream", link := some (.contextKey "severity") }]

def severe : World where
  store := { entries := [(.text "severity", .text "Error")] }

/-- what is shown without the literal is shown with it -/
theorem shout_shown :
    (∀ d, setting.registry.get? shout.operation = some d → d ∈ Registry.builtin) ∧
      (shout.restate fun _ => .null) ≠ shout ∧
      setting.registry.validate .allOn shout = ([], .ok none) ∧
      (severe.runOperation setting .kept shout).2.messages = [⟨.text "Error", .text "fire"⟩] := by
  have hbuiltin : ∀ d, setting.registry.get? shout.operation = some d → d ∈ Registry.builtin :=
    fun d hd => (Registry.get?_eq_some hd).1
  obtain ⟨hvalid, hruns⟩ :=
    Call.linked_literals_are_idle setting shout hbuiltin fun _ => .null
  obtain ⟨-, hrun, -⟩ := hruns .kept severe
  refine ⟨hbuiltin, by decide, ?_, ?_⟩
  · rw [← hvalid]
    rfl
  · rw [← hrun]
    rfl

end Demo

end LinkedCalls
