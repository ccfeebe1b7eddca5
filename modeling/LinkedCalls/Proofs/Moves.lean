import LinkedCalls.Proofs.History
import Mathlib.Logic.Relation

/-!
What running calls can do to a world, move by move. A run, a sweep and every run nested in them are
made of few kinds of moves, so what each of these keeps is kept by all of them, whatever
implementations do. Where no implementation resets the runner, only calls that are loaded have their
results kept.
-/
namespace LinkedCalls

/-- it does not reset the runner; it may add and run calls -/
def Routine.NeverResets : Routine → Prop
  | .done _ => True
  | .fail _ => True
  | .lookup _ next => ∀ v, (next v).NeverResets
  | .edit _ next => ∀ b, (next b).NeverResets
  | .tell _ _ next => ∀ r, (next r).NeverResets
  | .ask _ next => ∀ r, (next r).NeverResets
  | .addCall _ next => ∀ r, (next r).NeverResets
  | .runCall _ next => ∀ r, (next r).NeverResets
  | .reset _ => False
  | .setFlag _ _ next => next.NeverResets
  | .note _ next => next.NeverResets

def Setting.NeverResets (setting : Setting) : Prop :=
  ∀ d ∈ setting.registry, ∀ f, d.implementation = some f →
    ∀ call params, (f call params).NeverResets

theorem Routine.LeavesRunner.neverResets {routine : Routine} (h : routine.LeavesRunner) :
    routine.NeverResets := by
  induction routine with
  | done v => trivial
  | fail failure => trivial
  | lookup key next ih => exact fun v => ih v (h v)
  | edit e next ih => exact fun b => ih b (h b)
  | tell level text next ih => exact fun r => ih r (h r)
  | ask prompt next ih => exact fun r => ih r (h r)
  | addCall call next ih => exact h.elim
  | runCall id next ih => exact h.elim
  | reset next ih => exact h.elim
  | setFlag flag on next ih => exact ih h
  | note event next ih => exact ih h

/-- one thing that running calls does to a world; `resets` says whether implementations may reset
the runner -/
inductive World.Move (setting : Setting) (resets : Prop) (w : World) : World → Prop where
  | note (events : List Event) : Move setting resets w (w.note events)
  | edit (e : Edit) : Move setting resets w (w.edit setting.behaviour e).2
  | tell (level text : Value) : Move setting resets w (setting.services.tell level text w).2
  | ask (prompt : Value) : Move setting resets w (setting.services.ask prompt w).2
  | addCall (call : Call) : Move setting resets w (w.addCall call).2
  | reset : resets → Move setting resets w { w with runner := w.runner.reset }
  | setFlag (flag : Flag) (on : Bool) :
      Move setting resets w { w with flags := w.flags.set on flag }
  | readClock : Move setting resets w w.readClock.2
  | discard (id : String) : Move setting resets w { w with runner := w.runner.discard id }
  | record (id : String) (v : Value) : resets ∨ id ∈ w.runner.ids →
      Move setting resets w { w with runner := w.runner.record id v }

abbrev World.Moves (setting : Setting) (resets : Prop) : World → World → Prop :=
  Relation.ReflTransGen (World.Move setting resets)

namespace World

variable {setting : Setting} {resets : Prop} {w w' : World}

theorem ids_addCall (call : Call) (w : World) : w.runner.ids ⊆ (w.addCall call).2.runner.ids := by
  unfold addCall
  split
  · next runner hadd =>
    rw [Runner.add_eq_ok hadd]
    simp [Runner.ids]
  · exact List.Subset.refl _

theorem Move.ids (hnever : ¬resets) (h : w.Move setting resets w') :
    w.runner.ids ⊆ w'.runner.ids := by
  cases h with
  | ask prompt =>
    rw [Services.ask_runner]
    exact List.Subset.refl _
  | addCall call => exact ids_addCall call w
  | reset hresets => exact absurd hresets hnever
  | _ => exact List.Subset.refl _

theorem Moves.ids (hnever : ¬resets) (h : Moves setting resets w w') :
    w.runner.ids ⊆ w'.runner.ids := by
  induction h with
  | refl => exact List.Subset.refl _
  | tail _ hmove ih => exact List.Subset.trans ih (hmove.ids hnever)

theorem Move.messages (h : w.Move setting resets w') : w.messages <+: w'.messages := by
  cases h with
  | tell level text => exact List.prefix_append _ _
  | ask prompt =>
    obtain ⟨exchanges, journal, hasked⟩ := setting.services.ask_snd prompt w
    have hsame : (setting.services.ask prompt w).2.messages = w.messages := by rw [hasked]
    exact hsame ▸ List.prefix_rfl
  | addCall call =>
    unfold World.addCall
    split <;> exact List.prefix_rfl
  | _ => exact List.prefix_rfl

theorem Moves.messages (h : Moves setting resets w w') : w.messages <+: w'.messages := by
  induction h with
  | refl => exact List.prefix_rfl
  | tail _ hmove ih => exact ih.trans hmove.messages

theorem Moves.loaded {id : String} (hid : resets ∨ id ∈ w.runner.ids)
    (h : Moves setting resets w w') : resets ∨ id ∈ w'.runner.ids := by
  by_cases hresets : resets
  · exact .inl hresets
  · exact .inr (h.ids hresets (hid.resolve_left hresets))

end World

section Runs

variable {setting : Setting} {resets : Prop} {run : CallRunner}
  (hrun : ∀ id w, World.Moves setting resets w (run id w).2)
include hrun

theorem Routine.exec_moves {routine : Routine} (h : resets ∨ routine.NeverResets) (w : World) :
    World.Moves setting resets w (routine.exec setting run w).2 := by
  induction routine generalizing w with
  | done v => exact .refl
  | fail failure => exact .refl
  | lookup key next ih => exact ih _ (h.imp_right fun h => h _) w
  | edit e next ih => exact .head (.edit e) (ih _ (h.imp_right fun h => h _) _)
  | tell level text next ih => exact .head (.tell level text) (ih _ (h.imp_right fun h => h _) _)
  | ask prompt next ih => exact .head (.ask prompt) (ih _ (h.imp_right fun h => h _) _)
  | addCall call next ih => exact .head (.addCall call) (ih _ (h.imp_right fun h => h _) _)
  | runCall id next ih => exact (hrun id w).trans (ih _ (h.imp_right fun h => h _) _)
  | reset next ih =>
    have hresets : resets := h.resolve_right id
    exact .head (.reset hresets) (ih (.inl hresets) _)
  | setFlag flag on next ih => exact .head (.setFlag flag on) (ih h _)
  | note event next ih => exact .head (.note [event]) (ih h _)

theorem Call.run_moves (h : resets ∨ setting.NeverResets) (results : Results) {call : Call}
    {w : World} (hcall : resets ∨ call.id ∈ w.runner.ids) :
    World.Moves setting resets w (call.run setting run results w).2 := by
  have hdiscard : World.Moves setting resets w (results.discard call.id w) := by
    cases results with
    | kept => exact .single (.discard call.id)
    | none => exact .refl
  rcases call.run_cases setting run results w with
    ⟨events, failure, -, hends⟩ | ⟨events, d, params, -, hd, hends⟩
  · rw [hends]
    exact hdiscard.tail (.note events)
  · have hroutine : resets ∨ (d.routine call params).NeverResets :=
      h.imp_right fun hnever => d.routine_of (fun _ => trivial) (hnever d hd) call params
    have hexec := (hdiscard.tail (.note events)).trans (Routine.exec_moves hrun hroutine _)
    rw [hends]
    rcases hends : (d.routine call params).exec setting run
      ((results.discard call.id w).note events) with ⟨failure | v, w'⟩
    · rw [hends] at hexec
      exact hexec
    · rw [hends] at hexec
      cases results with
      | kept => exact hexec.tail (.record call.id v (World.Moves.loaded hcall hexec))
      | none => exact hexec

theorem Call.attempt_moves (h : resets ∨ setting.NeverResets) {call : Call} {w : World}
    (hcall : resets ∨ call.id ∈ w.runner.ids) :
    World.Moves setting resets w (call.attempt setting run w).2 := by
  have hstart : World.Moves setting resets w w.readClock.2 := .single .readClock
  have hends := (hstart.trans (Call.run_moves hrun h .kept (w := w.readClock.2) hcall)).tail
    .readClock
  unfold Call.attempt
  dsimp only
  split
  · exact hends
  · exact hends.tail (.note _)

end Runs

namespace World

variable {setting : Setting} {resets : Prop} (h : resets ∨ setting.NeverResets)
include h

theorem runCallWithin_moves (depth : Nat) (id : Scalar) (w : World) :
    Moves setting resets w (runCallWithin setting depth id w).2 := by
  induction depth generalizing id w with
  | zero => exact .refl
  | succ depth ih =>
    unfold runCallWithin
    split
    · exact .refl
    · next call hcall =>
      exact Call.attempt_moves ih h (.inr (List.mem_map_of_mem (mem_of_callWithId hcall)))

theorem attempt_moves {call : Call} {w : World} (hcall : resets ∨ call.id ∈ w.runner.ids) :
    Moves setting resets w (call.attempt setting (nestedRuns setting) w).2 :=
  Call.attempt_moves (runCallWithin_moves h _) h hcall

theorem sweep_moves {calls : List Call} {w : World}
    (hcalls : ∀ call ∈ calls, resets ∨ call.id ∈ w.runner.ids) :
    Moves setting resets w (w.sweep setting calls).2 := by
  induction calls generalizing w with
  | nil => exact .refl
  | cons call calls ih =>
    obtain ⟨hcall, hcalls⟩ := List.forall_mem_cons.1 hcalls
    have hattempt := attempt_moves h hcall
    rcases sweep_cons_eq setting call calls w with ⟨-, -, hsweep⟩ | ⟨-, hsweep⟩
    · rw [hsweep]
      exact hattempt.tail (.note _)
    · rw [hsweep]
      exact hattempt.trans (ih fun later hlater => Moves.loaded (hcalls later hlater) hattempt)

theorem runAll_moves (w : World) : Moves setting resets w (w.runAll setting).2 :=
  (sweep_moves h fun _ hcall => .inr (List.mem_map_of_mem hcall)).tail (.note _)

end World

end LinkedCalls
