import LinkedCalls.Proofs.Cascade
import LinkedCalls.Proofs.Moves

/-!
Results and the calls they belong to. As long as no implementation resets the runner, every result is
that of a loaded call, however runs are nested in each other. A reset from within a run is another
matter: the run goes on and its result is kept, though its call is gone.
-/
namespace LinkedCalls

namespace Runner

/-- every result is that of a loaded call -/
def Owns (r : Runner) : Prop := ∀ key ∈ Table.keys r.results, ∃ id ∈ r.ids, key = .text id

theorem Owns.mono {r r' : Runner} (h : r.Owns)
    (hresults : Table.keys r'.results ⊆ Table.keys r.results) (hids : r.ids ⊆ r'.ids) :
    r'.Owns := by
  intro key hkey
  obtain ⟨id, hid, heq⟩ := h key (hresults hkey)
  exact ⟨id, hids hid, heq⟩

theorem Owns.discard {r : Runner} (h : r.Owns) (id : String) : (r.discard id).Owns :=
  h.mono (List.eraseP_sublist.map _).subset (List.Subset.refl _)

theorem Owns.record {r : Runner} (h : r.Owns) {id : String} (hid : id ∈ r.ids) (v : Value) :
    (r.record id v).Owns := by
  intro key hkey
  obtain ⟨e, he, rfl⟩ := List.mem_map.1 hkey
  rcases Table.key_of_mem_insert he with heq | ⟨d, hd, heq⟩
  · exact ⟨id, hid, heq⟩
  · rw [← heq]
    exact h d.1 (List.mem_map_of_mem hd)

theorem Owns.append {r : Runner} (h : r.Owns) (calls : List Call) :
    { r with calls := r.calls ++ calls }.Owns := by
  refine h.mono (List.Subset.refl _) ?_
  simp only [ids, List.map_append]
  exact List.subset_append_left _ _

end Runner

namespace World

variable {setting : Setting} {w w' : World}

theorem owns_addCall (h : w.runner.Owns) (call : Call) : (w.addCall call).2.runner.Owns := by
  unfold addCall
  split
  · next runner hadd =>
    rw [Runner.add_eq_ok hadd]
    exact h.append [call]
  · exact h

theorem Move.owns (hmove : w.Move setting False w') (h : w.runner.Owns) : w'.runner.Owns := by
  cases hmove with
  | ask prompt =>
    rw [Services.ask_runner]
    exact h
  | addCall call => exact owns_addCall h call
  | reset hresets => exact hresets.elim
  | discard id => exact h.discard id
  | record id v hid => exact h.record (hid.resolve_left not_false) v
  | _ => exact h

theorem Moves.owns (hmoves : Moves setting False w w') (h : w.runner.Owns) : w'.runner.Owns := by
  induction hmoves with
  | refl => exact h
  | tail _ hmove ih => exact hmove.owns ih

theorem owns_act (hnever : setting.NeverResets) (h : w.runner.Owns) (action : Action) :
    (w.act setting action).2.runner.Owns := by
  cases action with
  | addCall call => exact owns_addCall h call
  | load program =>
    simp only [act]
    split
    · next runner hload =>
      rw [Runner.load_eq_ok hload]
      exact h.append program.calls
    · exact h
  | runCall id =>
    have hafter : (runCall setting id w).2.runner.Owns :=
      (runCallWithin_moves (.inr hnever) _ id w).owns h
    simp only [act]
    split
    · next hrun => rwa [hrun] at hafter
    · next hrun => rwa [hrun] at hafter
  | runAll => exact (runAll_moves (.inr hnever) w).owns h
  | reset => exact fun key hkey => absurd hkey List.not_mem_nil

def actAll (setting : Setting) (actions : List Action) (w : World) : World :=
  actions.foldl (fun w action => (w.act setting action).2) w

theorem owns_actAll (hnever : setting.NeverResets) (h : w.runner.Owns) (actions : List Action) :
    (w.actAll setting actions).runner.Owns := by
  induction actions generalizing w with
  | nil => exact h
  | cons action actions ih => exact ih (owns_act hnever h action)

/-- After any sequence of actions on a fresh runner, with implementations that add and run calls but
do not reset the runner: every result is that of a call that is loaded now, a reset leaves no result,
and a call that reaches its implementation links to results of loaded calls only. -/
theorem results_of_loaded_calls (hnever : setting.NeverResets) (w : World) (stop : Bool)
    (actions : List Action) :
    let after := { w with runner := { stopOnError := stop } }.actAll setting actions
    (∀ key ∈ Table.keys after.runner.results, ∃ call ∈ after.runner.calls, key = .text call.id) ∧
    (after.act setting .reset).2.runner.results = [] ∧
    ∀ (run : CallRunner) (call : Call) (params : Params),
      call.Invokes setting run .kept after params →
        ∀ target ∈ call.targets, target ∈ after.runner.ids := by
  intro after
  have hstart : ({ w with runner := { stopOnError := stop } } : World).runner.Owns :=
    fun key hkey => absurd hkey List.not_mem_nil
  have howns : after.runner.Owns := owns_actAll hnever hstart actions
  refine ⟨?_, rfl, ?_⟩
  · intro key hkey
    obtain ⟨id, hid, rfl⟩ := howns key hkey
    obtain ⟨call, hcall, rfl⟩ := List.mem_map.1 hid
    exact ⟨call, hcall, rfl⟩
  · intro run call params hinvokes target htarget
    by_contra hgone
    have hnone : Table.find? (after.runner.discard call.id).results (.text target) = none := by
      rw [Table.find?_eq_none_iff]
      intro e he heq
      obtain ⟨id, hid, hkey⟩ := howns.discard call.id e.1 (List.mem_map_of_mem he)
      rw [heq] at hkey
      rw [Scalar.text.inj hkey] at hgone
      exact hgone hid
    exact Call.not_invokes_of_missing htarget hnone ⟨params, hinvokes⟩

end World

namespace Demo

def delegate : Definition where
  id := "delegate"
  implementation := some fun _ _ =>
    .addCall chat fun _ => .runCall (.text chat.id) fun _ => .done (.text "asked")

def delegating : Setting := { greeting with registry := delegate :: Registry.builtin }

/-- the chat is added and held in the midst of another run; both have a result and are loaded -/
theorem delegating_owns :
    delegating.NeverResets ∧
      let after := World.actAll delegating
        [.addCall ⟨"demo.delegate", "delegate", "", []⟩, .runAll]
        { runner := { stopOnError := true } }
      Table.keys after.runner.results = [.text chat.id, .text "demo.delegate"] ∧
        ∃ call ∈ after.runner.calls, Scalar.text chat.id = .text call.id := by
  have hnever : delegating.NeverResets := by
    intro d hd f hf call params
    rcases List.mem_cons.1 hd with rfl | hd
    · obtain rfl := Option.some.inj hf
      intro added ran
      trivial
    · exact (Builtin.leavesRunner (s := setting) rfl d hd f hf call params).neverResets
  obtain ⟨howned, -, -⟩ := World.results_of_loaded_calls hnever {} true
    [.addCall ⟨"demo.delegate", "delegate", "", []⟩, .runAll]
  exact ⟨hnever, rfl, howned (.text chat.id) (List.mem_cons_self)⟩

def restart : Definition where
  id := "restart"
  implementation := some fun _ _ => .reset (.done (.text "old"))

def restarting : Setting := { setting with registry := restart :: Registry.builtin }

/-- the call of a program whose ids are those of the cleared one; the first call is not run -/
def afresh : Program where
  name := "afresh"
  calls := [chat, showReply]

/-- a result that outlives its call: the run that cleared the runner leaves one, nothing being loaded,
and a call of a program loaded later shows it though the call that it links to has not run -/
theorem restart_outlived :
    let cleared := World.actAll restarting
      [.addCall { chat with operation := "restart" }, .runCall (.text chat.id)] {}
    Table.keys cleared.runner.results = [.text chat.id] ∧ cleared.runner.calls = [] ∧
      ((cleared.actAll restarting [.load afresh, .runCall (.text showReply.id)]).messages.map
        Message.text).map Value.plain = ["old"] :=
  ⟨rfl, rfl, rfl⟩

end Demo

end LinkedCalls
