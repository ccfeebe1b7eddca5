import LinkedCalls.Proofs.Effect

/-!
Independent calls of built-in operations. Two calls of which neither reads what the other leaves
behind, and which do not write the same key, may change places.
-/
namespace LinkedCalls

/-- neither of two calls reads what the other leaves behind, and they write different keys -/
structure Call.Independent (setting : Setting) (w : World) (a b : Call) : Prop where
  ids : a.id ≠ b.id
  left_unlinked : b.id ∉ a.targets
  right_unlinked : a.id ∉ b.targets
  left_keys : ∀ key, b.Writes setting w key → key ∉ a.contextKeys
  right_keys : ∀ key, a.Writes setting w key → key ∉ b.contextKeys
  writes : ∀ key, a.Writes setting w key → ¬b.Writes setting w key

namespace Runner

theorem find?_settle_comm {r : Runner} (h : Table.Distinct r.results) {i j : String} (hne : i ≠ j)
    (x y : Except Failure Value) (id : String) :
    Table.find? ((r.settle i x).settle j y).results (.text id) =
      Table.find? ((r.settle j y).settle i x).results (.text id) := by
  rw [find?_settle (settle_distinct h i x), find?_settle (settle_distinct h j y), find?_settle h,
    find?_settle h]
  by_cases hi : i = id
  · have hj : j ≠ id := fun hj => hne (hi.trans hj.symm)
    rw [if_neg hj, if_neg hj]
  · rw [if_neg hi, if_neg hi]

end Runner

namespace Call.Independent

variable {setting : Setting} {w : World} {a b : Call}

theorem symm (h : Independent setting w a b) : Independent setting w b a where
  ids := h.ids.symm
  left_unlinked := h.right_unlinked
  right_unlinked := h.left_unlinked
  left_keys := h.right_keys
  right_keys := h.left_keys
  writes := fun key hb ha => h.writes key ha hb

variable (hregistry : setting.registry = Registry.builtin) (hquiet : setting.behaviour.Quiet)
include hregistry hquiet

theorem seesSame (h : Independent setting w a b) (run : CallRunner) :
    b.SeesSame w (a.attempt setting run w).2 := by
  obtain ⟨e, he⟩ := Builtin.exists_effect? hregistry a w
  obtain ⟨-, hgains⟩ := Call.attempt_of_effect? hquiet he run
  refine ⟨hgains.flags.symm, fun key hkey => ?_, fun target htarget _ => ?_⟩
  · exact (hgains.find?_of_not_mem fun hwritten => h.right_keys key ⟨e, he, hwritten⟩ hkey).symm
  · have hne : a.id ≠ target := by
      rintro rfl
      exact h.right_unlinked htarget
    rw [Call.attempt_runner (Builtin.leavesRunner hregistry)]
    exact (Runner.find?_settle_of_ne hne _).symm

/-- Independent calls of built-in operations commute, whatever state the runner is in, where no
listener writes: each of them has the same outcome in both orders, durations aside. In the end the
same values stand under the same keys of the store, the same results under the same calls, and the
same messages were shown, if in another order. -/
theorem runs_commute (hw : Table.Distinct w.runner.results) (h : Independent setting w a b)
    (run : CallRunner) :
    let first := a.attempt setting run w
    let second := b.attempt setting run first.2
    let first' := b.attempt setting run w
    let second' := a.attempt setting run first'.2
    first.1.untimed = second'.1.untimed ∧ second.1.untimed = first'.1.untimed ∧
      (∀ key, Table.find? second.2.store.entries key = Table.find? second'.2.store.entries key) ∧
      (∀ id : String, Table.find? second.2.runner.results (.text id) =
        Table.find? second'.2.runner.results (.text id)) ∧
      second.2.messages.Perm second'.2.messages := by
  intro first second first' second'
  have hleaves : setting.LeavesRunner := Builtin.leavesRunner hregistry
  have hfirst : Table.Distinct first.2.runner.results := attempt_distinct hleaves hw run a
  have hfirst' : Table.Distinct first'.2.runner.results := attempt_distinct hleaves hw run b
  -- each call has one effect, before the other and after it
  obtain ⟨ha, e, he, hgains, hgains'⟩ :=
    (h.symm.seesSame hregistry hquiet run).attempt_eq hregistry hquiet hw hfirst' run
  obtain ⟨hb, f, hf, hgained', hgained⟩ :=
    (h.seesSame hregistry hquiet run).attempt_eq hregistry hquiet hw hfirst run
  refine ⟨ha, hb.symm, fun key => ?_, fun id => ?_, ?_⟩
  · rw [hgained.entries, hgains.entries, hgains'.entries, hgained'.entries]
    refine Table.find?_write_comm (fun x hx y hy hxy => ?_) _ _
    exact h.writes x.1 ⟨e, he, List.mem_map_of_mem hx⟩ ⟨f, hf, hxy ▸ List.mem_map_of_mem hy⟩
  · have hending : first.1.ending = second'.1.ending := Outcome.ending_of_untimed ha
    have hending' : first'.1.ending = second.1.ending := Outcome.ending_of_untimed hb
    rw [Call.attempt_runner hleaves, Call.attempt_runner hleaves run a w,
      Call.attempt_runner hleaves run a, Call.attempt_runner hleaves run b w]
    rw [hending, hending']
    exact Runner.find?_settle_comm hw h.ids _ _ id
  · rw [hgained.messages, hgains.messages, hgains'.messages, hgained'.messages, List.append_assoc,
      List.append_assoc]
    exact List.perm_append_comm.append_left _

end Call.Independent

namespace Demo

/-- a store in which one entry names another -/
def signposted : World where
  store := { entries := [(.text "where", .text "shade")] }

def paint : Call where
  id := "demo.paint"
  operation := "setContext"
  params := [{ name := "key", value := .text "color" }, { name := "value", value := .text "red" }]

def darken : Call where
  id := "demo.darken"
  operation := "setContext"
  params := [{ name := "key", link := some (.contextKey "where") },
    { name := "value", value := .text "dark" }]

/-- what each call writes is known when the links are followed, and it is not the same -/
theorem signposted_commute :
    setting.registry = Registry.builtin ∧ setting.behaviour.Quiet ∧
      Table.Distinct signposted.runner.results ∧
      Call.Independent setting signposted paint darken ∧
      ∀ key, Table.find?
          (darken.attempt setting (World.nestedRuns setting)
            (paint.attempt setting (World.nestedRuns setting) signposted).2).2.store.entries key =
        Table.find?
          (paint.attempt setting (World.nestedRuns setting)
            (darken.attempt setting (World.nestedRuns setting) signposted).2).2.store.entries
          key := by
  have hquiet : setting.behaviour.Quiet := fun _ _ => trivial
  have hdistinct : Table.Distinct signposted.runner.results := List.Pairwise.nil
  have hpaint : ∀ key, paint.Writes setting signposted key → key = "color" := by
    rintro key ⟨e, he, hkey⟩
    obtain rfl := Option.some.inj he
    exact List.mem_singleton.1 hkey
  have hdarken : ∀ key, darken.Writes setting signposted key → key = "shade" := by
    rintro key ⟨e, he, hkey⟩
    obtain rfl := Option.some.inj he
    exact List.mem_singleton.1 hkey
  have hindependent : Call.Independent setting signposted paint darken := by
    refine ⟨by decide, by decide, by decide, fun key h => ?_, fun key h => ?_, fun key h h' => ?_⟩
    · rw [hdarken key h]
      decide
    · rw [hpaint key h]
      decide
    · rw [hpaint key h] at h'
      exact absurd (hdarken "color" h') (by decide)
  obtain ⟨-, -, hentries, -⟩ :=
    Call.Independent.runs_commute rfl hquiet hdistinct hindependent (World.nestedRuns setting)
  exact ⟨rfl, hquiet, hdistinct, hindependent, hentries⟩

end Demo

end LinkedCalls
