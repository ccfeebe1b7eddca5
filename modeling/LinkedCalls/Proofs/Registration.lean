import LinkedCalls.Proofs.Schema

/-!
Histories of registration. Whatever is asked of a fresh registry, and whatever of it is refused, the
registry holds the definitions that were taken, in the order in which they were taken, each well
formed and under an id of its own. It only ever grows at its end, so nothing that was taken is
replaced or lost.
-/
namespace LinkedCalls

inductive Registration where
  | one (d : Definition)
  | batch (ds : List Definition)

namespace Registry

/-- the first definitions of a batch, those before one that is refused -/
def taken (r : Registry) : List Definition → List Definition
  | [] => []
  | d :: ds =>
    match r.register d with
    | .ok r' => d :: taken r' ds
    | .error _ => []

/-- a registration with a registry of which it is known what it took so far -/
def enter (past : List Definition × Registry) : Registration → List Definition × Registry
  | .one d =>
    match past.2.register d with
    | .ok r => (past.1 ++ [d], r)
    | .error _ => past
  | .batch ds => (past.1 ++ past.2.taken ds, (past.2.registerAll ds).2.1)

/-- all ways to look into a registry show the same definitions -/
structure Agrees (r : Registry) : Prop where
  get : ∀ id d, r.get? id = some d ↔ d ∈ r.list none ∧ d.id = id
  has : ∀ id, r.has id = true ↔ id ∈ r.ids
  ids : r.ids = (r.list none).map Definition.id
  length : r.length = r.ids.length

/-- a batch is registered like its definitions one by one: all of them, or those before the first
that is refused, which fails the batch as it fails by itself -/
inductive Batches (r : Registry) : List Definition → Prop where
  | all {ds : List Definition} {r' : Registry} : ds.foldlM register r = .ok r' →
      r.registerAll ds = (none, r', ds.map registered) → r.taken ds = ds → Batches r ds
  | upTo (before after : List Definition) {d : Definition} {r' : Registry} {failure : Failure} :
      before.foldlM register r = .ok r' → r'.register d = .error failure →
      r.registerAll (before ++ d :: after) = (some failure, r', before.map registered) →
      r.taken (before ++ d :: after) = before → Batches r (before ++ d :: after)

theorem WellFormed.get?_iff {r : Registry} (h : r.WellFormed) (id : String) (d : Definition) :
    r.get? id = some d ↔ d ∈ r ∧ d.id = id :=
  find?_eq_some_iff_of_nodup h.ids

theorem WellFormed.agrees {r : Registry} (h : r.WellFormed) : r.Agrees where
  get := h.get?_iff
  has := fun _ => has_iff_mem_ids
  ids := rfl
  length := by simp [Registry.ids]

theorem batches (r : Registry) (ds : List Definition) : r.Batches ds := by
  induction ds generalizing r with
  | nil => exact .all rfl rfl rfl
  | cons d ds ih =>
    rcases hd : r.register d with failure | r'
    · have hall : r.registerAll (d :: ds) = (some failure, r, []) := by simp [registerAll, hd]
      have htaken : r.taken (d :: ds) = [] := by simp [taken, hd]
      exact .upTo [] ds rfl hd hall htaken
    · have hfold : ∀ more, (d :: more).foldlM register r = more.foldlM register r' := by
        intro more
        rw [List.foldlM_cons, hd]
        rfl
      rcases ih r' with @⟨_, r'', hrest, hall, htaken⟩ |
        @⟨before, after, e, r'', failure, hbefore, hfails, hall, htaken⟩
      · refine .all ((hfold ds).trans hrest) ?_ ?_
        · simp [registerAll, hd, hall]
        · simp [taken, hd, htaken]
      · refine .upTo (d :: before) after ((hfold before).trans hbefore) hfails ?_ ?_
        · simp [registerAll, hd, hall]
        · simp [taken, hd, htaken]

theorem registerAll_eq_append (r : Registry) (ds : List Definition) :
    (r.registerAll ds).2.1 = r ++ r.taken ds := by
  induction ds generalizing r with
  | nil => exact (List.append_nil r).symm
  | cons d ds ih =>
    rcases hd : r.register d with failure | r'
    · simp [registerAll, taken, hd]
    · obtain ⟨-, -, rfl⟩ := register_eq_ok_iff.1 hd
      simp [registerAll, taken, hd, ih]

/-- the registry is what it took, and well formed -/
structure Holds (past : List Definition × Registry) : Prop where
  eq : past.2 = past.1
  wellFormed : past.2.WellFormed

theorem Holds.start : Holds ([], []) := ⟨rfl, ⟨by simp, List.nodup_nil⟩⟩

theorem Holds.enter {past : List Definition × Registry} (h : Holds past) (asked : Registration) :
    Holds (enter past asked) := by
  cases asked with
  | one d =>
    simp only [Registry.enter]
    split
    · next r hr =>
      obtain ⟨-, -, heq⟩ := register_eq_ok_iff.1 hr
      exact ⟨by rw [heq, h.eq], h.wellFormed.register hr⟩
    · exact h
  | batch ds =>
    refine ⟨?_, h.wellFormed.registerAll ds⟩
    simp only [Registry.enter]
    rw [registerAll_eq_append, h.eq]

theorem Holds.foldl {past : List Definition × Registry} (h : Holds past)
    (asked : List Registration) : Holds (asked.foldl Registry.enter past) := by
  induction asked generalizing past with
  | nil => exact h
  | cons a asked ih => exact ih (h.enter a)

theorem prefix_enter (past : List Definition × Registry) (asked : Registration) :
    past.2 <+: (enter past asked).2 := by
  cases asked with
  | one d =>
    simp only [enter]
    split
    · next r hr =>
      obtain ⟨-, -, rfl⟩ := register_eq_ok_iff.1 hr
      exact List.prefix_append _ _
    · exact List.prefix_rfl
  | batch ds =>
    simp only [enter]
    rw [registerAll_eq_append]
    exact List.prefix_append _ _

theorem prefix_foldl (past : List Definition × Registry) (asked : List Registration) :
    past.2 <+: (asked.foldl enter past).2 := by
  induction asked generalizing past with
  | nil => exact List.prefix_rfl
  | cons a asked ih => exact (prefix_enter past a).trans (ih _)

/-- After any history of a fresh registry, refusals included: it holds what it took, in that order,
all of it well formed and under different ids; all ways to look into it agree; what it holds stays
through everything asked of it later. A definition is added at the end exactly if it is well formed
and its id is new; one that is refused leaves the registry as it is, and a batch goes like its
definitions one by one. -/
theorem history_holds (asked : List Registration) :
    let past := asked.foldl enter ([], [])
    let r := past.2
    (∀ d ∈ r, d.WellFormed ∧ r.get? d.id = some d) ∧
    r.ids.Nodup ∧ r.ids = past.1.map Definition.id ∧ r.list none = past.1 ∧
    r.Agrees ∧
    (∀ later : List Registration, r <+: (later.foldl enter past).2 ∧
      ∀ id d, r.get? id = some d → get? (later.foldl enter past).2 id = some d) ∧
    (∀ d r', r.register d = .ok r' ↔ d.id ∉ r.ids ∧ d.WellFormed ∧ r' = r ++ [d]) ∧
    (∀ d failure, r.register d = .error failure → enter past (.one d) = past) ∧
    ∀ ds, r.Batches ds := by
  intro past r
  have hpast : Holds past := Holds.start.foldl asked
  have hr : r.WellFormed := hpast.wellFormed
  refine ⟨?_, hr.ids, ?_, hpast.eq, hr.agrees, ?_, fun _ _ => register_eq_ok_iff, ?_, r.batches⟩
  · intro d hd
    exact ⟨hr.definitions d hd, (hr.get?_iff d.id d).2 ⟨hd, rfl⟩⟩
  · rw [← hpast.eq]
    rfl
  · intro later
    have hgrows := prefix_foldl past later
    exact ⟨hgrows, fun id d hd => hgrows.find?_eq_some hd⟩
  · intro d failure hfails
    have hrefused : past.2.register d = .error failure := hfails
    simp only [enter, hrefused]

end Registry

end LinkedCalls
