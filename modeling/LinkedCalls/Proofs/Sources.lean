import LinkedCalls.Proofs.Format

/-!
Programs are read from what a source shows of itself. Two sources that show the same, layer by
layer, are read as the same program, whatever they are made of.
-/
namespace LinkedCalls

inductive Shape.Alike {α β : Type} (R : α → β → Prop) : Shape α → Shape β → Prop
  | null : Alike R .null .null
  | bool (b : Bool) : Alike R (.bool b) (.bool b)
  | int (n : Int) : Alike R (.int n) (.int n)
  | float (x : Binary64) : Alike R (.float x) (.float x)
  | text (s : String) : Alike R (.text s) (.text s)
  | items {xs : List α} {ys : List β} (related : List.Forall₂ R xs ys) :
      Alike R (.items xs) (.items ys)
  | fields {es : List (String × α)} {fs : List (String × β)}
      (related : List.Forall₂ (fun e f => e.1 = f.1 ∧ R e.2 f.2) es fs) :
      Alike R (.fields es) (.fields fs)

namespace Reading

variable {α β γ : Type} {R : α → β → Prop}

/-- what is read from the one source is read from the related one -/
def Follows (R : α → β → Prop) (f : α → Checked γ) (f' : β → Checked γ) : Prop :=
  ∀ x y z, R x y → f' y = .ok z → f x = .ok z

abbrev EntriesAlike (R : α → β → Prop) : Entries α → Entries β → Prop :=
  List.Forall₂ fun e f => e.1 = f.1 ∧ R e.2 f.2

section Entries

variable {es : Entries α} {fs : Entries β} {name : String} {f : α → Checked γ} {f' : β → Checked γ}
  {z : γ}

theorem entry?_alike (h : EntriesAlike R es fs) (name : String) :
    Option.Rel R ( entry? es name) ( entry? fs name) := by
  induction h with
  | nil => exact .none
  | @cons e e' es fs he _ ih =>
    obtain ⟨hname, hvalue⟩ := he
    simp only [ entry?, List.find?_cons, hname] at ih ⊢
    cases e'.1 == name with
    | true => exact .some hvalue
    | false => exact ih

theorem field_follows {missing : Checked γ} (h : EntriesAlike R es fs) (hf : Follows R f f')
    (hz : (match entry? fs name with | some y => f' y | none => missing) = .ok z) :
    (match entry? es name with | some x => f x | none => missing) = .ok z := by
  have hentry := entry?_alike h name
  generalize entry? es name = a at hentry ⊢
  generalize entry? fs name = b at hentry hz
  cases hentry with
  | none => exact hz
  | some hxy => exact hf _ _ _ hxy hz

theorem required_follows (h : EntriesAlike R es fs) (hf : Follows R f f')
    (hz : required fs name f' = .ok z) : required es name f = .ok z := by
  rw [required, Checked.within_eq_ok] at hz ⊢
  exact field_follows h hf hz

theorem optional_follows {default : γ} (h : EntriesAlike R es fs) (hf : Follows R f f')
    (hz : optional fs name default f' = .ok z) : optional es name default f = .ok z := by
  rw [optional, Checked.within_eq_ok] at hz ⊢
  exact field_follows h hf hz

end Entries

variable [Source α] [Source β]

/-- related sources show related shapes -/
def Simulates (R : α → β → Prop) : Prop :=
  ∀ x y, R x y → (Source.shape x).Alike R (Source.shape y)

namespace Simulates

theorem null_iff (h : Simulates R) {x : α} {y : β} (hxy : R x y) :
    Source.shape x = .null ↔ Source.shape y = .null := by
  have hshape := h x y hxy
  generalize Source.shape x = a at hshape ⊢
  generalize Source.shape y = b at hshape ⊢
  cases hshape <;> simp

theorem text (h : Simulates R) (rule : Empty) : Follows R (text rule) (text rule) := by
  intro x y z hxy hy
  have hshape := h x y hxy
  unfold Reading.text at hy ⊢
  generalize Source.shape x = a at hshape ⊢
  generalize Source.shape y = b at hshape hy
  cases hshape <;> exact hy

theorem literal (h : Simulates R) : Follows R literal literal := by
  intro x y z hxy hy
  have hshape := h x y hxy
  unfold Reading.literal at hy ⊢
  generalize Source.shape x = a at hshape ⊢
  generalize Source.shape y = b at hshape hy
  cases hshape <;> exact hy

theorem optionalText (h : Simulates R) : Follows R optionalText optionalText := by
  intro x y z hxy hy
  unfold Reading.optionalText at hy ⊢
  split at hy
  · next hnull =>
    rw [(h.null_iff hxy).2 hnull]
    exact hy
  · next hsome =>
    obtain ⟨s, hs, hz⟩ := map_eq_ok.1 hy
    split
    · next hnull => exact absurd ((h.null_iff hxy).1 hnull) hsome
    · exact map_eq_ok.2 ⟨s, h.text .allowed x y s hxy hs, hz⟩

theorem list (h : Simulates R) {f : α → Checked γ} {f' : β → Checked γ} (hf : Follows R f f') :
    Follows R (list f) (list f') := by
  intro x y z hxy hy
  have hshape := h x y hxy
  unfold Reading.list at hy ⊢
  generalize Source.shape x = a at hshape ⊢
  generalize Source.shape y = b at hshape hy
  cases hshape with
  | @items xs ys related =>
    rw [Checked.items_eq_ok] at hy ⊢
    -- items are read one by one, so the readings are compared one by one
    induction related generalizing z with
    | nil =>
      cases hy
      exact .nil
    | cons hx _ ih =>
      obtain ⟨w, ws, hw, hws, rfl⟩ := List.forall₂_cons_left_iff.1 hy
      exact .cons (hf _ _ _ hx hw) (ih _ hws)
  | _ => exact absurd hy (Checked.refuse_ne_ok _ _)

theorem record (h : Simulates R) {model : String} {f : Entries α → Checked γ}
    {f' : Entries β → Checked γ}
    (hf : ∀ es fs z, EntriesAlike R es fs → f' fs = .ok z → f es = .ok z) :
    Follows R (record model f) (record model f') := by
  intro x y z hxy hy
  have hshape := h x y hxy
  unfold Reading.record at hy ⊢
  generalize Source.shape x = a at hshape ⊢
  generalize Source.shape y = b at hshape hy
  cases hshape with
  | fields related => exact hf _ _ z related hy
  | _ => exact absurd hy (Checked.refuse_ne_ok _ _)

theorem contextKeyLink (h : Simulates R) {es : Entries α} {fs : Entries β} {l : NamedLink}
    (hes : EntriesAlike R es fs) (hl : contextKeyLink fs = .ok l) : contextKeyLink es = .ok l := by
  obtain ⟨⟨param, key⟩, hboth, rfl⟩ := map_eq_ok.1 hl
  obtain ⟨hparam, hkey⟩ := Checked.both_eq_ok.1 hboth
  exact map_eq_ok.2 ⟨(param, key), Checked.both_eq_ok.2
    ⟨required_follows hes (h.text .allowed) hparam, required_follows hes (h.text .refused) hkey⟩,
    rfl⟩

theorem operationLink (h : Simulates R) {es : Entries α} {fs : Entries β} {l : NamedLink}
    (hes : EntriesAlike R es fs) (hl : operationLink fs = .ok l) : operationLink es = .ok l := by
  obtain ⟨⟨param, target⟩, hboth, rfl⟩ := map_eq_ok.1 hl
  obtain ⟨hparam, htarget⟩ := Checked.both_eq_ok.1 hboth
  exact map_eq_ok.2 ⟨(param, target), Checked.both_eq_ok.2
    ⟨required_follows hes (h.text .allowed) hparam, required_follows hes (h.text .refused) htarget⟩,
    rfl⟩

theorem link (h : Simulates R) : Follows R link link := by
  intro x y z hxy hy
  have hshape := h x y hxy
  unfold Reading.link at hy ⊢
  generalize Source.shape x = a at hshape ⊢
  generalize Source.shape y = b at hshape hy
  cases hshape with
  | @fields es fs related =>
    have hentry := entry?_alike related "type"
    simp only at hy ⊢
    generalize entry? es "type" = s at hentry ⊢
    generalize entry? fs "type" = t at hentry hy
    cases hentry with
    | none => exact absurd hy (Checked.refuse_ne_ok _ _)
    | @some u v huv =>
      have htag := h u v huv
      simp only at hy ⊢
      generalize Source.shape u = a at htag ⊢
      generalize Source.shape v = b at htag hy
      cases htag with
      | text s =>
        simp only at hy ⊢
        split_ifs at hy ⊢
        · exact Checked.within_eq_ok.2 (h.contextKeyLink related (Checked.within_eq_ok.1 hy))
        · exact Checked.within_eq_ok.2 (h.operationLink related (Checked.within_eq_ok.1 hy))
        · cases hy
      | _ => cases hy
  | _ => cases hy

theorem optionalLink (h : Simulates R) : Follows R optionalLink optionalLink := by
  intro x y z hxy hy
  unfold Reading.optionalLink at hy ⊢
  split at hy
  · next hnull =>
    rw [(h.null_iff hxy).2 hnull]
    exact hy
  · next hsome =>
    obtain ⟨l, hl, hz⟩ := map_eq_ok.1 hy
    split
    · next hnull => exact absurd ((h.null_iff hxy).1 hnull) hsome
    · exact map_eq_ok.2 ⟨l, h.link x y l hxy hl, hz⟩

theorem param (h : Simulates R) : Follows R param param := by
  refine h.record fun es fs p hes hp => ?_
  obtain ⟨⟨name, value, l⟩, hboth, htie⟩ := bind_eq_ok.1 hp
  obtain ⟨hname, hrest⟩ := Checked.both_eq_ok.1 hboth
  obtain ⟨hvalue, hl⟩ := Checked.both_eq_ok.1 hrest
  exact bind_eq_ok.2 ⟨(name, value, l), Checked.both_eq_ok.2
    ⟨required_follows hes (h.text .refused) hname, Checked.both_eq_ok.2
      ⟨optional_follows hes h.literal hvalue, optional_follows hes h.optionalLink hl⟩⟩, htie⟩

theorem call (h : Simulates R) : Follows R call call := by
  refine h.record fun es fs c hes hc => ?_
  obtain ⟨⟨id, operation, description, params⟩, hboth, htie⟩ := bind_eq_ok.1 hc
  obtain ⟨hid, hrest⟩ := Checked.both_eq_ok.1 hboth
  obtain ⟨hoperation, hrest⟩ := Checked.both_eq_ok.1 hrest
  obtain ⟨hdescription, hparams⟩ := Checked.both_eq_ok.1 hrest
  exact bind_eq_ok.2 ⟨(id, operation, description, params), Checked.both_eq_ok.2
    ⟨required_follows hes (h.text .refused) hid, Checked.both_eq_ok.2
      ⟨required_follows hes (h.text .refused) hoperation, Checked.both_eq_ok.2
        ⟨optional_follows hes (h.text .allowed) hdescription,
          optional_follows hes (h.list h.param) hparams⟩⟩⟩, htie⟩

/-- a program that is read from the one source is read from the related one -/
theorem program (h : Simulates R) : Follows R program program := by
  refine h.record fun es fs p hes hp => ?_
  obtain ⟨⟨name, description, calls⟩, hboth, htie⟩ := bind_eq_ok.1 hp
  obtain ⟨hname, hrest⟩ := Checked.both_eq_ok.1 hboth
  obtain ⟨hdescription, hcalls⟩ := Checked.both_eq_ok.1 hrest
  exact bind_eq_ok.2 ⟨(name, description, calls), Checked.both_eq_ok.2
    ⟨required_follows hes (h.text .refused) hname, Checked.both_eq_ok.2
      ⟨optional_follows hes h.optionalText hdescription,
        optional_follows hes (h.list h.call) hcalls⟩⟩, htie⟩

end Simulates

end Reading

end LinkedCalls
