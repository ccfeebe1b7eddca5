import LinkedCalls.Program.Document
import Mathlib.Data.List.Forall2
import Mathlib.Data.List.Nodup

/-!
The program format. A value is read as a program if and only if it describes one, and then as that
one: every field has the value it is given, of the kind it has there.
-/
namespace LinkedCalls

section Ok

variable {ε ε' α β : Type}

theorem map_eq_ok {f : α → β} {c : Except ε α} {y : β} :
    c.map f = .ok y ↔ ∃ x, c = .ok x ∧ f x = y := by
  cases c <;> simp [Except.map]

theorem mapError_eq_ok {f : ε → ε'} {c : Except ε α} {x : α} :
    c.mapError f = .ok x ↔ c = .ok x := by
  cases c <;> simp [Except.mapError]

theorem bind_eq_ok {f : α → Except ε β} {c : Except ε α} {y : β} :
    (c >>= f) = .ok y ↔ ∃ x, c = .ok x ∧ f x = .ok y := by
  cases c <;> simp [bind, Except.bind]

theorem exists_of_mapM {f : α → Except ε β} {xs : List α} {ys : List β}
    (h : xs.mapM f = .ok ys) : ∀ x ∈ xs, ∃ y, f x = .ok y := by
  induction xs generalizing ys with
  | nil => simp
  | cons x xs ih =>
    rw [List.mapM_cons] at h
    obtain ⟨y, hy, hrest⟩ := bind_eq_ok.1 h
    obtain ⟨rest, hrest, -⟩ := bind_eq_ok.1 hrest
    exact List.forall_mem_cons.2 ⟨⟨y, hy⟩, ih hrest⟩

end Ok

namespace Checked

variable {α β γ : Type}

theorem refuse_ne_ok (cause : Cause) (y : β) : (refuse cause : Checked β) ≠ .ok y := by
  rintro ⟨⟩

theorem within_eq_ok {step : Place} {c : Checked β} {y : β} :
    within step c = .ok y ↔ c = .ok y := by
  cases c <;> simp [within]

theorem both_eq_ok {c : Checked β} {d : Checked γ} {x : β} {y : γ} :
    both c d = .ok (x, y) ↔ c = .ok x ∧ d = .ok y := by
  cases c <;> cases d <;> simp [both]

theorem items_eq_ok {f : α → Checked β} {n : Nat} {xs : List α} {ys : List β} :
    items f n xs = .ok ys ↔ List.Forall₂ (fun x y => f x = .ok y) xs ys := by
  induction xs generalizing n ys with
  | nil => cases ys <;> simp [items]
  | cons x xs ih =>
    simp only [items, map_eq_ok, Prod.exists, both_eq_ok, within_eq_ok]
    constructor
    · rintro ⟨y, rest, ⟨hx, hxs⟩, rfl⟩
      exact .cons hx (ih.1 hxs)
    · rintro (_ | ⟨hx, hxs⟩)
      exact ⟨_, _, ⟨hx, ih.2 hxs⟩, rfl⟩

theorem exists_of_mem_items {f : α → Checked β} {n : Nat} {xs : List α} {ys : List β}
    (h : items f n xs = .ok ys) {y : β} (hy : y ∈ ys) : ∃ x, f x = .ok y := by
  rw [items_eq_ok] at h
  induction h with
  | nil => cases hy
  | cons hx _ ih =>
    rcases List.mem_cons.1 hy with rfl | hy
    · exact ⟨_, hx⟩
    · exact ih hy

end Checked

/-- a text that may stand where none may be empty: there no half of a surrogate pair is read -/
def IsName (s : String) : Prop := s ≠ "" ∧ Half.isIn s = false

instance (s : String) : Decidable (IsName s) :=
  inferInstanceAs (Decidable (s ≠ "" ∧ Half.isIn s = false))

def Link.Valid : Link → Prop
  | .contextKey key => IsName key
  | .operation target => IsName target

structure Param.Valid (p : Param) : Prop where
  name : IsName p.name
  link : ∀ l, p.link = some l → l.Valid

structure Call.Valid (c : Call) : Prop where
  id : IsName c.id
  operation : IsName c.operation
  params : ∀ p ∈ c.params, p.Valid
  names : (c.params.map Param.name).Nodup

structure Program.Valid (p : Program) : Prop where
  name : IsName p.name
  calls : ∀ c ∈ p.calls, c.Valid
  ids : (p.calls.map Call.id).Nodup

theorem field?_record (fields : List (String × Value)) (name : String) :
    (Value.record fields).field? name = (fields.find? (·.1 == name)).map Prod.snd := by
  induction fields with
  | nil => rfl
  | cons f fields ih =>
    simp only [Value.record, Value.field?, Table.find?, List.map_cons] at ih ⊢
    by_cases hname : f.1 = name
    · simp [Scalar.same, hname]
    · simpa [Scalar.same, hname] using ih

namespace Value

/-- the value is a link of that parameter -/
inductive DescribesLink (v : Value) (param : String) : Link → Prop where
  | contextKey {key : String} : v.field? "type" = some (.text "contextKey") →
      v.field? "param_name" = some (.text param) → v.field? "context_key" = some (.text key) →
      IsName key → DescribesLink v param (.contextKey key)
  | operation {target : String} : v.field? "type" = some (.text "operation") →
      v.field? "param_name" = some (.text param) →
      v.field? "target_call_id" = some (.text target) → IsName target →
      DescribesLink v param (.operation target)

structure DescribesParam (v : Value) (p : Param) : Prop where
  name : v.field? "name" = some (.text p.name)
  isName : IsName p.name
  value : v.field? "value" = some (.scalar p.value) ∨ v.field? "value" = none ∧ p.value = .null
  link : (v.field? "link" = none ∨ v.field? "link" = some .null) ∧ p.link = none ∨
    ∃ x l, v.field? "link" = some x ∧ p.link = some l ∧ x.DescribesLink p.name l

structure DescribesCall (v : Value) (c : Call) : Prop where
  id : v.field? "call_id" = some (.text c.id)
  isId : IsName c.id
  operation : v.field? "op_def_id" = some (.text c.operation)
  isOperation : IsName c.operation
  description : v.field? "description" = some (.text c.description) ∨
    v.field? "description" = none ∧ c.description = ""
  params : (∃ items, v.field? "params" = some (.list items) ∧
      List.Forall₂ DescribesParam items c.params) ∨
    v.field? "params" = none ∧ c.params = []
  names : (c.params.map Param.name).Nodup

structure DescribesProgram (v : Value) (p : Program) : Prop where
  name : v.field? "name" = some (.text p.name)
  isName : IsName p.name
  description : (v.field? "description" = none ∨ v.field? "description" = some .null) ∧
      p.description = none ∨
    ∃ s, v.field? "description" = some (.text s) ∧ p.description = some s
  calls : (∃ items, v.field? "calls" = some (.list items) ∧
      List.Forall₂ DescribesCall items p.calls) ∨
    v.field? "calls" = none ∧ p.calls = []
  ids : (p.calls.map Call.id).Nodup

theorem eq_map_of_field? {v x : Value} {name : String} (h : v.field? name = some x) :
    ∃ entries, v = .map entries := by
  rcases v with s | items | entries
  · cases h
  · cases h
  · exact ⟨entries, rfl⟩

end Value

namespace Reading

open Value

theorem entry?_namedEntries (entries : List (Scalar × Value)) (name : String) :
    entry? (namedEntries entries) name = (Value.map entries).field? name := by
  induction entries with
  | nil => rfl
  | cons e entries ih =>
    obtain ⟨key, v⟩ := e
    simp only [field?, Table.find?] at ih ⊢
    cases key with
    | text s =>
      by_cases hs : s = name
      · simp [namedEntries, entry?, Scalar.same, hs]
      · simpa [namedEntries, entry?, Scalar.same, hs] using ih
    | _ => simpa [namedEntries, Scalar.same, Scalar.toInt?] using ih

theorem shape_eq_null {v : Value} : Source.shape v = .null ↔ v = .null := by
  rcases v with s | items | entries
  · cases s <;> simp [Source.shape, shape]
  · simp [Source.shape, shape]
  · simp [Source.shape, shape]

theorem shape_eq_text {v : Value} {s : String} : Source.shape v = .text s ↔ v = .text s := by
  rcases v with t | items | entries
  · cases t <;> simp [Source.shape, shape]
  · simp [Source.shape, shape]
  · simp [Source.shape, shape]

theorem shape_eq_fields {v : Value} {fields : Entries Value} :
    Source.shape v = .fields fields ↔
      ∃ entries, v = .map entries ∧ fields = namedEntries entries := by
  rcases v with s | items | entries
  · cases s <;> simp [Source.shape, shape]
  · simp [Source.shape, shape]
  · simp [Source.shape, shape, eq_comm]

section Fields

variable {β : Type} {entries : List (Scalar × Value)} {name : String} {f : Value → Checked β}
  {y : β}

theorem required_eq_ok : required (namedEntries entries) name f = .ok y ↔
    ∃ x, (Value.map entries).field? name = some x ∧ f x = .ok y := by
  rw [required, Checked.within_eq_ok, entry?_namedEntries]
  cases (Value.map entries).field? name with
  | none => simp [Checked.refuse]
  | some x => simp

theorem optional_eq_ok {default : β} : optional (namedEntries entries) name default f = .ok y ↔
    (∃ x, (Value.map entries).field? name = some x ∧ f x = .ok y) ∨
      (Value.map entries).field? name = none ∧ y = default := by
  rw [optional, Checked.within_eq_ok, entry?_namedEntries]
  cases (Value.map entries).field? name with
  | none => simp [eq_comm]
  | some x => simp

theorem record_eq_ok {model : String} {f : Entries Value → Checked β} {v : Value} :
    record model f v = .ok y ↔ ∃ entries, v = .map entries ∧ f (namedEntries entries) = .ok y := by
  unfold record
  rcases v with s | items | entries
  · cases s <;> simp [Source.shape, shape, Checked.refuse]
  · simp [Source.shape, shape, Checked.refuse]
  · simp [Source.shape, shape]

end Fields

theorem ofText_eq_ok {rule : Empty} {s t : String} :
    ofText rule s = .ok t ↔ s = t ∧ (rule = .refused → IsName t) := by
  unfold ofText IsName
  split
  · next hhalf =>
    refine iff_of_false (Checked.refuse_ne_ok _ _) ?_
    rintro ⟨rfl, hname⟩
    rw [(hname hhalf.1).2] at hhalf
    exact Bool.false_ne_true hhalf.2
  · next hwhole =>
    split
    · next hempty =>
      refine iff_of_false (Checked.refuse_ne_ok _ _) ?_
      rintro ⟨rfl, hname⟩
      exact (hname hempty.1).1 hempty.2
    · next hfilled =>
      constructor
      · rintro ⟨⟩
        refine ⟨rfl, fun hrule => ⟨fun h => hfilled ⟨hrule, h⟩, ?_⟩⟩
        simpa [hrule] using hwhole
      · rintro ⟨rfl, -⟩
        rfl

theorem text_eq_ok {rule : Empty} {v : Value} {t : String} :
    text rule v = .ok t ↔ v = .text t ∧ (rule = .refused → IsName t) := by
  unfold text
  rcases v with s | items | entries
  · cases s <;> simp [Source.shape, shape, Checked.refuse, ofText_eq_ok]
  · simp [Source.shape, shape, Checked.refuse]
  · simp [Source.shape, shape, Checked.refuse]

theorem name_eq_ok {v : Value} {t : String} :
    text .refused v = .ok t ↔ v = .text t ∧ IsName t := by
  simp [text_eq_ok]

theorem anyText_eq_ok {v : Value} {t : String} : text .allowed v = .ok t ↔ v = .text t := by
  simp [text_eq_ok]

theorem optionalText_eq_ok {v : Value} {t : Option String} :
    optionalText v = .ok t ↔ v = .null ∧ t = none ∨ ∃ s, v = .text s ∧ t = some s := by
  unfold optionalText
  split
  · next hnull =>
    obtain rfl := shape_eq_null.1 hnull
    simp [eq_comm]
  · next hsome =>
    have hne : v ≠ .null := fun h => hsome (shape_eq_null.2 h)
    simp only [map_eq_ok, anyText_eq_ok, hne, false_and, false_or]
    constructor
    · rintro ⟨s, hv, rfl⟩
      exact ⟨s, hv, rfl⟩
    · rintro ⟨s, hv, rfl⟩
      exact ⟨s, hv, rfl⟩

theorem literal_eq_ok {v : Value} {s : Scalar} : literal v = .ok s ↔ v = .scalar s := by
  unfold literal
  rcases v with s | items | entries
  · cases s <;> simp [Source.shape, shape]
  · simp [Source.shape, shape]
  · simp [Source.shape, shape]

theorem list_eq_ok {β : Type} {f : Value → Checked β} {v : Value} {ys : List β} :
    list f v = .ok ys ↔
      ∃ items, v = .list items ∧ List.Forall₂ (fun x y => f x = .ok y) items ys := by
  unfold list
  rcases v with s | items | entries
  · cases s <;> simp [Source.shape, shape, Checked.refuse]
  · simp [Source.shape, shape, Checked.items_eq_ok]
  · simp [Source.shape, shape, Checked.refuse]

theorem firstRepeat_eq_none {seen names : List String} :
    firstRepeat seen names = none ↔ names.Nodup ∧ ∀ name ∈ names, name ∉ seen := by
  induction names generalizing seen with
  | nil => simp [firstRepeat]
  | cons name names ih =>
    unfold firstRepeat
    split
    · simp_all
    · rw [ih]
      simp only [List.mem_cons, List.nodup_cons]
      grind

theorem contextKeyLink_eq_ok {entries : List (Scalar × Value)} {l : NamedLink} :
    contextKeyLink (namedEntries entries) = .ok l ↔
      ∃ key, (Value.map entries).field? "param_name" = some (.text l.param) ∧
        (Value.map entries).field? "context_key" = some (.text key) ∧ IsName key ∧
        l.link = .contextKey key := by
  obtain ⟨param, link⟩ := l
  simp only [contextKeyLink, map_eq_ok, Prod.exists, Checked.both_eq_ok, required_eq_ok,
    anyText_eq_ok, name_eq_ok, NamedLink.mk.injEq]
  constructor
  · rintro ⟨_, key, ⟨⟨_, hparam, rfl⟩, _, hkey, rfl, hname⟩, rfl, rfl⟩
    exact ⟨key, hparam, hkey, hname, rfl⟩
  · rintro ⟨key, hparam, hkey, hname, rfl⟩
    exact ⟨_, key, ⟨⟨_, hparam, rfl⟩, _, hkey, rfl, hname⟩, rfl, rfl⟩

theorem operationLink_eq_ok {entries : List (Scalar × Value)} {l : NamedLink} :
    operationLink (namedEntries entries) = .ok l ↔
      ∃ target, (Value.map entries).field? "param_name" = some (.text l.param) ∧
        (Value.map entries).field? "target_call_id" = some (.text target) ∧ IsName target ∧
        l.link = .operation target := by
  obtain ⟨param, link⟩ := l
  simp only [operationLink, map_eq_ok, Prod.exists, Checked.both_eq_ok, required_eq_ok,
    anyText_eq_ok, name_eq_ok, NamedLink.mk.injEq]
  constructor
  · rintro ⟨_, target, ⟨⟨_, hparam, rfl⟩, _, htarget, rfl, hname⟩, rfl, rfl⟩
    exact ⟨target, hparam, htarget, hname, rfl⟩
  · rintro ⟨target, hparam, htarget, hname, rfl⟩
    exact ⟨_, target, ⟨⟨_, hparam, rfl⟩, _, htarget, rfl, hname⟩, rfl, rfl⟩

theorem firstRepeat_nil_eq_none {names : List String} :
    firstRepeat [] names = none ↔ names.Nodup := by
  rw [firstRepeat_eq_none]
  simp

theorem describesLink_of_ok {v : Value} {l : NamedLink} (h : link v = .ok l) :
    v.DescribesLink l.param l.link := by
  unfold link at h
  split at h
  · next fields hfields =>
    obtain ⟨entries, rfl, rfl⟩ := shape_eq_fields.1 hfields
    rw [entry?_namedEntries] at h
    split at h
    · cases h
    · next tag htag =>
      split at h
      · next s hs =>
        obtain rfl := shape_eq_text.1 hs
        split at h
        · next hcontext =>
          obtain rfl : s = "contextKey" := hcontext
          obtain ⟨key, hparam, hkey, hname, hl⟩ :=
            contextKeyLink_eq_ok.1 (Checked.within_eq_ok.1 h)
          rw [hl]
          exact .contextKey htag hparam hkey hname
        · split at h
          · next hoperation =>
            obtain rfl : s = "operation" := hoperation
            obtain ⟨target, hparam, htarget, hname, hl⟩ :=
              operationLink_eq_ok.1 (Checked.within_eq_ok.1 h)
            rw [hl]
            exact .operation htag hparam htarget hname
          · cases h
      · cases h
  · cases h

theorem link_of_describes {v : Value} {param : String} {l : Link} (h : v.DescribesLink param l) :
    link v = .ok ⟨param, l⟩ := by
  obtain ⟨entries, rfl⟩ : ∃ entries, v = .map entries := by
    rcases h with ⟨htag, -⟩ | ⟨htag, -⟩
    · exact eq_map_of_field? htag
    · exact eq_map_of_field? htag
  have hfields : Source.shape (Value.map entries) = .fields (namedEntries entries) := rfl
  have htext : ∀ s, Source.shape (Value.text s) = .text s := fun _ => rfl
  unfold link
  simp only [hfields, entry?_namedEntries]
  rcases h with ⟨htag, hparam, hkey, hname⟩ | ⟨htag, hparam, htarget, hname⟩
  · simp only [htag, htext]
    rw [if_pos (show "contextKey" = contextKeyTag from rfl), Checked.within_eq_ok,
      contextKeyLink_eq_ok]
    exact ⟨_, hparam, hkey, hname, rfl⟩
  · simp only [htag, htext]
    rw [if_neg (by decide), if_pos (show "operation" = operationTag from rfl),
      Checked.within_eq_ok, operationLink_eq_ok]
    exact ⟨_, hparam, htarget, hname, rfl⟩

theorem link_eq_ok {v : Value} {l : NamedLink} :
    link v = .ok l ↔ v.DescribesLink l.param l.link :=
  ⟨describesLink_of_ok, link_of_describes⟩

theorem optionalLink_eq_ok {v : Value} {l : Option NamedLink} :
    optionalLink v = .ok l ↔
      v = .null ∧ l = none ∨ ∃ n : NamedLink, v.DescribesLink n.param n.link ∧ l = some n := by
  unfold optionalLink
  split
  · next hnull =>
    obtain rfl := shape_eq_null.1 hnull
    have hnone : ∀ param l, ¬Value.DescribesLink .null param l := by
      rintro param l (⟨⟨⟩⟩ | ⟨⟨⟩⟩)
    simp [eq_comm, hnone]
  · next hsome =>
    have hne : v ≠ .null := fun h => hsome (shape_eq_null.2 h)
    simp only [map_eq_ok, link_eq_ok, hne, false_and, false_or, eq_comm (a := l)]

theorem tieParam_eq_ok {name : String} {value : Scalar} {l : Option NamedLink} {p : Param} :
    tieParam name value l = .ok p ↔ p.name = name ∧ p.value = value ∧
      (l = none ∧ p.link = none ∨ ∃ k, l = some ⟨name, k⟩ ∧ p.link = some k) := by
  obtain ⟨pname, pvalue, plink⟩ := p
  rcases l with _ | ⟨lname, k⟩
  · simp [tieParam, eq_comm]
  · by_cases hname : lname = name
    · subst hname
      simp [tieParam, eq_comm]
    · simp [tieParam, Checked.refuse, hname]

theorem param_eq_ok {v : Value} {p : Param} : param v = .ok p ↔ v.DescribesParam p := by
  simp only [param, record_eq_ok, bind_eq_ok, Prod.exists, Checked.both_eq_ok,
    required_eq_ok, optional_eq_ok, name_eq_ok, literal_eq_ok, optionalLink_eq_ok, tieParam_eq_ok]
  constructor
  · rintro ⟨entries, rfl, name, value, l, ⟨⟨_, hname, rfl, hisName⟩, hvalue, hl⟩, rfl, rfl, hlink⟩
    refine ⟨hname, hisName, ?_, ?_⟩
    · rcases hvalue with ⟨x, hx, rfl⟩ | hvalue
      · exact .inl hx
      · exact .inr hvalue
    · rcases hlink with ⟨rfl, hlink⟩ | ⟨k, rfl, hlink⟩
      · rcases hl with ⟨x, hx, ⟨rfl, -⟩ | ⟨n, -, ⟨⟩⟩⟩ | ⟨hx, -⟩
        · exact .inl ⟨.inr hx, hlink⟩
        · exact .inl ⟨.inl hx, hlink⟩
      · rcases hl with ⟨x, hx, ⟨-, ⟨⟩⟩ | ⟨n, hn, heq⟩⟩ | ⟨-, ⟨⟩⟩
        obtain rfl := Option.some.inj heq
        exact .inr ⟨x, k, hx, hlink, hn⟩
  · rintro ⟨hname, hisName, hvalue, hlink⟩
    obtain ⟨entries, rfl⟩ := eq_map_of_field? hname
    refine ⟨entries, rfl, p.name, p.value, p.link.map (⟨p.name, ·⟩),
      ⟨⟨_, hname, rfl, hisName⟩, ?_, ?_⟩, rfl, rfl, ?_⟩
    · rcases hvalue with hvalue | hvalue
      · exact .inl ⟨_, hvalue, rfl⟩
      · exact .inr hvalue
    · rcases hlink with ⟨hx | hx, hlink⟩ | ⟨x, l, hx, hlink, hl⟩
      · exact .inr ⟨hx, by rw [hlink]; rfl⟩
      · exact .inl ⟨_, hx, .inl ⟨rfl, by rw [hlink]; rfl⟩⟩
      · exact .inl ⟨x, hx, .inr ⟨⟨p.name, l⟩, hl, by rw [hlink]; rfl⟩⟩
    · rcases hlink with ⟨-, hlink⟩ | ⟨x, l, -, hlink, -⟩
      · exact .inl ⟨by rw [hlink]; rfl, hlink⟩
      · exact .inr ⟨l, by rw [hlink]; rfl, hlink⟩

theorem tieCall_eq_ok {c d : Call} :
    tieCall c = .ok d ↔ c = d ∧ (c.params.map Param.name).Nodup := by
  rw [tieCall, ← firstRepeat_nil_eq_none]
  cases firstRepeat [] (c.params.map Param.name) with
  | none => simp
  | some name => simp [Checked.refuse]

theorem tieProgram_eq_ok {p q : Program} :
    tieProgram p = .ok q ↔ p = q ∧ (p.calls.map Call.id).Nodup := by
  rw [tieProgram, ← firstRepeat_nil_eq_none]
  cases firstRepeat [] (p.calls.map Call.id) with
  | none => simp
  | some id => simp [Checked.refuse]

theorem call_eq_ok {v : Value} {c : Call} : call v = .ok c ↔ v.DescribesCall c := by
  simp only [call, record_eq_ok, bind_eq_ok, Prod.exists, Checked.both_eq_ok,
    required_eq_ok, optional_eq_ok, name_eq_ok, anyText_eq_ok, list_eq_ok, param_eq_ok,
    tieCall_eq_ok]
  constructor
  · rintro ⟨entries, rfl, id, operation, description, params, ⟨⟨_, hid, rfl, hisId⟩,
      ⟨_, hoperation, rfl, hisOperation⟩, hdescription, hparams⟩, rfl, hnodup⟩
    refine ⟨hid, hisId, hoperation, hisOperation, ?_, ?_, hnodup⟩
    · rcases hdescription with ⟨_, hx, rfl⟩ | hdescription
      · exact .inl hx
      · exact .inr hdescription
    · rcases hparams with ⟨_, hx, items, rfl, hitems⟩ | hparams
      · exact .inl ⟨items, hx, hitems⟩
      · exact .inr hparams
  · rintro ⟨hid, hisId, hoperation, hisOperation, hdescription, hparams, hnodup⟩
    obtain ⟨entries, rfl⟩ := eq_map_of_field? hid
    refine ⟨entries, rfl, c.id, c.operation, c.description, c.params, ⟨⟨_, hid, rfl, hisId⟩,
      ⟨_, hoperation, rfl, hisOperation⟩, ?_, ?_⟩, rfl, hnodup⟩
    · rcases hdescription with hx | hdescription
      · exact .inl ⟨_, hx, rfl⟩
      · exact .inr hdescription
    · rcases hparams with ⟨items, hx, hitems⟩ | hparams
      · exact .inl ⟨_, hx, items, rfl, hitems⟩
      · exact .inr hparams

theorem program_eq_ok {v : Value} {p : Program} : program v = .ok p ↔ v.DescribesProgram p := by
  simp only [program, record_eq_ok, bind_eq_ok, Prod.exists, Checked.both_eq_ok,
    required_eq_ok, optional_eq_ok, name_eq_ok, optionalText_eq_ok, list_eq_ok, call_eq_ok,
    tieProgram_eq_ok]
  constructor
  · rintro ⟨entries, rfl, name, description, calls, ⟨⟨_, hname, rfl, hisName⟩, hdescription,
      hcalls⟩, rfl, hnodup⟩
    refine ⟨hname, hisName, ?_, ?_, hnodup⟩
    · rcases hdescription with ⟨_, hx, ⟨rfl, hnone⟩ | ⟨s, rfl, hs⟩⟩ | ⟨hx, hnone⟩
      · exact .inl ⟨.inr hx, hnone⟩
      · exact .inr ⟨s, hx, hs⟩
      · exact .inl ⟨.inl hx, hnone⟩
    · rcases hcalls with ⟨_, hx, items, rfl, hitems⟩ | hcalls
      · exact .inl ⟨items, hx, hitems⟩
      · exact .inr hcalls
  · rintro ⟨hname, hisName, hdescription, hcalls, hnodup⟩
    obtain ⟨entries, rfl⟩ := eq_map_of_field? hname
    refine ⟨entries, rfl, p.name, p.description, p.calls, ⟨⟨_, hname, rfl, hisName⟩, ?_, ?_⟩, rfl,
      hnodup⟩
    · rcases hdescription with ⟨hx | hx, hnone⟩ | ⟨s, hx, hs⟩
      · exact .inr ⟨hx, hnone⟩
      · exact .inl ⟨_, hx, .inl ⟨rfl, hnone⟩⟩
      · exact .inl ⟨_, hx, .inr ⟨s, rfl, hs⟩⟩
    · rcases hcalls with ⟨items, hx, hitems⟩ | hcalls
      · exact .inl ⟨_, hx, items, rfl, hitems⟩
      · exact .inr hcalls

section Valid

variable {α β : Type} {entries : Entries α} {field : String} {f : α → Checked β} {y : β}

theorem exists_of_required (h : required entries field f = .ok y) : ∃ x, f x = .ok y := by
  rw [required, Checked.within_eq_ok] at h
  split at h
  · exact ⟨_, h⟩
  · cases h

theorem exists_of_optional {default : β} (h : optional entries field default f = .ok y) :
    (∃ x, f x = .ok y) ∨ y = default := by
  rw [optional, Checked.within_eq_ok] at h
  split at h
  · exact .inl ⟨_, h⟩
  · exact .inr (Except.ok.inj h).symm

variable [Source α]

theorem exists_of_record {model : String} {f : Entries α → Checked β} {x : α}
    (h : record model f x = .ok y) : ∃ entries, f entries = .ok y := by
  unfold record at h
  split at h
  · exact ⟨_, h⟩
  · cases h

theorem exists_of_mem_list {x : α} {ys : List β} (h : list f x = .ok ys) (hy : y ∈ ys) :
    ∃ item, f item = .ok y := by
  unfold list at h
  split at h
  · exact Checked.exists_of_mem_items h hy
  · cases h

theorem exists_of_mem_optional {ys : List β} (h : optional entries field [] (list f) = .ok ys)
    (hy : y ∈ ys) : ∃ item, f item = .ok y := by
  rcases exists_of_optional h with ⟨x, hx⟩ | rfl
  · exact exists_of_mem_list hx hy
  · cases hy

theorem isName_of_text {x : α} {t : String} (h : text .refused x = .ok t) : IsName t := by
  unfold text at h
  split at h
  · exact (ofText_eq_ok.1 h).2 rfl
  · split at h
    · exact (ofText_eq_ok.1 h).2 rfl
    · cases h
  · cases h

theorem isName_of_required {t : String} (h : required entries field (text .refused) = .ok t) :
    IsName t := by
  obtain ⟨x, hx⟩ := exists_of_required h
  exact isName_of_text hx

theorem contextKeyLink_valid {l : NamedLink} (h : contextKeyLink entries = .ok l) :
    l.link.Valid := by
  obtain ⟨⟨param, key⟩, hboth, rfl⟩ := map_eq_ok.1 h
  exact isName_of_required (Checked.both_eq_ok.1 hboth).2

theorem operationLink_valid {l : NamedLink} (h : operationLink entries = .ok l) :
    l.link.Valid := by
  obtain ⟨⟨param, target⟩, hboth, rfl⟩ := map_eq_ok.1 h
  exact isName_of_required (Checked.both_eq_ok.1 hboth).2

theorem link_valid {x : α} {l : NamedLink} (h : link x = .ok l) : l.link.Valid := by
  unfold link at h
  split at h
  · split at h
    · cases h
    · split at h
      · split at h
        · exact contextKeyLink_valid (Checked.within_eq_ok.1 h)
        · split at h
          · exact operationLink_valid (Checked.within_eq_ok.1 h)
          · cases h
      · cases h
  · cases h

theorem optionalLink_valid {x : α} {l : NamedLink} (h : optionalLink x = .ok (some l)) :
    l.link.Valid := by
  unfold optionalLink at h
  split at h
  · cases h
  · obtain ⟨k, hk, hl⟩ := map_eq_ok.1 h
    obtain rfl := Option.some.inj hl
    exact link_valid hk

theorem param_valid {x : α} {p : Param} (h : param x = .ok p) : p.Valid := by
  obtain ⟨entries, hentries⟩ := exists_of_record h
  obtain ⟨⟨name, value, l⟩, hboth, htie⟩ := bind_eq_ok.1 hentries
  obtain ⟨hname, hrest⟩ := Checked.both_eq_ok.1 hboth
  obtain ⟨-, hlink⟩ := Checked.both_eq_ok.1 hrest
  obtain ⟨rfl, -, ⟨rfl, hnone⟩ | ⟨k, rfl, hsome⟩⟩ := tieParam_eq_ok.1 htie
  · exact ⟨isName_of_required hname, fun l hl => by rw [hnone] at hl; cases hl⟩
  · refine ⟨isName_of_required hname, fun l hl => ?_⟩
    obtain rfl := Option.some.inj (hsome.symm.trans hl)
    rcases exists_of_optional hlink with ⟨y, hy⟩ | hnone
    · exact optionalLink_valid hy
    · cases hnone

theorem call_valid {x : α} {c : Call} (h : call x = .ok c) : c.Valid := by
  obtain ⟨entries, hentries⟩ := exists_of_record h
  obtain ⟨⟨id, operation, description, params⟩, hboth, htie⟩ := bind_eq_ok.1 hentries
  obtain ⟨hid, hrest⟩ := Checked.both_eq_ok.1 hboth
  obtain ⟨hoperation, hrest⟩ := Checked.both_eq_ok.1 hrest
  obtain ⟨-, hparams⟩ := Checked.both_eq_ok.1 hrest
  obtain ⟨rfl, hnames⟩ := tieCall_eq_ok.1 htie
  refine ⟨isName_of_required hid, isName_of_required hoperation, fun p hp => ?_, hnames⟩
  obtain ⟨item, hitem⟩ := exists_of_mem_optional hparams hp
  exact param_valid hitem

theorem program_valid {x : α} {p : Program} (h : program x = .ok p) : p.Valid := by
  obtain ⟨entries, hentries⟩ := exists_of_record h
  obtain ⟨⟨name, description, calls⟩, hboth, htie⟩ := bind_eq_ok.1 hentries
  obtain ⟨hname, hrest⟩ := Checked.both_eq_ok.1 hboth
  obtain ⟨-, hcalls⟩ := Checked.both_eq_ok.1 hrest
  obtain ⟨rfl, hids⟩ := tieProgram_eq_ok.1 htie
  refine ⟨isName_of_required hname, fun c hc => ?_, hids⟩
  obtain ⟨item, hitem⟩ := exists_of_mem_optional hcalls hc
  exact call_valid hitem

end Valid

theorem report_eq_ok {β : Type} {model : String} {c : Checked β} {y : β} :
    report model c = .ok y ↔ c = .ok y := by
  cases c <;> simp [report]

end Reading

/-- what is read is valid, whatever it is read from -/
theorem Program.valid_of_read {α : Type} [Source α] {x : α} {p : Program}
    (h : Program.read x = .ok p) : p.Valid :=
  Reading.program_valid (Reading.report_eq_ok.1 h)

theorem Program.valid_of_ofYaml {file : String} {content : Decoded} {p : Program}
    (h : ofYaml file content = .ok p) : p.Valid := by
  obtain ⟨doc, -, hdoc⟩ := bind_eq_ok.1 h
  split at hdoc
  · exact valid_of_read (mapError_eq_ok.1 hdoc)
  · cases hdoc

theorem Program.valid_of_load {files : Files} {file : String} {p : Program}
    (h : load files file = .ok p) : p.Valid := by
  obtain ⟨content, -, hcontent⟩ := bind_eq_ok.1 h
  exact valid_of_ofYaml hcontent

/-- A value is read as a program exactly when it describes it: a mapping with a name, and maybe a
description and a list of calls; each call has an id, an operation, and maybe a description and a
list of parameters; each parameter has a name, a literal and maybe a link that names it. Names and
ids are not empty and hold no half of a surrogate pair, parameter names are distinct in their call
and call ids in the program. -/
theorem Program.read_eq_ok_iff (v : Value) (p : Program) :
    Program.read v = .ok p ↔ v.DescribesProgram p := by
  rw [Program.read, Reading.report_eq_ok, Reading.program_eq_ok]

namespace Demo

/-- a name that is half of a surrogate pair -/
def halfName : Value := .record [("name", .text (String.ofList (Half.chars 0xD800)))]

/-- it is not empty, and yet refused -/
theorem halfName_refused :
    (∃ name, halfName.field? "name" = some (.text name) ∧ name ≠ "") ∧
      halfName.field? "description" = none ∧ halfName.field? "calls" = none ∧
      ∀ p, Program.read halfName ≠ .ok p := by
  refine ⟨⟨_, rfl, by decide⟩, rfl, rfl, fun p hp => ?_⟩
  cases hp

end Demo

end LinkedCalls
