import LinkedCalls.Proofs.Sources
import LinkedCalls.Proofs.Yaml.Printed

/-!
Programs survive being written as documents. The document of a valid program is read as the program
itself, with the kind of every value, unless it holds a number that is too long to be written or one
that does not equal itself.
-/
namespace LinkedCalls

open Yaml

section Fits

theorem fits_record {n : Nat} {fields : Fields} {names : List String}
    (hnames : (fields.map Prod.fst).Sublist names) (hnodup : names.Nodup)
    (hkeys : ∀ name ∈ names, Scan.IsKey name) (hne : fields ≠ [])
    (hvalues : ∀ f ∈ fields, Fits (n + 2) f.2) : Fits n (.record fields) :=
  .record hne (fun _ hf => hkeys _ (hnames.subset (List.mem_map_of_mem hf)))
    (hnodup.sublist hnames) hvalues

theorem sublist_optionalField (absent : Absent) (name : String) (value : Value) :
    ((optionalField absent name value).map Prod.fst).Sublist [name] := by
  unfold optionalField
  split_ifs
  · exact List.nil_sublist _
  · exact List.Sublist.refl _

theorem eq_of_mem_optionalField {absent : Absent} {name : String} {value : Value}
    {f : String × Value} (h : f ∈ optionalField absent name value) : f.2 = value := by
  unfold optionalField at h
  split_ifs at h
  · cases h
  · rw [List.mem_singleton.1 h]

theorem fits_rows {n : Nat} {rows : List Fields} (names : List String)
    (hnames : ∀ r ∈ rows, (r.map Prod.fst).Sublist names) (hnodup : names.Nodup)
    (hkeys : ∀ name ∈ names, Scan.IsKey name) (hne : ∀ r ∈ rows, r ≠ [])
    (hvalues : ∀ r ∈ rows, ∀ f ∈ r, Fits (n + 2) f.2) : Fits n (.list (rows.map Value.record)) :=
  .list hne (fun r hr _ hf => hkeys _ ((hnames r hr).subset (List.mem_map_of_mem hf)))
    (fun r hr => hnodup.sublist (hnames r hr)) hvalues

theorem fits_text {n : Nat} (s : String) (h : n + 2 < width) : Fits n (.text s) :=
  .scalar (Scan.IsKey.exportable s) h

theorem fits_link (param : String) (l : Link) : Fits 6 (l.toValue param) := by
  cases l with
  | contextKey key =>
    refine fits_record (List.Sublist.refl ["type", "param_name", "context_key"]) (by decide)
      (by decide) (by simp) fun f hf => ?_
    simp only [List.mem_cons, List.not_mem_nil, or_false] at hf
    rcases hf with rfl | rfl | rfl <;> exact fits_text _ (by decide)
  | operation target =>
    refine fits_record (List.Sublist.refl ["type", "param_name", "target_call_id"]) (by decide)
      (by decide) (by simp) fun f hf => ?_
    simp only [List.mem_cons, List.not_mem_nil, or_false] at hf
    rcases hf with rfl | rfl | rfl <;> exact fits_text _ (by decide)

def Param.fields (p : Param) : Fields :=
  ("name", .text p.name) :: optionalField .omitted "value" (.scalar p.value) ++
    optionalField .omitted "link" (linkValue p.name p.link)

theorem Param.fits_fields {p : Param} (h : Exportable p.value) : ∀ f ∈ p.fields, Fits 6 f.2 := by
  intro f hf
  rw [Param.fields, List.cons_append, List.mem_cons, List.mem_append] at hf
  rcases hf with rfl | hf | hf
  · exact fits_text _ (by decide)
  · rw [eq_of_mem_optionalField hf]
    exact .scalar h (by decide)
  · rw [eq_of_mem_optionalField hf]
    cases p.link with
    | none => exact .scalar ⟨rfl, by simp⟩ (by decide)
    | some l => exact fits_link p.name l

theorem Param.names_fields (p : Param) :
    (p.fields.map Prod.fst).Sublist ["name", "value", "link"] := by
  rw [Param.fields, List.cons_append, List.map_cons, List.map_append]
  exact ((sublist_optionalField _ _ _).append (sublist_optionalField _ _ _)).cons_cons _

def Call.fields (c : Call) : Fields :=
  [("call_id", .text c.id), ("op_def_id", .text c.operation), ("description", .text c.description),
    ("params", .list ((c.params.map Param.fields).map Value.record))]

theorem Call.fits_fields {c : Call} (h : ∀ p ∈ c.params, Exportable p.value) :
    ∀ f ∈ c.fields, Fits 4 f.2 := by
  have hparams : Fits 4 (.list ((c.params.map Param.fields).map Value.record)) := by
    refine fits_rows ["name", "value", "link"] ?_ (by decide) (by decide) ?_ ?_
    · rintro r hr
      obtain ⟨p, -, rfl⟩ := List.mem_map.1 hr
      exact p.names_fields
    · rintro r hr
      obtain ⟨p, -, rfl⟩ := List.mem_map.1 hr
      exact List.cons_ne_nil _ _
    · rintro r hr
      obtain ⟨p, hp, rfl⟩ := List.mem_map.1 hr
      exact p.fits_fields (h p hp)
  intro f hf
  simp only [Call.fields, List.mem_cons, List.not_mem_nil, or_false] at hf
  rcases hf with rfl | rfl | rfl | rfl
  · exact fits_text _ (by decide)
  · exact fits_text _ (by decide)
  · exact fits_text _ (by decide)
  · exact hparams

def Program.fields (p : Program) : Fields :=
  ("name", .text p.name) :: optionalField .omitted "description"
    (match p.description with | some s => .text s | none => .null) ++
      [("calls", .list ((p.calls.map Call.fields).map Value.record))]

theorem Program.names_fields (p : Program) :
    (p.fields.map Prod.fst).Sublist ["name", "description", "calls"] := by
  rw [Program.fields, List.cons_append, List.map_cons, List.map_append]
  exact ((sublist_optionalField _ _ _).append (List.Sublist.refl ["calls"])).cons_cons _

theorem Call.toValue_eq (c : Call) : c.toValue .omitted = .record c.fields := by
  rw [Call.fields, List.map_map]
  rfl

theorem Call.map_toValue (calls : List Call) :
    calls.map (Call.toValue .omitted) = (calls.map Call.fields).map Value.record := by
  rw [List.map_map]
  exact List.map_congr_left fun c _ => c.toValue_eq

theorem Program.toValue_eq (p : Program) : p.toValue .omitted = .record p.fields := by
  rw [Program.toValue, Call.map_toValue]
  rfl

theorem Program.fits {p : Program} (h : ∀ c ∈ p.calls, ∀ a ∈ c.params, Exportable a.value) :
    Fits 0 (.record p.fields) := by
  have hcalls : Fits 2 (.list ((p.calls.map Call.fields).map Value.record)) := by
    refine fits_rows ["call_id", "op_def_id", "description", "params"] ?_ (by decide)
      (by decide) ?_ ?_
    · rintro r hr
      obtain ⟨c, -, rfl⟩ := List.mem_map.1 hr
      exact List.Sublist.refl _
    · rintro r hr
      obtain ⟨c, -, rfl⟩ := List.mem_map.1 hr
      exact List.cons_ne_nil _ _
    · rintro r hr
      obtain ⟨c, hc, rfl⟩ := List.mem_map.1 hr
      exact c.fits_fields (h c hc)
  refine fits_record p.names_fields (by decide) (by decide) (List.cons_ne_nil _ _) fun f hf => ?_
  rw [Program.fields, List.cons_append, List.mem_cons, List.mem_append, List.mem_singleton] at hf
  rcases hf with rfl | hf | rfl
  · exact fits_text _ (by decide)
  · rw [eq_of_mem_optionalField hf]
    cases p.description with
    | none => exact .scalar ⟨rfl, by simp⟩ (by decide)
    | some s => exact fits_text s (by decide)
  · exact hcalls

end Fits

section Describes

theorem Link.Valid.describes {l : Link} (h : l.Valid) (param : String) :
    (l.toValue param).DescribesLink param l := by
  cases l with
  | contextKey key => exact .contextKey rfl rfl rfl h
  | operation target => exact .operation rfl rfl rfl h

theorem find?_optionalField (name : String) (value : Value) :
    (optionalField .omitted name value).find? (·.1 == name) =
      if value.isNull then none else some (name, value) := by
  unfold optionalField
  cases value.isNull <;> simp

theorem find?_optionalField_of_ne {name other : String} (h : other ≠ name) (absent : Absent)
    (value : Value) : (optionalField absent other value).find? (·.1 == name) = none := by
  unfold optionalField
  split_ifs <;> simp [h]

theorem Param.field?_value (p : Param) : (p.toValue .omitted).field? "value" =
    if p.value.isNull then none else some (.scalar p.value) := by
  have hfields : p.toValue .omitted = .record p.fields := rfl
  rw [hfields, field?_record, Param.fields, List.cons_append, List.find?_cons_of_neg (by simp),
    List.find?_append, find?_optionalField, find?_optionalField_of_ne (by decide)]
  cases hnull : p.value.isNull <;> simp [Value.isNull, hnull]

theorem Param.field?_link (p : Param) :
    (p.toValue .omitted).field? "link" = p.link.map (Link.toValue p.name) := by
  have hfields : p.toValue .omitted = .record p.fields := rfl
  rw [hfields, field?_record, Param.fields, List.cons_append, List.find?_cons_of_neg (by simp),
    List.find?_append, find?_optionalField, find?_optionalField_of_ne (by decide)]
  rcases p.link with _ | _ | _ <;> rfl

theorem Param.Valid.describes {p : Param} (h : p.Valid) :
    (p.toValue .omitted).DescribesParam p := by
  refine ⟨rfl, h.name, ?_, ?_⟩
  · rw [p.field?_value]
    cases hv : p.value with
    | null => exact .inr ⟨rfl, rfl⟩
    | _ => exact .inl rfl
  · rw [p.field?_link]
    cases hl : p.link with
    | none => exact .inl ⟨.inl rfl, rfl⟩
    | some l => exact .inr ⟨_, l, rfl, rfl, Link.Valid.describes (h.link l hl) p.name⟩

theorem forall₂_map_describes {α : Type} {f : α → Value} {Describes : Value → α → Prop}
    {xs : List α} (h : ∀ x ∈ xs, Describes (f x) x) : List.Forall₂ Describes (xs.map f) xs := by
  rw [List.forall₂_map_left_iff, List.forall₂_same]
  exact h

theorem Call.Valid.describes {c : Call} (h : c.Valid) : (c.toValue .omitted).DescribesCall c where
  id := rfl
  isId := h.id
  operation := rfl
  isOperation := h.operation
  description := .inl rfl
  params := .inl ⟨_, rfl, forall₂_map_describes fun p hp => (h.params p hp).describes⟩
  names := h.names

theorem Program.field?_description (p : Program) :
    (p.toValue .omitted).field? "description" = p.description.map .text := by
  rw [p.toValue_eq, field?_record, Program.fields, List.cons_append,
    List.find?_cons_of_neg (by simp), List.find?_append, find?_optionalField]
  rcases p.description with _ | _ <;> rfl

theorem Program.field?_calls (p : Program) :
    (p.toValue .omitted).field? "calls" = some (.list (p.calls.map (Call.toValue .omitted))) := by
  rw [p.toValue_eq, field?_record, Program.fields, List.cons_append,
    List.find?_cons_of_neg (by simp), List.find?_append, find?_optionalField_of_ne (by decide),
    Call.map_toValue]
  rfl

/-- what is written for a valid program describes it -/
theorem Program.Valid.describes {p : Program} (h : p.Valid) :
    (p.toValue .omitted).DescribesProgram p := by
  refine ⟨rfl, h.name, ?_, .inl ⟨_, p.field?_calls,
    forall₂_map_describes fun c hc => (h.calls c hc).describes⟩, h.ids⟩
  rw [p.field?_description]
  cases p.description with
  | none => exact .inl ⟨.inl rfl, rfl⟩
  | some s => exact .inr ⟨s, rfl, rfl⟩

end Describes

section Document

theorem simulates_mirrors :
    Reading.Simulates fun (x : Part) (v : Value) => Mirrors x.document x.datum v := by
  rintro ⟨doc, d⟩ v h
  show (Part.shape ⟨doc, d⟩).Alike _ v.shape
  cases h with
  | scalar s => cases s <;> constructor
  | @list i items parts content value mirrors =>
    subst value
    show (Part.collectionShape doc (doc.collection i)).Alike _ _
    rw [show doc.collection i = _ from content, Part.collectionShape, List.map_map]
    refine .items ?_
    rw [List.forall₂_map_left_iff, List.forall₂_map_right_iff, List.forall₂_same]
    exact mirrors
  | @map i entries parts content value mirrors =>
    subst value
    show (Part.collectionShape doc (doc.collection i)).Alike _ _
    have hnamed : ∀ parts : List (Datum × String × Value),
        Part.named doc (parts.map fun p => (.scalar (.text p.2.1), p.1)) =
          parts.map fun p => (p.2.1, ⟨doc, p.1⟩) := fun parts => by
      induction parts with
      | nil => rfl
      | cons p parts ih => simp [Part.named, ih]
    have hentries : ∀ fields : Fields, Value.namedEntries fields.entries = fields := by
      intro fields
      induction fields with
      | nil => rfl
      | cons f fields ih => simpa [Fields.entries, Value.namedEntries] using ih
    rw [show doc.collection i = _ from content, Part.collectionShape, hnamed]
    show (Shape.fields _).Alike _ (.fields (Value.namedEntries _))
    rw [hentries]
    refine .fields ?_
    rw [List.forall₂_map_left_iff, List.forall₂_map_right_iff, List.forall₂_same]
    exact fun p hp => ⟨rfl, mirrors p hp⟩

theorem isMapping_of_mirrors {doc : Document} {fields : Fields}
    (h : Mirrors doc doc.root (.record fields)) : doc.isMapping = true := by
  generalize hroot : doc.root = d at h
  generalize hv : Value.record fields = v at h
  cases h with
  | scalar => cases hv
  | list => cases hv
  | map parts content => simp [Document.isMapping, hroot, content]

theorem Program.toList_toYaml (p : Program) : p.toYaml.toList = Yaml.document p.fields.entries := by
  rw [toYaml, p.toValue_eq]
  exact String.toList_ofList

/-- the document of a valid program is read as that program -/
theorem Program.ofYaml_toYaml {p : Program} (hp : p.Valid)
    (hvalues : ∀ c ∈ p.calls, ∀ a ∈ c.params, Exportable a.value) (file : String) :
    ofYaml file ⟨p.toYaml.toList, none⟩ = .ok p := by
  -- the document is not the exported value but shows the same shapes, and shapes are all that is read
  obtain ⟨doc, hdoc, hmirrors⟩ := read_document (Program.fits hvalues)
  have hprogram : Reading.program doc.part = .ok p :=
    simulates_mirrors.program doc.part (.record p.fields) p hmirrors
      (p.toValue_eq ▸ Reading.program_eq_ok.2 hp.describes)
  rw [ofYaml, p.toList_toYaml, hdoc]
  show (if doc.isMapping then _ else _) = _
  rw [isMapping_of_mirrors hmirrors, if_pos rfl, Program.read, hprogram]
  rfl

end Document

section File

variable {cs : List Char}

def Content.Holds (cs : List Char) : Content → Prop
  | .text ds => ds = cs
  | .bytes bs => bs = cs.flatMap String.utf8EncodeChar
  | .directory => False

theorem toNat_of_printed {c : Char} (h : c = '\n' ∨ Style.isVisible c = true) : c.toNat < 0x7F := by
  rcases h with rfl | h
  · decide
  · simp only [Style.isVisible, Bool.and_eq_true, decide_eq_true_eq] at h
    omega

theorem codes_of_printed (h : IsPrinted cs) : Half.codes cs = cs.map Char.toNat := by
  have hmark : Half.mark ∉ cs := fun hmem => absurd (toNat_of_printed (h _ hmem)) (by decide)
  clear h
  fun_induction Half.codes cs with
  | case1 => rfl
  | case2 => simp at hmark
  | case3 => simp at hmark
  | case4 => simp at hmark
  | case5 c cs hne ih => rw [ih fun hmem => hmark (by simp [hmem]), List.map_cons]

/-- no half of a surrogate pair is printed -/
theorem row?_of_printed (h : IsPrinted cs) (isAllowed : Nat → Bool) :
    Half.row? isAllowed cs = none := by
  have hwhole : ∀ n ∈ Half.codes cs, (!Half.isNumber n || isAllowed n) = true := by
    rw [codes_of_printed h]
    intro n hn
    obtain ⟨c, hc, rfl⟩ := List.mem_map.1 hn
    have hlt := toNat_of_printed (h c hc)
    have hleast : ¬ Half.least ≤ c.toNat := by
      rw [Half.least]
      omega
    simp [Half.isNumber, hleast]
  have hall : (Half.codes cs).takeWhile (fun n => !Half.isNumber n || isAllowed n) =
      Half.codes cs := List.takeWhile_eq_self_iff.2 hwhole
  simp only [Half.row?, hall, List.drop_length]

theorem utf8EncodeChar_of_printed {c : Char} (h : c.toNat < 0x7F) :
    String.utf8EncodeChar c = [UInt8.ofNat c.toNat] := by
  have hle : c.val.toNat ≤ 0x7F := Nat.le_of_lt h
  simp only [String.utf8EncodeChar, if_pos hle]
  rfl

theorem utf8_of_printed (h : IsPrinted cs) :
    cs.flatMap String.utf8EncodeChar = cs.map fun c => UInt8.ofNat c.toNat := by
  induction cs with
  | nil => rfl
  | cons c cs ih =>
    rw [List.flatMap_cons, ih fun d hd => h d (by simp [hd]),
      utf8EncodeChar_of_printed (toNat_of_printed (h c (by simp)))]
    rfl

theorem utf8From_printed (h : IsPrinted cs) (position fuel : Nat) (hfuel : cs.length ≤ fuel) :
    utf8From position fuel (cs.map fun c => UInt8.ofNat c.toNat) = .ok cs := by
  induction cs generalizing position fuel with
  | nil => cases fuel <;> rfl
  | cons c cs ih =>
    obtain ⟨fuel, rfl⟩ : ∃ k, fuel = k + 1 :=
      Nat.exists_eq_add_of_le' (le_trans (by simp) hfuel)
    have hlt := toNat_of_printed (h c (by simp))
    have hbyte : (UInt8.ofNat c.toNat).toNat = c.toNat := by
      rw [UInt8.toNat_ofNat']
      omega
    have hfollow : utf8Follow (UInt8.ofNat c.toNat).toNat = some (0, 0, 0) := by
      rw [utf8Follow, hbyte, if_pos (by omega)]
    have hrest := ih (fun d hd => h d (by simp [hd])) (position + 1 + 0) fuel (by simpa using hfuel)
    rw [List.map_cons, utf8From, hfollow]
    simp only [utf8Tail, List.drop_zero, hrest]
    simp [Except.map, utf8Value, hbyte, Char.ofNat_toNat]

theorem decodeFile_printed (h : IsPrinted cs) :
    decodeFile (cs.flatMap String.utf8EncodeChar) = ⟨cs, none⟩ := by
  rw [utf8_of_printed h, decodeFile, decodeUtf8, utf8From_printed h 0 _ (by simp)]

theorem read_of_holds (h : IsPrinted cs) {files : Files} {path : String} {content : Content}
    (hpath : Half.row? Path.isByte (Path.normal path).toList = none)
    (hfile : files.find path = .ok content) (hcontent : content.Holds cs) :
    files.read path = .ok ⟨cs, none⟩ := by
  have hwhole : Files.demandWhole Path.isByte (Path.normal path).toList = .ok () := by
    rw [Files.demandWhole, hpath]
  rw [Files.read, hwhole, hfile]
  cases content with
  | text ds =>
    obtain rfl : ds = cs := hcontent
    show (Files.demandWhole _ ds >>= _) = _
    rw [Files.demandWhole, row?_of_printed h]
    rfl
  | bytes bs =>
    obtain rfl : bs = _ := hcontent
    exact congrArg Except.ok (decodeFile_printed h)
  | directory => cases hcontent

end File

/-- A valid program is loaded as itself from a file that holds its document: with the same name,
description and calls, and with every value of the same kind. Its numbers must not be too long to
be written, and none of them may be not-a-number, which does not equal itself. -/
theorem Program.load_toYaml {p : Program} (hp : p.Valid) (hwritable : p.isWritable = true)
    (hnumber : ∀ c ∈ p.calls, ∀ a ∈ c.params, ∀ mark, a.value ≠ .float (.nan mark))
    {files : Files} {path : String} {content : Content}
    (hpath : Half.row? Path.isByte (Path.normal path).toList = none)
    (hfile : files.find path = .ok content) (hcontent : content.Holds p.toYaml.toList) :
    load files path = .ok p := by
  have hvalues : ∀ c ∈ p.calls, ∀ a ∈ c.params, Exportable a.value := fun c hc a ha => by
    simp only [isWritable, List.all_eq_true, Bool.not_eq_true'] at hwritable
    exact ⟨hwritable c hc a ha, hnumber c hc a ha⟩
  have hprinted : IsPrinted p.toYaml.toList := by
    rw [p.toList_toYaml]
    exact isPrinted_document (Program.fits hvalues)
  exact bind_eq_ok.2
    ⟨_, read_of_holds hprinted hpath hfile hcontent, p.ofYaml_toYaml hp hvalues path⟩

namespace Demo

theorem canonical_zero : Canonical 0 0 := by decide

/-- texts that look like something else, and a zero with a sign -/
def keepsakes : Program where
  name := "yes"
  description := some "\"one\"\n\n  two "
  calls := [{
    id := "1.0"
    operation := "no"
    params := [
      { name := "zero", value := .float (.finite true 0 0 canonical_zero) },
      { name := "year", value := .text "2024", link := some (.operation "' '") },
      { name := "word", value := .bool true }] }]

def shelf (cs : List Char) : Files := [(["p"], .text cs)]

theorem parts_p : Path.parts "p" = ["p"] := by
  have hsplit : "p".splitOn "/" = ["p"] := by
    rw [String.splitOn, if_neg (by decide), String.splitOnAux, if_neg (by decide),
      if_neg (by decide), String.splitOnAux, if_pos (by decide)]
    decide
  rw [Path.parts, hsplit]
  decide

theorem normal_p : Path.normal "p" = "p" := by
  rw [Path.normal, parts_p]
  decide

theorem find_shelf (cs : List Char) : (shelf cs).find "p" = .ok (.text cs) := by
  rw [Files.find, if_neg (by decide), normal_p, if_neg (by decide), if_neg (by decide), parts_p]
  rfl

theorem keepsakes_valid : keepsakes.Valid where
  name := by decide
  calls := by
    intro c hc
    obtain rfl := List.mem_singleton.1 hc
    refine ⟨by decide, by decide, fun p hp => ?_, by decide⟩
    simp only [List.mem_cons, List.not_mem_nil, or_false] at hp
    rcases hp with rfl | rfl | rfl
    · exact ⟨by decide, by rintro l ⟨⟩⟩
    · refine ⟨by decide, ?_⟩
      rintro l ⟨⟩
      exact (by decide : IsName "' '")
    · exact ⟨by decide, by rintro l ⟨⟩⟩
  ids := by decide

theorem keepsakes_reloaded : keepsakes.Valid ∧ keepsakes.isWritable = true ∧
    Program.load (shelf keepsakes.toYaml.toList) "p" = .ok keepsakes := by
  have hwritable : keepsakes.isWritable = true := by decide +kernel
  refine ⟨keepsakes_valid, hwritable, Program.load_toYaml keepsakes_valid hwritable ?_
    (by rw [normal_p]; decide) (find_shelf _) rfl⟩
  intro c hc a ha mark
  obtain rfl := List.mem_singleton.1 hc
  simp only [List.mem_cons, List.not_mem_nil, or_false] at ha
  rcases ha with rfl | rfl | rfl <;> rintro ⟨⟩

end Demo

end LinkedCalls
