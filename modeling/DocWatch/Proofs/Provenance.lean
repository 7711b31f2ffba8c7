import DocWatch.Proofs.Json.Alike
import DocWatch.Proofs.Json.Faithful
import DocWatch.Proofs.Signature
import DocWatch.Proofs.Store.Unique

/-!
# Reports of provenance

A report says of several documents who last touched their fields. Each record stands under one text:
the identity of the document, a dot, the name of the field. References write identities without
their kind, so `7` and `"7"` are one text, and a dot may stand within an identity or a name as well
as between them. Records that have one text are one entry, of which the last document has the say.
If no two records have one text, though, the report is all the records, one after the other.

- `Document.records`, `Document.recordKey`, `Document.report`: what a document has to report.
- `Document.get?_fieldProvenance`: what a report holds under a key, in any case.
- `joined_eq_iff`: when two pairs of texts are one text around a dot.
- `Document.Clash`: when two records of different documents have one key.
- `Document.report_keeps_records_iff`: a report keeps all records exactly if none clash.
-/

namespace DocWatch

/-! ## Texts around a dot -/

/-- Does the first text reach beyond the dot that ends the second one, and into what follows? -/
def ReachesBeyond (s f t g : String) : Prop := ∃ x, s = t ++ "." ++ x ∧ g = x ++ "." ++ f

/-- What reaches beyond a dot has a dot. So has what it reaches into. -/
theorem ReachesBeyond.dot_mem {s f t g : String} (h : ReachesBeyond s f t g) :
    '.' ∈ s.toList ∧ '.' ∈ g.toList := by
  obtain ⟨x, rfl, rfl⟩ := h
  simp

theorem reachesBeyond_iff (s f t g : String) : ReachesBeyond s f t g ↔
    ∃ x, s.toList = t.toList ++ '.' :: x ∧ g.toList = x ++ '.' :: f.toList := by
  constructor
  · rintro ⟨x, rfl, rfl⟩
    exact ⟨x.toList, by simp, by simp⟩
  · rintro ⟨x, hs, hg⟩
    refine ⟨String.ofList x, String.toList_inj.mp ?_, String.toList_inj.mp ?_⟩
    · simp [hs]
    · simp [hg]

/-- Two pairs of texts are one text around a dot if they are one pair, or if one text reaches beyond
the dot of the other pair. -/
theorem joined_eq_iff (s f t g : String) :
    s ++ "." ++ f = t ++ "." ++ g ↔
      (s = t ∧ f = g) ∨ ReachesBeyond s f t g ∨ ReachesBeyond t g s f := by
  have hjoined : s ++ "." ++ f = t ++ "." ++ g ↔
      s.toList ++ '.' :: f.toList = t.toList ++ '.' :: g.toList := by
    rw [← String.toList_inj]
    simp
  have hpairs : (s = t ∧ f = g) ↔ (s.toList = t.toList ∧ f.toList = g.toList) := by
    rw [String.toList_inj, String.toList_inj]
  rw [hjoined, hpairs, reachesBeyond_iff, reachesBeyond_iff, append_dot_eq_iff]

/-- Identities of one text are the same, unless one is the string that spells the other. -/
theorem Identity.text_eq_iff (id id' : Json) :
    text id = text id' ↔ id = id' ∨ id = .str (text id') ∨ id' = .str (text id) := by
  constructor
  · intro h
    cases id with
    | str s => exact .inr (.inl (congrArg Json.str h))
    | _ =>
      cases id' with
      | str s => exact .inr (.inr (congrArg Json.str h.symm))
      | _ => exact .inl (Json.text_inj h)
  · rintro (rfl | h | h)
    · rfl
    · rw [h]
      rfl
    · rw [h]
      rfl

namespace Document

/-! ## What a document has to report -/

/-- Who last touched each field of the document. -/
def records (doc : Json) : Members Json :=
  match doc.field? metaField with
  | some (.obj fields) => fields
  | _ => []

/-- The text under which the record of a field is reported. -/
def recordKey (doc : Json) (field : String) : String :=
  ((id? doc).map Identity.text).getD "" ++ "." ++ field

/-- The records of a document, each under its text. -/
def report (doc : Json) : Members Json :=
  (records doc).map fun (field, v) => (recordKey doc field, v)

theorem recordKey_of_id? {doc id : Json} (h : id? doc = some id) (field : String) :
    recordKey doc field = Identity.text id ++ "." ++ field := by
  rw [recordKey, h]
  rfl

theorem nodup_keys_records {doc : Json} (h : doc.KeysDistinct) : (records doc).keys.Nodup := by
  unfold records
  split
  · rename_i fields hmeta
    exact (h.of_field? hmeta).1
  · exact List.nodup_nil

theorem addProvenance_eq (entries : Members Json) (doc : Json) :
    addProvenance entries doc = entries.insertAll (report doc) := by
  rw [addProvenance, Members.insertAll, report, records, List.foldl_map]
  cases doc.field? metaField with
  | none => rfl
  | some v => cases v <;> rfl

/-- A report is made by writing the records of all documents, one after the other. -/
theorem fieldProvenance_eq (docs : List Json) :
    fieldProvenance docs = Members.insertAll [] (docs.flatMap report) := by
  rw [fieldProvenance, Members.insertAll, List.foldl_flatMap]
  exact congrArg (fun step => docs.foldl step []) (funext₂ addProvenance_eq)

/-- Under each text stands the last record that has it. -/
theorem get?_fieldProvenance (docs : List Json) (key : String) :
    (fieldProvenance docs).get? key = Members.get? (docs.flatMap report).reverse key := by
  rw [fieldProvenance_eq, Members.get?_insertAll]
  exact Option.or_none

/-- The texts under which all records are written. -/
theorem keys_reports (docs : List Json) : Members.keys (docs.flatMap report) =
    docs.flatMap fun doc => (records doc).keys.map (recordKey doc) := by
  simp [Members.keys, report, List.map_flatMap, Function.comp_def]

/-! ## When records clash -/

/-- Do two fields of documents with these identities have one text? Either they have one name, and
the first identity is the string that spells the other, or the text of the first identity reaches
beyond the dot after the other one. -/
def Clash (id id' : Json) (field field' : String) : Prop :=
  (id = .str (Identity.text id') ∧ field = field') ∨
    ReachesBeyond (Identity.text id) field (Identity.text id') field'

variable {docs : List Json} {doc doc' id id' : Json} {field field' : String}

/-- Fields of two documents have one text if they are one field of one identity, or clash. -/
theorem recordKey_eq_iff (hid : id? doc = some id) (hid' : id? doc' = some id') :
    recordKey doc field = recordKey doc' field' ↔
      (id = id' ∧ field = field') ∨ Clash id id' field field' ∨ Clash id' id field' field := by
  rw [recordKey_of_id? hid, recordKey_of_id? hid', joined_eq_iff, Identity.text_eq_iff]
  unfold Clash
  tauto

example : recordKey (.obj [("_id", .str "a.b")]) "c" =
    recordKey (.obj [("_id", .str "a")]) "b.c" := by
  decide +kernel

theorem recordKey_inj (h : recordKey doc field = recordKey doc field') : field = field' :=
  (String.append_right_inj _).mp h

/-- A list of documents as a read returns it: each has an identity, and no two have the same one. -/
structure Listed (docs : List Json) : Prop where
  identified : ∀ doc ∈ docs, ∃ id, id? doc = some id
  differ : docs.Pairwise fun a b => id? a ≠ id? b
  distinct : ∀ doc ∈ docs, doc.KeysDistinct

/-- Two documents with one identity are one document. -/
theorem Listed.eq_of_id?_eq (h : Listed docs) (hdoc : doc ∈ docs) (hdoc' : doc' ∈ docs)
    (hid : id? doc = id? doc') : doc = doc' := by
  have hsymm : Std.Symm fun a b : Json => id? a ≠ id? b := ⟨fun a b hab => hab.symm⟩
  by_contra hother
  exact h.differ.forall hdoc hdoc' hother hid

/-- No records of two documents clash. -/
def Separate (docs : List Json) : Prop :=
  ∀ doc ∈ docs, ∀ doc' ∈ docs, doc ≠ doc' → ∀ id id', id? doc = some id → id? doc' = some id' →
    ∀ field ∈ (records doc).keys, ∀ field' ∈ (records doc').keys, ¬ Clash id id' field field'

/-- Records that do not clash have texts of their own. -/
theorem Separate.apart (hsep : Separate docs) (h : Listed docs) (hdoc : doc ∈ docs)
    (hdoc' : doc' ∈ docs) (hfield : field ∈ (records doc).keys)
    (hfield' : field' ∈ (records doc').keys) (hkey : recordKey doc field = recordKey doc' field') :
    doc = doc' ∧ field = field' := by
  obtain ⟨id, hid⟩ := h.identified doc hdoc
  obtain ⟨id', hid'⟩ := h.identified doc' hdoc'
  by_cases hsame : doc = doc'
  · subst hsame
    exact ⟨rfl, recordKey_inj hkey⟩
  · rcases (recordKey_eq_iff hid hid').mp hkey with ⟨rfl, -⟩ | hclash | hclash
    · exact absurd (h.eq_of_id?_eq hdoc hdoc' (hid.trans hid'.symm)) hsame
    · exact absurd hclash
        (hsep doc hdoc doc' hdoc' hsame id id' hid hid' field hfield field' hfield')
    · exact absurd hclash
        (hsep doc' hdoc' doc hdoc (Ne.symm hsame) id' id hid' hid field' hfield' field hfield)

theorem Separate.nodup (hsep : Separate docs) (h : Listed docs) :
    (Members.keys (docs.flatMap report)).Nodup := by
  rw [keys_reports, List.nodup_flatMap]
  refine ⟨fun doc hdoc => ?_, h.differ.imp_of_mem fun {doc doc'} hdoc hdoc' hother => ?_⟩
  · exact (nodup_keys_records (h.distinct doc hdoc)).map fun _ _ => recordKey_inj
  · intro key hkey hkey'
    obtain ⟨field, hfield, rfl⟩ := List.mem_map.mp hkey
    obtain ⟨field', hfield', heq⟩ := List.mem_map.mp hkey'
    obtain ⟨rfl, -⟩ := hsep.apart h hdoc hdoc' hfield hfield' heq.symm
    exact hother rfl

/-! ## Reports that keep all records -/

/-- Does a report keep all records? Each has an entry, in order, under a text of its own, where it
is found. -/
structure KeepsRecords (docs : List Json) : Prop where
  entries : fieldProvenance docs = docs.flatMap report
  apart : ∀ doc ∈ docs, ∀ field ∈ (records doc).keys, ∀ doc' ∈ docs,
    ∀ field' ∈ (records doc').keys, recordKey doc field = recordKey doc' field' →
      doc = doc' ∧ field = field'
  found : ∀ doc ∈ docs, ∀ field v, (records doc).get? field = some v →
    (fieldProvenance docs).get? (recordKey doc field) = some v

theorem Separate.keepsRecords (hsep : Separate docs) (h : Listed docs) : KeepsRecords docs := by
  have hnd := hsep.nodup h
  have hentries : fieldProvenance docs = docs.flatMap report := by
    rw [fieldProvenance_eq, Members.insertAll_of_nodup hnd, List.nil_append]
  refine ⟨hentries, ?_, ?_⟩
  · intro doc hdoc field hfield doc' hdoc' field' hfield' hkey
    exact hsep.apart h hdoc hdoc' hfield hfield' hkey
  · intro doc hdoc field v hv
    have hreport : (recordKey doc field, v) ∈ report doc :=
      List.mem_map.mpr ⟨(field, v), Members.mem_of_get? hv, rfl⟩
    rw [hentries, Members.get?_eq_some_iff hnd]
    exact List.mem_flatMap.mpr ⟨doc, hdoc, hreport⟩

theorem KeepsRecords.separate (h : KeepsRecords docs) : Separate docs := by
  intro doc hdoc doc' hdoc' hother id id' hid hid' field hfield field' hfield' hclash
  have hkey := (recordKey_eq_iff hid hid').mpr (.inr (.inl hclash))
  exact hother (h.apart doc hdoc field hfield doc' hdoc' field' hfield' hkey).1

/-- Strings without dots do not clash, nor do strings beside names without dots. -/
theorem Listed.separate_of_strings (h : Listed docs)
    (hstr : ∀ doc ∈ docs, ∃ s, id? doc = some (.str s))
    (hdots : (∀ doc ∈ docs, ∀ s, id? doc = some (.str s) → '.' ∉ s.toList) ∨
      ∀ doc ∈ docs, ∀ field ∈ (records doc).keys, '.' ∉ field.toList) : Separate docs := by
  intro doc hdoc doc' hdoc' hother id id' hid hid' field hfield field' hfield' hclash
  obtain ⟨s, hs⟩ := hstr doc hdoc
  obtain ⟨s', hs'⟩ := hstr doc' hdoc'
  obtain rfl := Option.some.inj (hs.symm.trans hid)
  obtain rfl := Option.some.inj (hs'.symm.trans hid')
  rcases hclash with ⟨hspells, -⟩ | hreaches
  · -- a string spells only itself
    obtain rfl : s = s' := Json.str.inj hspells
    exact hother (h.eq_of_id?_eq hdoc hdoc' (hid.trans hid'.symm))
  · rcases hdots with hdots | hdots
    · exact hdots doc hdoc s hid hreaches.dot_mem.1
    · exact hdots doc' hdoc' field' hfield' hreaches.dot_mem.2

/-- **A report keeps all records exactly if none clash.** In any case the last record under a text
is the one that stands there. Documents with different identities have all their records reported,
each under a text of its own, exactly if no identity is the string that spells another one, for a
field of one name, and none reaches beyond the dot after another one. So it is if the identities are
strings, and either no identity has a dot or no field has one in its name. -/
theorem report_keeps_records_iff (h : Listed docs) :
    (∀ key, (fieldProvenance docs).get? key = Members.get? (docs.flatMap report).reverse key) ∧
    (KeepsRecords docs ↔ Separate docs) ∧
    ((∀ doc ∈ docs, ∃ s, id? doc = some (.str s)) →
      ((∀ doc ∈ docs, ∀ s, id? doc = some (.str s) → '.' ∉ s.toList) ∨
        ∀ doc ∈ docs, ∀ field ∈ (records doc).keys, '.' ∉ field.toList) → KeepsRecords docs) :=
  ⟨get?_fieldProvenance docs,
    ⟨KeepsRecords.separate, fun hsep => hsep.keepsRecords h⟩,
    fun hstr hdots => (h.separate_of_strings hstr hdots).keepsRecords h⟩

/-- A document with one record. -/
def touchedBy (id : Json) (field client : String) : Json :=
  .obj [("_id", id), ("_meta", .obj [(field, .str client)])]

theorem listed_pair (id id' : Json) (hne : id ≠ id') (hid : id.KeysDistinct)
    (hid' : id'.KeysDistinct) {field field' client client' : String} :
    Listed [touchedBy id field client, touchedBy id' field' client'] where
  identified := by simp [touchedBy, id?, Json.field?, idField, Members.get?]
  differ := by simp [touchedBy, id?, Json.field?, idField, Members.get?, hne]
  distinct := by simp [touchedBy, Json.KeysDistinct, Json.KeysDistinctFields, hid, hid']

/-- An identity may have a dot if no name has one. -/
theorem report_keeps_dotted :
    Listed [touchedBy (.str "a") "x" "k", touchedBy (.str "a.b") "x" "l"] ∧
      KeepsRecords [touchedBy (.str "a") "x" "k", touchedBy (.str "a.b") "x" "l"] := by
  have h : Listed [touchedBy (.str "a") "x" "k", touchedBy (.str "a.b") "x" "l"] :=
    listed_pair (.str "a") (.str "a.b") (by decide) trivial trivial
  refine ⟨h, (report_keeps_records_iff h).2.2 ?_ (.inr ?_)⟩
  · simp [touchedBy, id?, Json.field?, idField, Members.get?]
  · decide

/-- Two documents of one collection, one with a number and one with a string for its identity. -/
def namesakes : List Store.Call :=
  [.insert "t" "" (touchedBy (.nat 7) "a" "k"), .insert "t" "" (touchedBy (.str "7") "a" "l")]

/-- A read returns both, their identities differ, and the report has one record only. -/
theorem namesakes_share_entry :
    (Store.after namesakes).find "t" Filter.all.live =
        [touchedBy (.nat 7) "a" "k", touchedBy (.str "7") "a" "l"] ∧
      (Json.nat 7).equiv (.str "7") = false ∧
      fieldProvenance [touchedBy (.nat 7) "a" "k", touchedBy (.str "7") "a" "l"] =
        [("7.a", .str "l")] ∧
      ¬ KeepsRecords [touchedBy (.nat 7) "a" "k", touchedBy (.str "7") "a" "l"] := by
  have hreport : fieldProvenance [touchedBy (.nat 7) "a" "k", touchedBy (.str "7") "a" "l"] =
      [("7.a", .str "l")] := by decide +kernel
  refine ⟨by decide +kernel, by decide, hreport, fun hkeeps => ?_⟩
  have hentries := hkeeps.entries
  rw [hreport] at hentries
  revert hentries
  decide +kernel

end Document
end DocWatch
