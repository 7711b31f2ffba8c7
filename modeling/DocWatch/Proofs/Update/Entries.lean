import DocWatch.Proofs.Update.Neutrality

/-!
# Entries in an object

Where the entries of a document are kept in an object, or not yet kept at all, one more can always
be written, and it disturbs neither the other entries nor the other members.

- `Document.EntriesInObject`, `Document.recorded?`: where entries are kept.
- `Document.set_entry`, `Update.exists_run_entries`: writing one entry, and several.
- `Update.mem_touchedFields_iff`: the fields of which entries are written.
-/

namespace DocWatch

theorem Json.exists_obj_of_isObject {v : Json} (h : v.isObject = true) :
    ∃ fields, v = .obj fields := by
  cases v with
  | obj fields => exact ⟨fields, rfl⟩
  | _ => cases h

namespace Document

/-- What is kept under `_meta`, if anything, is an object. -/
def EntriesInObject (doc : Json) : Prop := ∀ v, doc.field? metaField = some v → v.isObject = true

/-- The entry of a field. -/
def recorded? (doc : Json) (field : String) : Option Json := doc.get? [metaField, field]

/-- Entries depend on the document only through `_meta`. -/
theorem recorded?_of_field?_eq {doc doc' : Json} (hdoc : doc.isObject = true)
    (hdoc' : doc'.isObject = true) (h : doc.field? metaField = doc'.field? metaField)
    (field : String) : recorded? doc field = recorded? doc' field :=
  Json.get?_of_field?_eq hdoc hdoc' h [field]

theorem EntriesInObject.of_field?_eq {doc doc' : Json} (h : EntriesInObject doc)
    (hfield : doc'.field? metaField = doc.field? metaField) : EntriesInObject doc' := by
  intro v hv
  rw [hfield] at hv
  exact h v hv

/-- Where entries are kept in an object, one more is written there, and the others stay. -/
theorem set_entry {doc : Json} (hdoc : doc.isObject = true) (h : EntriesInObject doc)
    (field : String) (value : Json) :
    ∃ new, doc.set [metaField, field] value = (new, none) ∧ new.isObject = true ∧
      EntriesInObject new ∧
      ∀ other, recorded? new other = if field = other then some value else recorded? doc other := by
  obtain ⟨members, rfl⟩ := Json.exists_obj_of_isObject hdoc
  obtain ⟨entries, hentries, hothers⟩ : ∃ entries,
      (Members.get? members metaField).getD (.obj []) = .obj entries ∧
      ∀ other, recorded? (.obj members) other = Members.get? entries other := by
    cases hget : Members.get? members metaField with
    | none =>
      refine ⟨[], rfl, fun other => ?_⟩
      rw [recorded?, Json.get?, Json.child?, hget]
      rfl
    | some v =>
      obtain ⟨entries, rfl⟩ := Json.exists_obj_of_isObject (h v hget)
      refine ⟨entries, rfl, fun other => ?_⟩
      rw [recorded?, Json.get?, Json.child?, hget, Option.bind_some, Json.get?, Json.child?]
      cases Members.get? entries other <;> rfl
  refine ⟨.obj (Members.insert members metaField (.obj (Members.insert entries field value))),
    ?_, rfl, fun v hv => ?_, fun other => ?_⟩
  · rw [Json.set_obj, hentries]
    rfl
  · rw [Json.field?, Members.get?_insert, if_pos rfl] at hv
    rw [← Option.some.inj hv]
    rfl
  · rw [hothers, recorded?, Json.get?, Json.child?, Members.get?_insert, if_pos rfl,
      Option.bind_some, Json.get?, Json.child?, Members.get?_insert]
    by_cases hfield : field = other
    · rw [if_pos hfield]
      rfl
    · rw [if_neg hfield]
      cases Members.get? entries other <;> rfl

end Document

namespace Update

open Document

/-! ## Touched fields -/

theorem mem_addField_iff (fields : List String) (field other : String) :
    other ∈ addField fields field ↔ other ∈ fields ∨ other = field := by
  unfold addField
  by_cases h : field ∈ fields
  · rw [if_pos h]
    exact ⟨.inl, fun hor => hor.elim id fun he => he ▸ h⟩
  · rw [if_neg h, List.mem_append, List.mem_singleton]

/-- The recorded fields are the first segments of the operators that are tracked. -/
theorem mem_touchedFields_iff (u : Update) (field : String) :
    field ∈ u.touchedFields ↔ isTracked field = true ∧ ∃ op ∈ u, op.path.head? = some field := by
  -- one operator adds its first segment, if that is tracked
  obtain ⟨add, hadd, hmem⟩ : ∃ add : List String → Operator → List String,
      touchedFields u = u.foldl add [] ∧ ∀ fields op, field ∈ add fields op ↔
        field ∈ fields ∨ isTracked field = true ∧ op.path.head? = some field := by
    refine ⟨_, rfl, fun fields op => ?_⟩
    cases op.path with
    | nil => simp
    | cons first below =>
      by_cases htracked : isTracked first = true
      · simp only [htracked, if_true, mem_addField_iff, List.head?_cons, Option.some.injEq]
        refine or_congr_right ⟨?_, fun h => h.2.symm⟩
        rintro rfl
        exact ⟨htracked, rfl⟩
      · simp only [htracked, Bool.false_eq_true, if_false, List.head?_cons, Option.some.injEq]
        refine (or_iff_left ?_).symm
        rintro ⟨h, rfl⟩
        exact htracked h
  -- the fields so far, and those of the operators that are left
  have hfold : ∀ fields : List String, field ∈ u.foldl add fields ↔
      field ∈ fields ∨ isTracked field = true ∧ ∃ op ∈ u, op.path.head? = some field := by
    clear hadd
    induction u with
    | nil => simp
    | cons op rest ih =>
      intro fields
      rw [List.foldl_cons, ih, hmem, or_assoc, ← and_or_left]
      simp only [List.mem_cons, exists_eq_or_imp]
  rw [hadd, hfold]
  exact or_iff_right List.not_mem_nil

/-! ## Several entries -/

/-- Where entries are kept in an object, entries of any fields are written there. -/
theorem exists_run_entries (p : Provenance) (fields : List String) {doc : Json}
    (hdoc : doc.isObject = true) (hentries : EntriesInObject doc) :
    ∃ new, run (entries p fields) doc = .ok new ∧ new.isObject = true ∧ EntriesInObject new ∧
      ∀ field, recorded? new field =
        if field ∈ fields then some p.toJson else recorded? doc field := by
  induction fields generalizing doc with
  | nil =>
    exact ⟨doc, rfl, hdoc, hentries, fun field => (if_neg List.not_mem_nil).symm⟩
  | cons first rest ih =>
    obtain ⟨mid, hset, hmid, hmidentries, hentry⟩ := set_entry hdoc hentries first p.toJson
    obtain ⟨new, hrest, hnew, hnewentries, hothers⟩ := ih hmid hmidentries
    have hop := (apply_set_ok_iff _ _ _ _).mpr hset
    refine ⟨new, (run_cons_ok_iff _ _ _ _).mpr ⟨mid, hop, hrest⟩, hnew, hnewentries,
      fun field => ?_⟩
    rw [hothers, hentry]
    by_cases hin : field ∈ rest
    · rw [if_pos hin, if_pos (List.mem_cons_of_mem first hin)]
    · rw [if_neg hin]
      by_cases hfirst : first = field
      · rw [if_pos hfirst, if_pos (hfirst ▸ List.mem_cons_self)]
      · have hnot : field ∉ first :: rest := by
          rw [List.mem_cons, not_or]
          exact ⟨fun he => hfirst he.symm, hin⟩
        rw [if_neg hfirst, if_neg hnot]

end Update
end DocWatch
