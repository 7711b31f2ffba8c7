import DocWatch.Proofs.Update.Attribution

/-!
# Attribution and the effect of updates

An attributed update is the update followed by the writes of its entries. The entries go under
`_meta`, so that no other member of the result depends on them. But a write of an entry is a write
like any other and fails if something stands in its way: a result that is no object, a `_meta` that
is no container, or a `_meta` that is an array and has no slot for the entry. Exactly then an
attributed update fails where the update itself succeeds.

- `Json.TakesEntries`: the values under `_meta` that take the entries of given fields.
- `Document.HasRoom`: the documents that do.
- `Update.run_entries_ok_iff`: entries can be written one after another exactly if there is room.
- `Update.attribution_is_neutral_iff`: the main result.
-/

namespace DocWatch

namespace Json

/-- Is each of these segments a slot of an array, or close enough to its end to become one? The
array grows as it is written to. -/
def HasSlots : Nat → List String → Prop
  | _, [] => True
  | length, segment :: rest =>
    ∃ i, FieldPath.index? segment = some i ∧ i < length + maxPadding ∧
      HasSlots (max length (i + 1)) rest

/-- Can entries of these fields be written into a value, one after another? -/
def TakesEntries (fields : List String) : Json → Prop
  | .obj _ => True
  | .arr items => HasSlots items.length fields
  | _ => fields = []

/-- An array takes a write next to its end. -/
theorem pad_ok_iff (items : List Json) (i : Nat) (segment : String) :
    (∃ items', pad items i segment = .ok items') ↔ i < items.length + maxPadding := by
  simp only [pad_eq_ok_iff, exists_and_left, exists_eq, and_true]

/-- A value takes a list of entries if it takes the first one, and then the others. -/
theorem takesEntries_cons_iff (v value : Json) (field : String) (rest : List String) :
    v.TakesEntries (field :: rest) ↔
      (v.set [field] value).2 = none ∧ (v.set [field] value).1.TakesEntries rest := by
  cases v with
  | obj fields =>
    rw [set_obj]
    exact iff_of_true trivial ⟨rfl, trivial⟩
  | arr items =>
    rw [TakesEntries, HasSlots]
    cases hindex : FieldPath.index? field with
    | none => simp [set, hindex]
    | some i =>
      cases hpad : pad items i field with
      | error e =>
        -- neither side is there for a slot too far beyond the end
        have hfar : ¬ i < items.length + maxPadding := by
          rw [← pad_ok_iff items i field, hpad]
          simp
        simp [set, hindex, hpad, hfar]
      | ok items' =>
        have hnear : i < items.length + maxPadding := (pad_ok_iff items i field).mp ⟨items', hpad⟩
        rw [set_arr hindex hpad, TakesEntries, List.length_set, length_of_pad hpad]
        simp [hnear, set]
  | _ => exact iff_of_false (List.cons_ne_nil field rest) fun h => by cases h.1

end Json

namespace Document

/-- Can entries of these fields be written into a document? Only into an object whose `_meta` takes
them; a `_meta` that is missing is made. -/
def HasRoom (doc : Json) (fields : List String) : Prop :=
  fields = [] ∨ ∃ members, doc = .obj members ∧
    Json.TakesEntries fields ((Members.get? members metaField).getD (.obj []))

/-- An object is written to in its `_meta`. -/
theorem hasRoom_obj_iff (members : Members Json) (fields : List String) :
    HasRoom (.obj members) fields ↔
      Json.TakesEntries fields ((Members.get? members metaField).getD (.obj [])) := by
  constructor
  · rintro (rfl | ⟨members', he, htakes⟩)
    · cases (Members.get? members metaField).getD (.obj []) <;>
        simp [Json.TakesEntries, Json.HasSlots]
    · cases he
      exact htakes
  · exact fun htakes => .inr ⟨members, rfl, htakes⟩

/-- A document has room for a list of entries if the first one can be written, and then the
others. -/
theorem hasRoom_cons_iff (doc value : Json) (field : String) (rest : List String) :
    HasRoom doc (field :: rest) ↔
      (doc.set ["_meta", field] value).2 = none ∧
        HasRoom (doc.set ["_meta", field] value).1 rest := by
  cases doc with
  | obj members =>
    rw [Json.set_obj, hasRoom_obj_iff, hasRoom_obj_iff, Members.get?_insert, metaField,
      if_pos rfl, Option.getD_some]
    exact Json.takesEntries_cons_iff _ value field rest
  | arr items =>
    -- `_meta` is no slot of an array
    have hindex : FieldPath.index? "_meta" = none := by decide
    refine iff_of_false ?_ ?_
    · simp [HasRoom]
    · simp [Json.set, hindex]
  | _ =>
    refine iff_of_false ?_ ?_
    · simp [HasRoom]
    · exact fun h => by cases h.1

end Document

namespace Update

open Document

theorem run_append_ok_iff (u v : Update) (doc new : Json) :
    run (u ++ v) doc = .ok new ↔ ∃ mid, run u doc = .ok mid ∧ run v mid = .ok new := by
  induction u generalizing doc with
  | nil => simp [run_nil]
  | cons op rest ih =>
    rw [List.cons_append, run_cons_ok_iff]
    constructor
    · rintro ⟨mid, hop, hrun⟩
      obtain ⟨mid', hrest, hv⟩ := (ih mid).mp hrun
      exact ⟨mid', (run_cons_ok_iff op rest doc mid').mpr ⟨mid, hop, hrest⟩, hv⟩
    · rintro ⟨mid', hrun, hv⟩
      obtain ⟨mid, hop, hrest⟩ := (run_cons_ok_iff op rest doc mid').mp hrun
      exact ⟨mid, hop, (ih mid).mpr ⟨mid', hrest, hv⟩⟩

/-- The writes of the entries of some fields. -/
def entries (p : Provenance) (fields : List String) : Update :=
  fields.map fun field => .set ["_meta", field] p.toJson

/-- Entries can be written one after another exactly if there is room for them. -/
theorem run_entries_ok_iff (p : Provenance) (fields : List String) (doc : Json) :
    (∃ new, run (entries p fields) doc = .ok new) ↔ HasRoom doc fields := by
  induction fields generalizing doc with
  | nil => exact iff_of_true ⟨doc, rfl⟩ (.inl rfl)
  | cons field rest ih =>
    rw [hasRoom_cons_iff doc p.toJson, ← ih]
    have hcons : entries p (field :: rest) =
        .set ["_meta", field] p.toJson :: entries p rest := rfl
    constructor
    · rintro ⟨new, h⟩
      rw [hcons, run_cons_ok_iff] at h
      obtain ⟨mid, hop, hrest⟩ := h
      have hset := (apply_set_ok_iff _ _ _ _).mp hop
      refine ⟨congrArg Prod.snd hset, new, ?_⟩
      rw [congrArg Prod.fst hset]
      exact hrest
    · rintro ⟨hnone, new, hrest⟩
      refine ⟨new, ?_⟩
      rw [hcons, run_cons_ok_iff]
      exact ⟨_, (apply_set_ok_iff _ _ _ _).mpr (Prod.ext rfl hnone), hrest⟩

/-- Entries leave every other member as it was. -/
theorem field?_of_run_entries {p : Provenance} {fields : List String} {doc new : Json}
    (h : run (entries p fields) doc = .ok new) {key : String} (hkey : key ≠ "_meta") :
    new.field? key = doc.field? key := by
  induction fields generalizing doc with
  | nil => rw [← Except.ok.inj h]
  | cons field rest ih =>
    obtain ⟨mid, hop, hrest⟩ := (run_cons_ok_iff _ _ _ _).mp h
    have hset := (apply_set_ok_iff _ _ _ _).mp hop
    have hmid : (doc.set ["_meta", field] p.toJson).1 = mid := congrArg Prod.fst hset
    rw [ih hrest, ← hmid]
    exact Json.field?_set_of_ne hkey.symm doc [field] p.toJson

/-- An attributed update succeeds exactly if the update does and leaves room for the entries. -/
theorem attribute_ok_iff (u : Update) (p : Provenance) (doc : Json) :
    (∃ new, run (u.attribute p) doc = .ok new) ↔
      ∃ plain, run u doc = .ok plain ∧ HasRoom plain u.touchedFields := by
  have happend : u.attribute p = u ++ entries p u.touchedFields := rfl
  rw [happend]
  constructor
  · rintro ⟨new, h⟩
    obtain ⟨plain, hrun, hentries⟩ := (run_append_ok_iff _ _ _ _).mp h
    exact ⟨plain, hrun, (run_entries_ok_iff p _ plain).mp ⟨new, hentries⟩⟩
  · rintro ⟨plain, hrun, hroom⟩
    obtain ⟨new, hentries⟩ := (run_entries_ok_iff p _ plain).mpr hroom
    exact ⟨new, (run_append_ok_iff _ _ _ _).mpr ⟨plain, hrun, hentries⟩⟩

/-- **Attribution and success.** On a document, an attributed update succeeds just where the update
does, exactly if the result of the update has room for the entries. And whenever an attributed
update succeeds, the update succeeds with the same members, `_meta` apart. -/
theorem attribution_is_neutral_iff (u : Update) (p : Provenance) (doc : Json) :
    (((∃ new, run (u.attribute p) doc = .ok new) ↔ ∃ plain, run u doc = .ok plain) ↔
        ∀ plain, run u doc = .ok plain → HasRoom plain u.touchedFields) ∧
      ∀ new, run (u.attribute p) doc = .ok new →
        ∃ plain, run u doc = .ok plain ∧
          ∀ key, key ≠ "_meta" → new.field? key = plain.field? key := by
  refine ⟨?_, fun new h => ?_⟩
  · rw [attribute_ok_iff]
    constructor
    · intro hiff plain hrun
      obtain ⟨plain', hrun', hroom⟩ := hiff.mpr ⟨plain, hrun⟩
      obtain rfl := Except.ok.inj (hrun.symm.trans hrun')
      exact hroom
    · intro hroom
      constructor
      · rintro ⟨plain, hrun, -⟩
        exact ⟨plain, hrun⟩
      · rintro ⟨plain, hrun⟩
        exact ⟨plain, hrun, hroom plain hrun⟩
  · have happend : u.attribute p = u ++ entries p u.touchedFields := rfl
    rw [happend] at h
    obtain ⟨plain, hrun, hentries⟩ := (run_append_ok_iff _ _ _ _).mp h
    exact ⟨plain, hrun, fun key hkey => field?_of_run_entries hentries hkey⟩

/-- Writes a number to a field. -/
def numbering : Update := [.set ["a"] (.nat 1)]

/-- The start of 2024, by a client. -/
def newYear : Provenance := ⟨some "c", 1704067200, 0⟩

/-- A number in the place of `_meta` stops the attributed update, and not the update itself. -/
theorem attribution_stopped_by_number :
    numbering.run (.obj [("_id", .str "x"), ("_meta", .nat 5)]) =
        .ok (.obj [("_id", .str "x"), ("_meta", .nat 5), ("a", .nat 1)]) ∧
      ∀ new, (numbering.attribute newYear).run (.obj [("_id", .str "x"), ("_meta", .nat 5)]) ≠
        .ok new := by
  refine ⟨rfl, fun new h => ?_⟩
  obtain ⟨plain, hrun, hroom⟩ := (attribute_ok_iff _ _ _).mp ⟨new, h⟩
  obtain rfl := Except.ok.inj hrun
  rw [hasRoom_obj_iff] at hroom
  exact List.cons_ne_nil "a" [] hroom

/-- Beside other entries there is room for one more. -/
theorem attribution_beside_entries :
    ∃ new, (numbering.attribute newYear).run
      (.obj [("_id", .str "x"), ("_meta", .obj [("b", .null)])]) = .ok new := by
  refine (attribution_is_neutral_iff _ _ _).1.mpr (fun plain hrun => ?_) |>.mpr ⟨_, rfl⟩
  obtain rfl := Except.ok.inj hrun
  exact (hasRoom_obj_iff _ _).mpr trivial

end Update
end DocWatch
