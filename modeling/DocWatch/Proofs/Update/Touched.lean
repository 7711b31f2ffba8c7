import DocWatch.Proofs.Update.Entries
import DocWatch.Proofs.Update.Single

/-!
# Changed fields are touched

An operator below a field leaves all other fields of the document as they are. What an update
changes, then, is what it touches, with one exception: a write at the root puts a value in the place
of the whole document, and the root is no field. Which fields it changes, if any, depends on the
document.

- `Update.replacement?`: what an update puts in the place of the whole document.
- `Operator.replaces_or_below_of_apply`: the two ways in which an operator leaves an object.
- `Update.field?_of_run`: a field that is not touched is that of the replacement or of the document.
- `Update.changes_are_touched_iff`: when all fields that change are touched.
-/

namespace DocWatch

/-- An object in which no object has a key twice. -/
theorem Json.KeysDistinct.distinctObject {v : Json} (h : v.KeysDistinct)
    (hobject : v.isObject = true) : v.DistinctObject := by
  obtain ⟨fields, rfl⟩ := exists_obj_of_isObject hobject
  exact ⟨fields, rfl, h.1⟩

/-! ## Operators that leave an object -/

/-- At the root, the operators other than a write leave no object: the document is removed, or it is
taken for an array. -/
theorem Operator.eq_set_of_apply_root {op : Operator} (hroot : op.path = []) {doc new : Json}
    (h : op.apply doc = (new, none)) (hnew : new.isObject = true) : op = .set [] new := by
  have harray : ∀ (operator : String) (change : List Json → List Json),
      onArray operator doc [] change ≠ (new, none) := by
    rintro operator change he
    cases doc with
    | arr items =>
      obtain ⟨rfl, -⟩ := Prod.mk.inj he
      cases hnew
    | _ => cases he
  cases op with
  | set path value =>
    obtain rfl : path = [] := hroot
    obtain ⟨rfl, -⟩ := Prod.mk.inj h
    rfl
  | unset path =>
    obtain rfl : path = [] := hroot
    obtain ⟨rfl, -⟩ := Prod.mk.inj h
    cases hnew
  | push path values position =>
    obtain rfl : path = [] := hroot
    exact absurd h (harray _ _)
  | pull path selector =>
    obtain rfl : path = [] := hroot
    exact absurd h (harray _ _)

/-- An operator that leaves an object has put it in the place of the document, or has written below
a field of an object. -/
theorem Operator.replaces_or_below_of_apply {op : Operator} {doc new : Json}
    (h : op.apply doc = (new, none)) (hnew : new.isObject = true) :
    op = .set [] new ∨ doc.isObject = true ∧ op.path ≠ [] := by
  cases hpath : op.path with
  | nil => exact .inl (eq_set_of_apply_root hpath h hnew)
  | cons field rest =>
    refine .inr ⟨?_, List.cons_ne_nil _ _⟩
    rw [← isObject_apply hpath doc, h]
    exact hnew

namespace Update

open Document

/-! ## Touched fields and replacements -/

theorem nodup_addField {fields : List String} (h : fields.Nodup) (field : String) :
    (addField fields field).Nodup := by
  unfold addField
  by_cases hmem : field ∈ fields
  · rwa [if_pos hmem]
  · rw [if_neg hmem, ← List.concat_eq_append]
    exact h.concat hmem

/-- No field is recorded twice. -/
theorem nodup_touchedFields (u : Update) : u.touchedFields.Nodup := by
  refine List.foldlRecOn u _ List.nodup_nil fun fields hfields op _ => ?_
  split
  · split
    · exact nodup_addField hfields _
    · exact hfields
  · exact hfields

/-- What an update puts in the place of the whole document, the last time if it does so more than
once. -/
def replacement? (u : Update) : Option Json :=
  u.foldl (fun last op => match op with | .set [] value => some value | _ => last) none

theorem replacement?_concat_set (u : Update) (value : Json) :
    replacement? (u ++ [.set [] value]) = some value := by
  rw [replacement?, List.foldl_concat]

/-- An operator below a field replaces nothing. -/
theorem replacement?_concat_of_ne (u : Update) {op : Operator} (h : op.path ≠ []) :
    replacement? (u ++ [op]) = replacement? u := by
  rw [replacement?, List.foldl_concat]
  cases op with
  | set path value =>
    cases path with
    | nil => exact absurd rfl h
    | cons field rest => rfl
  | _ => rfl

/-! ## What is not touched -/

/-- After an update that leaves an object, a field below which no operator writes is that of the
replacement, or of the document if there is none. By induction at the end of the update: the last
operator replaces the document or leaves the field, and in the second case it was given an object as
well. -/
theorem field?_of_run {u : Update} (hu : u.KeysDistinct) {doc new : Json}
    (hdoc : doc.DistinctObject) (hrun : u.run doc = .ok new) (hnew : new.isObject = true)
    {field : String} (hfield : ∀ op ∈ u, op.path.head? ≠ some field) :
    new.DistinctObject ∧ new.field? field = (u.replacement?.getD doc).field? field := by
  induction u using List.reverseRecOn generalizing new with
  | nil =>
    obtain rfl := Except.ok.inj hrun
    exact ⟨hdoc, rfl⟩
  | append_singleton u op ih =>
    obtain ⟨mid, hmid, hlast⟩ := (run_append_ok_iff u [op] doc new).mp hrun
    obtain ⟨last, hop, hnil⟩ := (run_cons_ok_iff op [] mid new).mp hlast
    obtain rfl : last = new := Except.ok.inj hnil
    obtain ⟨hu, hlastvalues⟩ := List.forall_mem_append.mp hu
    obtain ⟨hothers, hfield⟩ := List.forall_mem_append.mp hfield
    rcases Operator.replaces_or_below_of_apply hop hnew with rfl | ⟨hmidobject, hbelow⟩
    · rw [replacement?_concat_set, Option.getD_some]
      exact ⟨(hlastvalues _ List.mem_cons_self).distinctObject hnew, rfl⟩
    · obtain ⟨hmiddistinct, hmidfield⟩ := ih hu hmid hmidobject hothers
      have hframed := Operator.framed_apply ⟨hbelow, hfield op List.mem_cons_self⟩ mid
      rw [hop] at hframed
      obtain ⟨hdistinct, hkept⟩ := hframed hmiddistinct
      rw [replacement?_concat_of_ne u hbelow, hkept]
      exact ⟨hdistinct, hmidfield⟩

/-- The same about the fields that are recorded. -/
theorem field?_of_not_mem_touchedFields {u : Update} (hu : u.KeysDistinct) {doc new : Json}
    (hdoc : doc.DistinctObject) (hrun : u.run doc = .ok new) (hnew : new.isObject = true)
    {field : String} (hid : field ≠ idField) (hmeta : field ≠ metaField)
    (hfield : field ∉ u.touchedFields) :
    new.field? field = (u.replacement?.getD doc).field? field := by
  have htracked : isTracked field = true := by
    simp only [idField, metaField] at hid hmeta
    simp [isTracked, hid, hmeta]
  refine (field?_of_run hu hdoc hrun hnew fun op hop hhead => ?_).2
  exact hfield ((mem_touchedFields_iff u field).mpr ⟨htracked, op, hop, hhead⟩)

/-- **Changed fields are touched.** Let an update that was read succeed on an object and leave an
object. No field is recorded twice. Each field that appears, disappears or changes is among those
that the update touches, the identity and the entries apart, exactly if the update does not replace
the document, or in its last replacement the other fields are those of the document. -/
theorem changes_are_touched_iff {source : Json} (hsource : source.KeysDistinct) {u : Update}
    (hparse : parse source = .ok u) {members : Members Json}
    (hmembers : (Members.keys members).Nodup) {new : Json}
    (hrun : u.run (.obj members) = .ok new) (hnew : new.isObject = true) :
    u.touchedFields.Nodup ∧
      ((∀ field, field ≠ idField → field ≠ metaField →
          new.field? field ≠ (Json.obj members).field? field → field ∈ u.touchedFields) ↔
        ∀ value, u.replacement? = some value → ∀ field, field ≠ idField → field ≠ metaField →
          field ∉ u.touchedFields → value.field? field = (Json.obj members).field? field) := by
  have hkept : ∀ field, field ≠ idField → field ≠ metaField → field ∉ u.touchedFields →
      new.field? field = (u.replacement?.getD (.obj members)).field? field := fun _ =>
    field?_of_not_mem_touchedFields (keysDistinct_of_parse hsource hparse)
      ⟨members, rfl, hmembers⟩ hrun hnew
  refine ⟨nodup_touchedFields u, fun htouched value hvalue field hid hmeta hfield => ?_,
    fun hsame field hid hmeta hchanged => ?_⟩
  · have hnewfield := hkept field hid hmeta hfield
    rw [hvalue, Option.getD_some] at hnewfield
    rw [← hnewfield]
    by_contra hchanged
    exact hfield (htouched field hid hmeta hchanged)
  · by_contra hfield
    refine hchanged ((hkept field hid hmeta hfield).trans ?_)
    cases hvalue : u.replacement? with
    | none => rfl
    | some value => exact hsame value hvalue field hid hmeta hfield

/-- A document with two fields. -/
def numbered : Members Json := [("_id", .str "x"), ("n", .nat 7), ("a", .nat 0)]

/-- A write at the root that keeps `n`, and a write and a removal below two other fields. -/
def overhaul : Json :=
  .obj [("$set", .obj [("", .obj [("_id", .str "x"), ("n", .nat 7), ("b", .null)]),
      ("a.c", .nat 1)]),
    ("$unset", .obj [("b", .null)])]

/-- What is neither `a` nor `b` is in the replacement what it was. -/
theorem overhaul_changes_are_touched :
    ∃ u new, parse overhaul = .ok u ∧ u.run (.obj numbered) = .ok new ∧
      ∀ field, field ≠ idField → field ≠ metaField →
        new.field? field ≠ (Json.obj numbered).field? field → field ∈ u.touchedFields := by
  have hsource : overhaul.KeysDistinct := by
    simp [overhaul, Json.KeysDistinct, Json.KeysDistinctFields, Json.nat]
  have hparse : parse overhaul =
      .ok [.set [] (.obj [("_id", .str "x"), ("n", .nat 7), ("b", .null)]),
        .set ["a", "c"] (.nat 1), .unset ["b"]] := rfl
  refine ⟨_, _, hparse, rfl,
    (changes_are_touched_iff hsource hparse (by decide) rfl rfl).2.mpr fun value hvalue => ?_⟩
  obtain rfl := Option.some.inj hvalue
  intro field _ _ hfield
  have hother : field ∉ ["a", "b"] := hfield
  simp only [List.mem_cons, List.not_mem_nil, or_false, not_or] at hother
  simp [Json.field?, Members.get?, numbered, Ne.symm hother.1, Ne.symm hother.2]

/-- A write at the root adds a field and touches none. -/
theorem replacement_is_not_touched :
    ∃ u new, parse (.obj [("$set", .obj [("", .obj [("_id", .str "x"), ("a", .nat 1)])])]) = .ok u ∧
      u.run (.obj [("_id", .str "x")]) = .ok new ∧ new.isObject = true ∧
      new.field? "a" ≠ (Json.obj [("_id", .str "x")]).field? "a" ∧ "a" ∉ u.touchedFields := by
  refine ⟨_, _, rfl, rfl, rfl, ?_, ?_⟩
  · decide
  · decide

end Update
end DocWatch
