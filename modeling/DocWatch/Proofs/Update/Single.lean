import DocWatch.Proofs.Json.Departs
import DocWatch.Proofs.Update.Alike
import DocWatch.Proofs.Update.Frame

/-!
# Updates of one operator

Records update a document with one operator at a time, which may be attributed. If this succeeds,
the operator has done what it is there for, the other members are those of the document before, and
the entries are the only thing that may have come to it.

- `Update.exists_apply_of_run_attributed`: the operator, and the write of its entry.
- `Document.Edited`: a document in which the value at a path was changed, entries apart.
- `Document.Kept`: a document of which the members that a path does not touch are kept.
- `Json.get?_unset`, `Operator.exists_items_of_apply_push`: what is at the path of an operator.
-/

namespace DocWatch

/-! ## Operators on objects -/

theorem Json.isObject_dropChild (v : Json) (segment : String) :
    (v.dropChild segment).isObject = v.isObject := by
  cases v with
  | arr items => cases hindex : FieldPath.index? segment <;> simp [dropChild, hindex, isObject]
  | _ => rfl

theorem Json.isObject_unset (v : Json) (field : String) (rest : FieldPath) :
    (v.unset (field :: rest)).1.isObject = v.isObject := by
  rw [unset_eq]
  cases v.get? (field :: rest) with
  | none => rfl
  | some old =>
    cases rest with
    | nil => exact isObject_dropChild v field
    | cons next below =>
      rw [List.getLast?_cons_cons, List.getLast?_cons]
      exact isObject_modify v field _ _

namespace Operator

theorem isObject_onArray (operator : String) (doc : Json) (field : String) (rest : FieldPath)
    (change : List Json → List Json) :
    (onArray operator doc (field :: rest) change).1.isObject = doc.isObject := by
  unfold onArray
  split
  · rfl
  · exact Json.isObject_modify doc field rest _
  · rfl

/-- An operator below a member leaves an object an object. -/
theorem isObject_apply {op : Operator} {field : String} {rest : FieldPath}
    (h : op.path = field :: rest) (doc : Json) : (op.apply doc).1.isObject = doc.isObject := by
  cases op with
  | set path value =>
    obtain rfl : path = field :: rest := h
    exact Json.isObject_set doc field rest value
  | unset path =>
    obtain rfl : path = field :: rest := h
    exact Json.isObject_unset doc field rest
  | pull path selector =>
    obtain rfl : path = field :: rest := h
    exact isObject_onArray _ doc field rest _
  | push path values position =>
    obtain rfl : path = field :: rest := h
    rw [apply]
    by_cases hthere : (doc.get? (field :: rest)).isSome = true
    · rw [if_pos hthere]
      exact isObject_onArray _ doc field rest _
    · -- the array is made first
      have hmade := Json.isObject_set doc field rest (.arr [])
      rw [if_neg hthere]
      cases hset : doc.set (field :: rest) (.arr []) with
      | mk made error =>
        rw [hset] at hmade
        cases error with
        | some e => exact hmade
        | none => exact (isObject_onArray _ made field rest _).trans hmade

end Operator

/-! ## Attributed operators -/

/-- An attributed operator that runs on an object has been applied, and what has come to it is an
entry. The entries themselves are not recorded. -/
theorem Update.exists_apply_of_run_attributed {op : Operator} {field : String} {rest : FieldPath}
    (hpath : op.path = field :: rest) {author : Option Provenance} {doc new : Json}
    (hdoc : doc.isObject = true) (h : run (attributed [op] author) doc = .ok new) :
    ∃ plain, op.apply doc = (plain, none) ∧ plain.isObject = true ∧ new.isObject = true ∧
      ∀ key, (key = Document.metaField → field = Document.metaField) →
        new.field? key = plain.field? key := by
  rw [attributed_singleton field rest hpath, run_cons_ok_iff] at h
  obtain ⟨plain, happly, hstamp⟩ := h
  have hplain : plain.isObject = true := by
    have hobject := Operator.isObject_apply hpath doc
    rwa [happly, hdoc] at hobject
  obtain ⟨-, hnew⟩ := field?_of_run_stamp hstamp (by decide : "_id" ≠ "_meta")
  refine ⟨plain, happly, hplain, hnew.trans hplain, fun key hkey => ?_⟩
  by_cases hmeta : key = Document.metaField
  · obtain rfl := hkey hmeta
    rw [Document.metaField, stamp_meta, run_nil] at hstamp
    rw [Except.ok.inj hstamp]
  · exact (field?_of_run_stamp hstamp hmeta).1

namespace Document

/-! ## Changing the value at a path -/

/-- Entries apart, a document is another one in which the value at a path was changed. -/
structure Edited (path : FieldPath) (value : Json) (doc new : Json) : Prop where
  isObject : new.isObject = true
  fields : ∀ key, (key = metaField → path.head? = some metaField) →
    new.field? key = (doc.modify path fun _ => value).field? key

/-- Entries apart, a document has the members of another one that lie beside a path. -/
def Kept (path : FieldPath) (doc new : Json) : Prop :=
  ∀ key, key ≠ metaField → path.head? ≠ some key → new.field? key = doc.field? key

variable {field : String} {rest : FieldPath} {path : FieldPath} {value : Json} {doc mid new : Json}

namespace Edited

/-- The value is at the path. -/
theorem get? (h : Edited (field :: rest) value doc new) (hdoc : doc.isObject = true) {old : Json}
    (hold : doc.get? (field :: rest) = some old) : new.get? (field :: rest) = some value := by
  rw [Json.get?_of_field?_eq h.isObject ((Json.isObject_modify doc field rest _).trans hdoc)
    (h.fields field fun hmeta => congrArg some hmeta)]
  exact Json.get?_modify hold _

theorem kept (h : Edited (field :: rest) value doc new) : Kept (field :: rest) doc new := by
  intro key hmeta hne
  rw [h.fields key fun he => absurd he hmeta]
  exact Json.field?_modify_of_ne (fun he => hne (congrArg some he)) doc rest _

/-- The second of two changes at a path counts. -/
theorem trans {value' : Json} (h : Edited (field :: rest) value doc mid)
    (h' : Edited (field :: rest) value' mid new) : Edited (field :: rest) value' doc new where
  isObject := h'.isObject
  fields := by
    intro key hkey
    have hsame : (mid.modify (field :: rest) fun _ => value').field? key =
        ((doc.modify (field :: rest) fun _ => value).modify (field :: rest)
          fun _ => value').field? key := by
      by_cases he : field = key
      · subst he
        rw [Json.field?_modify, Json.field?_modify, h.fields field hkey]
      · rw [Json.field?_modify_of_ne he, Json.field?_modify_of_ne he, h.fields key hkey]
    rw [h'.fields key hkey, hsame, Json.modify_modify]

/-- An operator that changes the value at its path does so when it is attributed. -/
theorem of_run {op : Operator} (hpath : op.path.head? = some field) {author : Option Provenance}
    (hdoc : doc.isObject = true)
    (happly : op.apply doc = (doc.modify (field :: rest) fun _ => value, none))
    (h : Update.run (Update.attributed [op] author) doc = .ok new) :
    Edited (field :: rest) value doc new := by
  obtain ⟨below, hbelow⟩ : ∃ below, op.path = field :: below := List.head?_eq_some_iff.mp hpath
  obtain ⟨plain, hplain, -, hnew, hfields⟩ := Update.exists_apply_of_run_attributed hbelow hdoc h
  obtain rfl : plain = doc.modify (field :: rest) fun _ => value :=
    (congrArg Prod.fst hplain).symm.trans (congrArg Prod.fst happly)
  exact ⟨hnew, fun key hkey => hfields key fun he => Option.some.inj (hkey he)⟩

end Edited

/-- An operator keeps the members beside its path, in an object without double keys. -/
theorem Kept.of_run {op : Operator} (hpath : op.path = field :: rest) {author : Option Provenance}
    (hdoc : doc.DistinctObject) (h : Update.run (Update.attributed [op] author) doc = .ok new) :
    Kept (field :: rest) doc new := by
  intro key hmeta hne
  obtain ⟨plain, happly, -, -, hfields⟩ :=
    Update.exists_apply_of_run_attributed hpath hdoc.isObject h
  have havoids : op.path.Avoids key := by
    rw [hpath]
    exact ⟨List.cons_ne_nil field rest, hne⟩
  have hframed := (Operator.framed_apply havoids doc hdoc).2
  rw [happly] at hframed
  rw [hfields key fun he => absurd he hmeta, hframed]

end Document

/-! ## What is at the path of an operator -/

/-- What was removed is not there any more, or it is null in a slot of an array. -/
theorem Json.get?_unset {v : Json} (h : v.KeysDistinct) {path : FieldPath} (hroot : path ≠ []) :
    (v.unset path).1.get? path = none ∨
      ((v.unset path).1.get? path = some .null ∧
        ∃ items, (v.unset path).1.get? path.dropLast = some (.arr items)) := by
  cases hold : v.get? path with
  | none =>
    rw [unset_of_get?_eq_none hold]
    exact .inl hold
  | some old =>
    rcases get?_unset_of_get? h hroot hold with
      ⟨-, -, hgone⟩ | ⟨-, items', -, harray, -, hnull⟩
    · exact .inl hgone
    · exact .inr ⟨hnull, items', harray⟩

namespace Operator

/-- A push that succeeds finds an array at its path, or nothing, and leaves an array there. -/
theorem exists_items_of_apply_push {path : FieldPath} {values : List Json} {position : Option Nat}
    {doc plain : Json} (h : (push path values position).apply doc = (plain, none)) :
    ∃ items, (doc.get? path = some (.arr items) ∨ doc.get? path = none ∧ items = []) ∧
      plain.get? path = some (.arr (splice items values position)) := by
  rw [apply] at h
  have hchanged : ∀ {made : Json} {items : List Json}, made.get? path = some (.arr items) →
      onArray "$push" made path (splice · values position) = (plain, none) →
      plain.get? path = some (.arr (splice items values position)) := by
    intro made items hmade harray
    rw [onArray, hmade] at harray
    obtain ⟨rfl, -⟩ := Prod.mk.inj harray
    exact Json.get?_modify hmade _
  cases hthere : doc.get? path with
  | some v =>
    simp only [hthere, Option.isSome_some, if_true] at h
    cases v with
    | arr items => exact ⟨items, .inl rfl, hchanged hthere h⟩
    | _ =>
      rw [onArray, hthere] at h
      cases (Prod.mk.inj h).2
  | none =>
    simp only [hthere, Option.isSome_none, Bool.false_eq_true, if_false] at h
    cases hset : doc.set path (.arr []) with
    | mk made error =>
      rw [hset] at h
      cases error with
      | some e => cases (Prod.mk.inj h).2
      | none =>
        exact ⟨[], .inr ⟨rfl, rfl⟩, hchanged (Json.get?_of_set hset) h⟩

end Operator
end DocWatch
