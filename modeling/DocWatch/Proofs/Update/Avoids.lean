import DocWatch.Proofs.Update.Neutrality

/-!
# Updates that avoid a member

An update whose operators all write below other members neither adds nor removes a member. Its
value may still change when the object has its key twice, which no object that was read has; so
this is about being there, and not about the value.

- `FieldPath.Avoids`, `Update.Avoids`: paths and updates that do not touch a member.
- `Update.hasField_run`: such an update neither adds nor removes the member.
- `Update.KeepsMark`: the updates that leave a document marked as deleted.
-/

namespace DocWatch

/-- The path is neither the root nor starts at this member. -/
def FieldPath.Avoids (key : String) (path : FieldPath) : Prop :=
  path ≠ [] ∧ path.head? ≠ some key

theorem FieldPath.Avoids.exists_cons {key : String} {path : FieldPath} (h : path.Avoids key) :
    ∃ segment rest, path = segment :: rest ∧ segment ≠ key := by
  obtain ⟨segment, rest, rfl⟩ := List.exists_cons_of_ne_nil h.1
  exact ⟨segment, rest, rfl, fun he => h.2 (he ▸ rfl)⟩

/-! ## Members that are there -/

/-- Is there a member of this key? -/
def Json.HasField (v : Json) (key : String) : Prop := (v.field? key).isSome = true

namespace Members

variable {α : Type}

/-- A key is bound if it is one of the keys. -/
theorem isSome_get?_iff (ms : Members α) (key : String) :
    (ms.get? key).isSome = true ↔ key ∈ keys ms := by
  rw [← not_iff_not, Bool.not_eq_true, Option.isSome_eq_false_iff, Option.isNone_iff_eq_none,
    get?_eq_none_iff]

/-- Taking out one key keeps the others bound. -/
theorem mem_keys_erase_iff {key other : String} (hne : key ≠ other) (ms : Members α) :
    other ∈ keys (ms.erase key) ↔ other ∈ keys ms := by
  induction ms with
  | nil => exact Iff.rfl
  | cons kv rest ih =>
    obtain ⟨k, v⟩ := kv
    rw [erase]
    by_cases hk : k = key
    · have hother : other ≠ k := fun he => hne (hk ▸ he.symm)
      rw [if_pos hk, keys_cons, List.mem_cons, or_iff_right hother]
      -- the last binding moves to the front of the others
      rcases List.eq_nil_or_concat rest with rfl | ⟨init, last, rfl⟩
      · rfl
      · rw [List.concat_eq_append, List.getLast?_concat]
        simp only [List.dropLast_concat]
        exact ((List.perm_append_singleton last init).map Prod.fst).symm.mem_iff
    · rw [if_neg hk, keys_cons, keys_cons, List.mem_cons, List.mem_cons, ih]

end Members

namespace Json

variable {key : String}

theorem hasField_set {field : String} (hne : field ≠ key) (v : Json) (rest : FieldPath)
    (value : Json) : (v.set (field :: rest) value).1.HasField key ↔ v.HasField key := by
  rw [HasField, HasField, field?_set_of_ne hne]

theorem hasField_modify {field : String} (hne : field ≠ key) (v : Json) (rest : FieldPath)
    (change : Json → Json) : (v.modify (field :: rest) change).HasField key ↔ v.HasField key := by
  rw [HasField, HasField, field?_modify_of_ne hne]

theorem hasField_dropChild {field : String} (hne : field ≠ key) (v : Json) :
    (v.dropChild field).HasField key ↔ v.HasField key := by
  cases v with
  | obj fields =>
    show (Members.get? (Members.erase fields field) key).isSome = true ↔ _
    rw [Members.isSome_get?_iff, Members.mem_keys_erase_iff hne, ← Members.isSome_get?_iff]
    exact Iff.rfl
  | arr items =>
    rw [dropChild]
    cases FieldPath.index? field <;> exact Iff.rfl
  | _ => exact Iff.rfl

theorem hasField_unset {field : String} (hne : field ≠ key) (v : Json) (rest : FieldPath) :
    (v.unset (field :: rest)).1.HasField key ↔ v.HasField key := by
  rw [unset_eq]
  cases v.get? (field :: rest) with
  | none => exact Iff.rfl
  | some old =>
    cases rest with
    | nil => exact hasField_dropChild hne v
    | cons next below =>
      rw [List.getLast?_cons_cons, List.getLast?_cons]
      exact hasField_modify hne v _ _

end Json

/-! ## Operators and updates -/

theorem Operator.hasField_onArray {key field : String} (hne : field ≠ key) (operator : String)
    (doc : Json) (rest : FieldPath) (change : List Json → List Json) :
    (onArray operator doc (field :: rest) change).1.HasField key ↔ doc.HasField key := by
  unfold onArray
  split
  · exact Iff.rfl
  · exact Json.hasField_modify hne doc rest _
  · exact Iff.rfl

/-- An operator that avoids a member neither adds nor removes it. -/
theorem Operator.hasField_apply {key : String} {op : Operator} (h : op.path.Avoids key)
    (doc : Json) : (op.apply doc).1.HasField key ↔ doc.HasField key := by
  obtain ⟨field, rest, hpath, hne⟩ := h.exists_cons
  cases op with
  | set path value =>
    obtain rfl : path = field :: rest := hpath
    exact Json.hasField_set hne doc rest value
  | unset path =>
    obtain rfl : path = field :: rest := hpath
    exact Json.hasField_unset hne doc rest
  | pull path selector =>
    obtain rfl : path = field :: rest := hpath
    exact hasField_onArray hne _ doc rest _
  | push path values position =>
    obtain rfl : path = field :: rest := hpath
    rw [apply]
    by_cases hthere : (doc.get? (field :: rest)).isSome = true
    · rw [if_pos hthere]
      exact hasField_onArray hne _ doc rest _
    · -- the array is made first
      have hmade := Json.hasField_set hne doc rest (.arr [])
      rw [if_neg hthere]
      cases hset : doc.set (field :: rest) (.arr []) with
      | mk made error =>
        rw [hset] at hmade
        cases error with
        | some e => exact hmade
        | none => exact (hasField_onArray hne _ made rest _).trans hmade

namespace Update

/-- All operators avoid a member. -/
def Avoids (key : String) (u : Update) : Prop := ∀ op ∈ u, op.path.Avoids key

/-- An update that avoids a member neither adds nor removes it. -/
theorem hasField_run {key : String} {u : Update} (h : u.Avoids key) {doc new : Json}
    (hrun : u.run doc = .ok new) : new.HasField key ↔ doc.HasField key := by
  induction u generalizing doc with
  | nil => rw [← Except.ok.inj hrun]
  | cons op rest ih =>
    obtain ⟨mid, hop, hrest⟩ := (run_cons_ok_iff op rest doc new).mp hrun
    have hmid := Operator.hasField_apply (h op List.mem_cons_self) doc
    rw [hop] at hmid
    exact (ih (fun op' hop' => h op' (List.mem_cons_of_mem op hop')) hrest).trans hmid

/-! ## Marks of deletion -/

/-- A document that is marked as deleted is so after the update. -/
def KeepsMark (u : Update) : Prop :=
  ∀ doc new, u.run doc = .ok new → Document.isDeleted doc = true → Document.isDeleted new = true

theorem keepsMark_of_avoids {u : Update} (h : u.Avoids Document.deletedField) : u.KeepsMark :=
  fun _ _ hrun => (hasField_run h hrun).mpr

/-- The update that writes the mark does just that. -/
theorem run_mark_ok {mark doc new : Json}
    (hrun : run [.set [Document.deletedField] mark] doc = .ok new) :
    doc.set [Document.deletedField] mark = (new, none) := by
  obtain ⟨mid, hop, hnil⟩ := (run_cons_ok_iff _ _ _ _).mp hrun
  obtain rfl := Except.ok.inj hnil
  exact (apply_set_ok_iff _ _ _ _).mp hop

theorem isDeleted_of_run_mark {mark doc new : Json} (hdoc : doc.isObject = true)
    (hrun : run [.set [Document.deletedField] mark] doc = .ok new) :
    Document.isDeleted new = true := by
  have hset := run_mark_ok hrun
  cases doc with
  | obj fields =>
    rw [Json.set_obj] at hset
    rw [← (Prod.mk.inj hset).1]
    show (Members.get? (Members.insert fields _ _) _).isSome = true
    rw [Members.get?_insert, if_pos rfl]
    rfl
  | _ => cases hdoc

/-- An attributed update runs only if the update does, and has its members, the entries apart. -/
theorem exists_run_of_attributed {u : Update} {author : Option Provenance} {doc new : Json}
    (h : run (u.attributed author) doc = .ok new) :
    ∃ plain, run u doc = .ok plain ∧
      ∀ key, key ≠ Document.metaField → new.field? key = plain.field? key := by
  cases author with
  | none => exact ⟨new, h, fun _ _ => rfl⟩
  | some p =>
    obtain ⟨plain, hrun, hentries⟩ := (run_append_ok_iff u (entries p u.touchedFields) _ _).mp h
    exact ⟨plain, hrun, fun key hkey => field?_of_run_entries hentries hkey⟩

/-- Whether a document is marked does not depend on the entries. -/
theorem isDeleted_of_attributed {u : Update} {author : Option Provenance} {doc new : Json}
    (h : run (u.attributed author) doc = .ok new) :
    ∃ plain, run u doc = .ok plain ∧ Document.isDeleted new = Document.isDeleted plain := by
  obtain ⟨plain, hrun, hfields⟩ := exists_run_of_attributed h
  refine ⟨plain, hrun, ?_⟩
  rw [Document.isDeleted, Document.isDeleted, hfields _ (by decide)]

theorem KeepsMark.attributed {u : Update} (h : u.KeepsMark) (author : Option Provenance) :
    (u.attributed author).KeepsMark := by
  intro doc new hrun hdeleted
  obtain ⟨plain, hplain, heq⟩ := isDeleted_of_attributed hrun
  rw [heq]
  exact h doc plain hplain hdeleted

end Update
end DocWatch
