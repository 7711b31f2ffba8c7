import DocWatch.Proofs.FieldPath
import DocWatch.Proofs.Update.Entries
import DocWatch.Proofs.Update.Insertions

/-!
# An array of a document

Pushes to an array of a document, a write into one of its slots and a pull from it all change the
array and nothing else, and they do not fail, not even when they are attributed, if the entries are
kept in an object.

- `Document.Holds`: a document with an array, and all that its updates need.
- `Document.Holds.modify`, `Document.Holds.attributed`: changing the array, and the entries.
- `Document.Holds.push`, `Document.Holds.mark`, `Document.Holds.pull`: the updates.
-/

namespace DocWatch

/-- Taking out a mark that is none of the elements takes out the element that was marked. -/
theorem Selector.filter_marked {items : List Json} {slot : Nat} (h : slot < items.length)
    {sentinel : String} (hfresh : .str sentinel ∉ items) :
    (items.set slot (.str sentinel)).filter
        (fun v => !(Selector.equals (.str sentinel)).selects v) = items.eraseIdx slot := by
  refine Insertions.filter_set h ?_ fun w hw => ?_
  · rw [Selector.selects, (Json.equiv_str_iff _ sentinel).mpr rfl]
    rfl
  · rw [Selector.selects, Bool.not_eq_true']
    refine eq_false_of_ne_true fun hequal => hfresh ?_
    rw [← (Json.equiv_str_iff w sentinel).mp hequal]
    exact hw

/-- The update that makes some insertions into the array at a path. -/
def Insertions.update (path : FieldPath) (is : Insertions) : Update :=
  is.map fun i => .push path i.values i.position

/-! ## Documents with an array -/

/-- A document with a string for its identity, with its entries in an object if it has any, and with
an array at a path. -/
structure Document.Holds (t : String) (path : FieldPath) (items : List Json) (doc : Json) :
    Prop where
  id : id? doc = some (.str t)
  entries : EntriesInObject doc
  array : doc.get? path = some (.arr items)

namespace Document.Holds

variable {t : String} {path : FieldPath} {items : List Json} {doc : Json}

theorem isObject (h : Holds t path items doc) : doc.isObject = true := isObject_of_id? h.id

/-- The array lies below a member, and not below the identity. -/
theorem exists_cons (h : Holds t path items doc) :
    ∃ field rest, path = field :: rest ∧ field ≠ idField := by
  cases path with
  | nil =>
    obtain ⟨fields, rfl⟩ := Json.exists_obj_of_isObject h.isObject
    cases h.array
  | cons field rest => exact ⟨field, rest, rfl, Update.ne_id_of_get?_arr h.id h.array⟩

/-- The array may be changed. -/
theorem modify (h : Holds t path items doc) (items' : List Json) :
    Holds t path items' (doc.modify path fun _ => .arr items') where
  id := by
    obtain ⟨field, rest, rfl, hfield⟩ := h.exists_cons
    exact (Json.field?_modify_of_ne hfield doc rest _).trans h.id
  entries := by
    obtain ⟨field, rest, rfl, -⟩ := h.exists_cons
    by_cases hmeta : field = metaField
    · -- the array is one of the entries, and lies in the object that they are kept in
      subst hmeta
      obtain ⟨inner, hinner, hrest⟩ := Option.bind_eq_some_iff.mp h.array
      have hfield : doc.field? metaField = some inner := by
        obtain ⟨fields, rfl⟩ := Json.exists_obj_of_isObject h.isObject
        exact hinner
      have hobject := h.entries inner hfield
      intro v hv
      rw [Json.field?_modify, hfield, Option.map_some, Option.some.injEq] at hv
      rw [← hv]
      cases rest with
      | nil =>
        obtain rfl := Option.some.inj hrest
        cases hobject
      | cons next below => rw [Json.isObject_modify, hobject]
    · exact h.entries.of_field?_eq (Json.field?_modify_of_ne hmeta doc rest _)
  array := Json.get?_modify h.array _

/-- After an update below the member that the array lies below, the entries can be written. -/
theorem attributed {plain : Json} (h : Holds t path items plain) {u : Update}
    (hu : ∀ op ∈ u, op.path.head? = path.head?) (hrun : u.run doc = .ok plain)
    (author : Option Provenance) :
    ∃ new, Update.run (u.attributed author) doc = .ok new ∧ Holds t path items new := by
  cases author with
  | none => exact ⟨plain, hrun, h⟩
  | some p =>
    obtain ⟨new, hwrites, hnew, hentries, -⟩ :=
      Update.exists_run_entries p u.touchedFields h.isObject h.entries
    have hothers : ∀ {key}, key ≠ metaField → new.field? key = plain.field? key :=
      fun hkey => Update.field?_of_run_entries hwrites hkey
    refine ⟨new, (Update.run_append_ok_iff _ _ _ _).mpr ⟨plain, hrun, hwrites⟩,
      (hothers (by decide)).trans h.id, hentries, ?_⟩
    obtain ⟨field, rest, rfl, -⟩ := h.exists_cons
    by_cases hmeta : field = metaField
    · -- the entries themselves are not recorded
      have hnone : u.touchedFields = [] := by
        refine List.eq_nil_iff_forall_not_mem.mpr fun touched hmem => ?_
        obtain ⟨htracked, op, hop, hhead⟩ := (Update.mem_touchedFields_iff u touched).mp hmem
        obtain rfl : field = touched := Option.some.inj ((hu op hop).symm.trans hhead)
        rw [hmeta] at htracked
        cases htracked
      rw [hnone] at hwrites
      rw [← Except.ok.inj hwrites]
      exact h.array
    · rw [Json.get?_of_field?_eq hnew h.isObject (hothers hmeta)]
      exact h.array

/-! ## Updates of the array -/

theorem apply_push (h : Holds t path items doc) (i : Insertion) :
    (Operator.push path i.values i.position).apply doc =
      (doc.modify path fun _ => .arr (i.onItems items), none) := by
  rw [Operator.apply, h.array, Option.isSome_some, if_pos rfl]
  simp only [Operator.onArray, h.array]
  rfl

theorem run_insertions (h : Holds t path items doc) (is : Insertions) :
    ∃ new, Update.run (is.update path) doc = .ok new ∧ Holds t path (is.onItems items) new := by
  induction is generalizing doc items with
  | nil => exact ⟨doc, rfl, h⟩
  | cons i rest ih =>
    obtain ⟨new, hrest, hnew⟩ := ih (h.modify (i.onItems items))
    exact ⟨new, (Update.run_cons_ok_iff _ _ _ _).mpr ⟨_, h.apply_push i, hrest⟩, hnew⟩

/-- Pushes to the array succeed. -/
theorem push (h : Holds t path items doc) (is : Insertions) (author : Option Provenance) :
    ∃ new, Update.run ((is.update path).attributed author) doc = .ok new ∧
      Holds t path (is.onItems items) new := by
  obtain ⟨plain, hrun, hplain⟩ := h.run_insertions is
  refine hplain.attributed (fun op hop => ?_) hrun author
  obtain ⟨i, -, rfl⟩ := List.mem_map.mp hop
  rfl

/-- A write into a slot of the array succeeds. -/
theorem mark (h : Holds t path items doc) {slot : String} {p : Nat}
    (hindex : FieldPath.index? slot = some p) (hp : p < items.length) (value : Json)
    (author : Option Provenance) :
    ∃ new, Update.run (Update.attributed [.set (path ++ [slot]) value] author) doc = .ok new ∧
      Holds t path (items.set p value) new := by
  have hset := Json.set_slot h.array hindex hp value
  refine (h.modify _).attributed (fun op hop => ?_) ?_ author
  · obtain ⟨field, rest, rfl, -⟩ := h.exists_cons
    rw [List.mem_singleton.mp hop]
    rfl
  · exact (Update.run_cons_ok_iff _ _ _ _).mpr ⟨_, (Update.apply_set_ok_iff _ _ _ _).mpr hset, rfl⟩

/-- A pull from the array succeeds. -/
theorem pull (h : Holds t path items doc) (selector : Selector) (author : Option Provenance) :
    ∃ new, Update.run (Update.attributed [.pull path selector] author) doc = .ok new ∧
      Holds t path (items.filter fun v => !selector.selects v) new := by
  refine (h.modify _).attributed (fun op hop => ?_) ?_ author
  · rw [List.mem_singleton.mp hop]
    rfl
  · exact (Update.run_cons_ok_iff _ _ _ _).mpr ⟨_, Update.apply_pull h.array selector, rfl⟩

end Document.Holds
end DocWatch
