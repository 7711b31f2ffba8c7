import DocWatch.Proofs.Identity
import DocWatch.Proofs.Json.Access
import DocWatch.Update.Apply
import DocWatch.Update.Attribution

/-!
# Attributed updates

An update of one operator is attributed by one more write, into the entry of the field that it
touches. Writing this entry succeeds or fails by what stands in the place of the entries, so that
it succeeds once more after it has succeeded. This is why the second write of a removal by position
cannot fail after the first one has succeeded (`Update.exists_pull_after_set`).

- `Update.attributed`, `Update.stamp`: the update and the write of its entry.
- `Update.run_cons_ok_iff`: running operators one by one.
- `Update.exists_stamp_again`: entries can be written again.
-/

namespace DocWatch

/-! ## Objects stay objects -/

theorem Json.isObject_set (v : Json) (segment : String) (rest : FieldPath) (value : Json) :
    (v.set (segment :: rest) value).1.isObject = v.isObject := by
  cases v with
  | obj fields => rfl
  | arr items =>
    rcases set_arr_cases items segment rest value with ⟨e, he⟩ | ⟨i, items', hindex, hpad⟩
    · rw [he]
    · rw [set_arr hindex hpad]
      rfl
  | _ => rfl

theorem Json.isObject_modify (v : Json) (segment : String) (rest : FieldPath)
    (change : Json → Json) : (v.modify (segment :: rest) change).isObject = v.isObject := by
  cases hchild : v.child? segment with
  | none => rw [modify_of_child?_eq_none hchild]
  | some inner =>
    cases v with
    | obj fields =>
      rw [modify_obj hchild]
      rfl
    | arr items =>
      obtain ⟨i, hindex, hitem⟩ := Option.bind_eq_some_iff.mp hchild
      rw [modify_arr hindex hitem]
      rfl
    | _ => cases hchild

theorem Document.isObject_of_id? {doc id : Json} (h : id? doc = some id) :
    doc.isObject = true := by
  obtain ⟨fields, rfl, -⟩ := exists_obj_of_id? h
  rfl

namespace Update

/-! ## One operator after another -/

/-- Operators run if the first applies and the others run after it. -/
theorem run_cons_ok_iff (op : Operator) (rest : Update) (doc new : Json) :
    run (op :: rest) doc = .ok new ↔
      ∃ mid, op.apply doc = (mid, none) ∧ run rest mid = .ok new := by
  unfold run
  rw [apply]
  cases hop : op.apply doc with
  | mk mid error =>
    cases error with
    | none => simp
    | some e => simp

theorem run_nil (doc : Json) : run [] doc = .ok doc := rfl

theorem apply_set_ok_iff (path : FieldPath) (value doc new : Json) :
    (Operator.set path value).apply doc = (new, none) ↔ doc.set path value = (new, none) := by
  rw [Operator.apply]
  cases doc.set path value with
  | mk w error => cases error <;> simp

theorem apply_pull {doc : Json} {path : FieldPath} {items : List Json}
    (h : doc.get? path = some (.arr items)) (selector : Selector) :
    (Operator.pull path selector).apply doc =
      (doc.modify path fun _ => .arr (items.filter fun v => !selector.selects v), none) := by
  rw [Operator.apply, Operator.onArray, h]

/-! ## Attribution -/

/-- An update with the record of its application, if there is one. -/
def attributed (u : Update) : Option Provenance → Update
  | some p => u.attribute p
  | none => u

/-- The write of the entry of a field. -/
def stamp (field : String) : Option Provenance → Update
  | some p => if isTracked field then [.set ["_meta", field] p.toJson] else []
  | none => []

/-- An operator is attributed by the write of the entry of its field. -/
theorem attributed_singleton {op : Operator} (field : String) (rest : FieldPath)
    (h : op.path = field :: rest) (author : Option Provenance) :
    attributed [op] author = op :: stamp field author := by
  cases author with
  | none => rfl
  | some p =>
    rw [attributed, Update.attribute, touchedFields, List.foldl_cons, List.foldl_nil, h, stamp]
    cases htracked : isTracked field <;> simp [htracked, addField]

/-- The entries themselves are not recorded. -/
theorem stamp_meta (author : Option Provenance) : stamp "_meta" author = [] := by
  cases author <;> rfl

/-- The write of an entry keeps the other members. -/
theorem field?_of_run_stamp {field : String} {author : Option Provenance} {doc new : Json}
    (h : run (stamp field author) doc = .ok new) {key : String} (hkey : key ≠ "_meta") :
    new.field? key = doc.field? key ∧ new.isObject = doc.isObject := by
  cases author with
  | none =>
    rw [← Except.ok.inj h]
    exact ⟨rfl, rfl⟩
  | some p =>
    rw [stamp] at h
    cases htracked : isTracked field with
    | false =>
      rw [htracked] at h
      rw [← Except.ok.inj h]
      exact ⟨rfl, rfl⟩
    | true =>
      rw [htracked, if_pos rfl, run_cons_ok_iff] at h
      obtain ⟨mid, happly, hrun⟩ := h
      rw [apply_set_ok_iff] at happly
      have hmid : (doc.set ["_meta", field] p.toJson).1 = mid := congrArg Prod.fst happly
      rw [← Except.ok.inj hrun, ← hmid]
      exact ⟨Json.field?_set_of_ne hkey.symm doc [field] _,
        Json.isObject_set doc "_meta" [field] _⟩

/-- After an entry was written, it can be written again wherever the entries are the same. -/
theorem exists_stamp_again {field : String} {author author' : Option Provenance}
    {doc new doc' : Json} (h : run (stamp field author) doc = .ok new)
    (hauthor : author'.isSome = author.isSome) (hnew : new.isObject = true)
    (hdoc' : doc'.isObject = true) (hmeta : doc'.field? "_meta" = new.field? "_meta") :
    ∃ new', run (stamp field author') doc' = .ok new' := by
  cases author' with
  | none => exact ⟨doc', rfl⟩
  | some p' =>
    obtain ⟨p, rfl⟩ := Option.isSome_iff_exists.mp (hauthor.symm.trans rfl)
    rw [stamp] at h ⊢
    cases htracked : isTracked field with
    | false => exact ⟨doc', rfl⟩
    | true =>
      rw [htracked, if_pos rfl, run_cons_ok_iff] at h
      obtain ⟨mid, happly, hrun⟩ := h
      rw [apply_set_ok_iff] at happly
      obtain rfl := Except.ok.inj hrun
      have hagain := Json.set_again (congrArg Prod.snd happly) p'.toJson
      rw [congrArg Prod.fst happly] at hagain
      refine ⟨(doc'.set ["_meta", field] p'.toJson).1, ?_⟩
      rw [if_pos rfl, run_cons_ok_iff]
      refine ⟨_, ?_, rfl⟩
      rw [apply_set_ok_iff]
      refine Prod.ext rfl ?_
      rw [Json.set_of_field?_eq hdoc' hnew hmeta]
      exact hagain

/-! ## A pull after a write into its array -/

/-- An identity that is a string has no array in it. -/
theorem ne_id_of_get?_arr {doc : Json} {t field : String} {rest : FieldPath} {items : List Json}
    (hid : Document.id? doc = some (.str t))
    (harray : doc.get? (field :: rest) = some (.arr items)) : field ≠ "_id" := by
  rintro rfl
  obtain ⟨fields, rfl, hget⟩ := Document.exists_obj_of_id? hid
  rw [Json.get?, Json.child?, hget, Option.bind_some] at harray
  cases rest <;> cases harray

/-- After a write into a slot of an array that succeeded, a pull from that array succeeds, entries
included, and both keep an identity that is a string. -/
theorem exists_pull_after_set {doc new value : Json} {array : FieldPath} {slot t : String}
    {items : List Json} {author : Option Provenance}
    (hid : Document.id? doc = some (.str t)) (harray : doc.get? array = some (.arr items))
    (hset : run (attributed [.set (array ++ [slot]) value] author) doc = .ok new)
    (hroot : array ≠ []) {author' : Option Provenance}
    (hauthor : author'.isSome = author.isSome) (selector : Selector) :
    ∃ new', run (attributed [.pull array selector] author') new = .ok new' ∧
      Document.id? new = some (.str t) ∧ Document.id? new' = some (.str t) := by
  obtain ⟨field, rest, rfl⟩ := List.exists_cons_of_ne_nil hroot
  have hfield := ne_id_of_get?_arr hid harray
  have hdoc := Document.isObject_of_id? hid
  -- the write into the slot, and the write of its entry
  rw [attributed_singleton field (rest ++ [slot]) rfl, run_cons_ok_iff] at hset
  obtain ⟨mid, happly, hstamp⟩ := hset
  rw [apply_set_ok_iff] at happly
  have hmid : mid = (doc.set (field :: (rest ++ [slot])) value).1 := (congrArg Prod.fst happly).symm
  have hmidobj : mid.isObject = true := by
    rw [hmid, Json.isObject_set, hdoc]
  obtain ⟨items', hitems'⟩ := Json.exists_set_arr items slot value
  have hmidarray : mid.get? (field :: rest) = some (.arr items') := by
    rw [hmid, ← List.cons_append, Json.get?_set_append harray Json.noConfusion, hitems']
  have hmidid : mid.field? "_id" = doc.field? "_id" := by
    rw [hmid]
    exact Json.field?_set_of_ne hfield doc _ value
  obtain ⟨hnewid, hnewobj⟩ := field?_of_run_stamp hstamp (by decide : "_id" ≠ "_meta")
  rw [hmidobj] at hnewobj
  have hnewarray : new.get? (field :: rest) = some (.arr items') := by
    by_cases hmeta : field = "_meta"
    · subst hmeta
      rw [stamp_meta, run_nil] at hstamp
      rw [← Except.ok.inj hstamp]
      exact hmidarray
    · rw [Json.get?_of_field?_eq hnewobj hmidobj (field?_of_run_stamp hstamp hmeta).1]
      exact hmidarray
  -- the pull
  let pulled : Json := new.modify (field :: rest) fun _ =>
    .arr (items'.filter fun v => !selector.selects v)
  have hpulledobj : pulled.isObject = true := (Json.isObject_modify new field rest _).trans hnewobj
  -- the write of its entry
  obtain ⟨new', hnew'⟩ : ∃ new', run (stamp field author') pulled = .ok new' := by
    by_cases hmeta : field = "_meta"
    · subst hmeta
      rw [stamp_meta]
      exact ⟨pulled, rfl⟩
    · exact exists_stamp_again hstamp hauthor hnewobj hpulledobj
        (Json.field?_modify_of_ne hmeta new rest _)
  refine ⟨new', ?_, ?_, ?_⟩
  · rw [attributed_singleton field rest rfl, run_cons_ok_iff]
    exact ⟨pulled, apply_pull hnewarray selector, hnew'⟩
  · exact hnewid.trans (hmidid.trans hid)
  · exact (field?_of_run_stamp hnew' (by decide)).1.trans
      ((Json.field?_modify_of_ne hfield new rest _).trans (hnewid.trans (hmidid.trans hid)))

end Update
end DocWatch
