import DocWatch.Proofs.Update.Avoids

/-!
# What updates leave alone

An update whose operators all write below other members keeps a member as it is, if the object has
no key twice. Taking out a member moves the last one into its place, so that of two members with one
key the other one might come to be found; this is why the condition is there. It is kept as well,
whatever the values below the members are like.

- `Json.DistinctObject`: objects that have no key twice.
- `Json.Framed`: one object comes from another and has the same member under a key.
- `Operator.framed_apply`, `Update.framed_run`: operators and updates that avoid a member keep it.
-/

namespace DocWatch

namespace Json

/-- An object that has no key twice. Its members may be anything. -/
def DistinctObject (v : Json) : Prop := ∃ fields, v = .obj fields ∧ (Members.keys fields).Nodup

theorem DistinctObject.isObject {v : Json} (h : v.DistinctObject) : v.isObject = true := by
  obtain ⟨fields, rfl, -⟩ := h
  rfl

/-- If the first value is an object without double keys then so is the second, and it has the same
member under a key. -/
def Framed (key : String) (v w : Json) : Prop :=
  v.DistinctObject → w.DistinctObject ∧ w.field? key = v.field? key

variable {key : String}

theorem framed_refl (v : Json) : v.Framed key v := fun h => ⟨h, rfl⟩

theorem Framed.trans {u v w : Json} (h : u.Framed key v) (h' : v.Framed key w) :
    u.Framed key w := fun hu =>
  ⟨(h' (h hu).1).1, (h' (h hu).1).2.trans (h hu).2⟩

variable {field : String}

theorem framed_set (hne : field ≠ key) (v : Json) (rest : FieldPath) (value : Json) :
    v.Framed key (v.set (field :: rest) value).1 := by
  rintro ⟨fields, rfl, hnd⟩
  refine ⟨?_, field?_set_of_ne hne _ rest value⟩
  rw [set_obj]
  exact ⟨_, rfl, Members.nodup_insert hnd field _⟩

theorem framed_modify (hne : field ≠ key) (v : Json) (rest : FieldPath) (change : Json → Json) :
    v.Framed key (v.modify (field :: rest) change) := by
  rintro ⟨fields, rfl, hnd⟩
  refine ⟨?_, field?_modify_of_ne hne _ rest change⟩
  cases hchild : (Json.obj fields).child? field with
  | none =>
    rw [modify_of_child?_eq_none hchild]
    exact ⟨fields, rfl, hnd⟩
  | some inner =>
    rw [modify_obj hchild]
    exact ⟨_, rfl, Members.nodup_insert hnd field _⟩

theorem framed_dropChild (hne : field ≠ key) (v : Json) : v.Framed key (v.dropChild field) := by
  rintro ⟨fields, rfl, hnd⟩
  refine ⟨⟨_, rfl, Members.nodup_erase hnd field⟩, ?_⟩
  show Members.get? (Members.erase fields field) key = Members.get? fields key
  rw [Members.get?_erase hnd, if_neg hne]

theorem framed_unset (hne : field ≠ key) (v : Json) (rest : FieldPath) :
    v.Framed key (v.unset (field :: rest)).1 := by
  rw [unset_eq]
  cases v.get? (field :: rest) with
  | none => exact framed_refl v
  | some old =>
    cases rest with
    | nil => exact framed_dropChild hne v
    | cons next below =>
      rw [List.getLast?_cons_cons, List.getLast?_cons]
      exact framed_modify hne v _ _

end Json

/-! ## Operators and updates -/

variable {key field : String}

theorem Operator.framed_onArray (hne : field ≠ key) (operator : String) (doc : Json)
    (rest : FieldPath) (change : List Json → List Json) :
    doc.Framed key (onArray operator doc (field :: rest) change).1 := by
  unfold onArray
  split
  · exact Json.framed_refl doc
  · exact Json.framed_modify hne doc rest _
  · exact Json.framed_refl doc

/-- An operator that avoids a member keeps it. -/
theorem Operator.framed_apply {op : Operator} (h : op.path.Avoids key) (doc : Json) :
    doc.Framed key (op.apply doc).1 := by
  obtain ⟨field, rest, hpath, hne⟩ := h.exists_cons
  cases op with
  | set path value =>
    obtain rfl : path = field :: rest := hpath
    exact Json.framed_set hne doc rest value
  | unset path =>
    obtain rfl : path = field :: rest := hpath
    exact Json.framed_unset hne doc rest
  | pull path selector =>
    obtain rfl : path = field :: rest := hpath
    exact framed_onArray hne _ doc rest _
  | push path values position =>
    obtain rfl : path = field :: rest := hpath
    rw [apply]
    by_cases hthere : (doc.get? (field :: rest)).isSome = true
    · rw [if_pos hthere]
      exact framed_onArray hne _ doc rest _
    · -- the array is made first
      have hmade := Json.framed_set hne doc rest (.arr [])
      rw [if_neg hthere]
      cases hset : doc.set (field :: rest) (.arr []) with
      | mk made error =>
        rw [hset] at hmade
        cases error with
        | some e => exact hmade
        | none => exact hmade.trans (framed_onArray hne _ made rest _)

/-- An update that avoids a member keeps it. -/
theorem Update.framed_run {u : Update} (h : u.Avoids key) {doc new : Json}
    (hrun : u.run doc = .ok new) : doc.Framed key new := by
  induction u generalizing doc with
  | nil =>
    rw [← Except.ok.inj hrun]
    exact Json.framed_refl doc
  | cons op rest ih =>
    obtain ⟨mid, hop, hrest⟩ := (run_cons_ok_iff op rest doc new).mp hrun
    have hmid := Operator.framed_apply (h op List.mem_cons_self) doc
    rw [hop] at hmid
    exact hmid.trans (ih (fun op' hop' => h op' (List.mem_cons_of_mem op hop')) hrest)

/-- So does its attributed form, unless the member is that of the entries. -/
theorem Update.field?_of_run_attributed {u : Update} (h : u.Avoids key)
    (hkey : key ≠ Document.metaField) {author : Option Provenance} {doc new : Json}
    (hdoc : doc.DistinctObject) (hrun : run (u.attributed author) doc = .ok new) :
    new.field? key = doc.field? key := by
  obtain ⟨plain, hplain, hfields⟩ := exists_run_of_attributed hrun
  rw [hfields key hkey, (framed_run h hplain hdoc).2]

end DocWatch
