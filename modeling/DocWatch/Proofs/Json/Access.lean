import DocWatch.Json.Access
import DocWatch.Proofs.Members

/-!
# Laws of access at paths

- `Json.set_obj`, `Json.set_arr`, `Json.set_arr_cases`, `Json.modify_obj`, `Json.modify_arr`: one
  step of a write and of a change.
- `Json.get?_set`, `Json.get?_of_set`: what was written is read.
- `Json.get?_modify`, `Json.modify_modify`, `Json.set_append`, `Json.get?_set_append`: a write below
  a place is a change of the value at that place.
- `Json.set_again`: where a write succeeded, any other write succeeds afterwards.
- `Json.unset_concat`, `Json.unset_eq`: a removal by its container, and by what it removes.
- `Json.field?_set_of_ne`, `Json.field?_modify_of_ne`: other members stay.
-/

namespace DocWatch.Json

/-! ## Steps of access -/

theorem get?_cons (v : Json) (segment : String) (rest : FieldPath) :
    v.get? (segment :: rest) = (v.child? segment).bind (·.get? rest) := rfl

theorem set_obj (fields : Members Json) (segment : String) (rest : FieldPath) (value : Json) :
    (obj fields).set (segment :: rest) value =
      (.obj (Members.insert fields segment
          (((Members.get? fields segment).getD (.obj [])).set rest value).1),
        (((Members.get? fields segment).getD (.obj [])).set rest value).2) := rfl

theorem set_arr {items items' : List Json} {segment : String} {i : Nat}
    (hindex : FieldPath.index? segment = some i) (hpad : pad items i segment = .ok items')
    (rest : FieldPath) (value : Json) :
    (arr items).set (segment :: rest) value =
      (.arr (items'.set i ((openSlot ((items'[i]?).getD .null)).set rest value).1),
        ((openSlot ((items'[i]?).getD .null)).set rest value).2) := by
  rw [set]
  simp only [hindex, hpad]

/-- A write into an array fails and leaves it as it is, or has a slot to go to. -/
theorem set_arr_cases (items : List Json) (segment : String) (rest : FieldPath) (value : Json) :
    (∃ e, (arr items).set (segment :: rest) value = (arr items, some e)) ∨
      ∃ i items', FieldPath.index? segment = some i ∧ pad items i segment = .ok items' := by
  rw [set]
  cases hindex : FieldPath.index? segment with
  | none => exact .inl ⟨_, rfl⟩
  | some i =>
    cases hpad : pad items i segment with
    | error e => exact .inl ⟨e, by simp only [hpad]⟩
    | ok items' => exact .inr ⟨i, items', rfl, hpad⟩

theorem modify_obj {fields : Members Json} {segment : String} {inner : Json}
    (hget : Members.get? fields segment = some inner) (rest : FieldPath) (change : Json → Json) :
    (obj fields).modify (segment :: rest) change =
      .obj (Members.insert fields segment (inner.modify rest change)) := by
  rw [modify]
  simp only [hget]

theorem modify_arr {items : List Json} {segment : String} {i : Nat} {inner : Json}
    (hindex : FieldPath.index? segment = some i) (hitem : items[i]? = some inner)
    (rest : FieldPath) (change : Json → Json) :
    (arr items).modify (segment :: rest) change =
      .arr (items.set i (inner.modify rest change)) := by
  rw [modify]
  simp only [hindex, hitem]

/-- A change below what is not there changes nothing. -/
theorem modify_of_child?_eq_none {v : Json} {segment : String} (h : v.child? segment = none)
    (rest : FieldPath) (change : Json → Json) : v.modify (segment :: rest) change = v := by
  cases v with
  | obj fields =>
    have hget : Members.get? fields segment = none := h
    simp only [modify, hget]
  | arr items =>
    cases hindex : FieldPath.index? segment with
    | none => simp only [modify, hindex]
    | some i =>
      have hitem : items[i]? = none := by rwa [child?, hindex, Option.bind_some] at h
      simp only [modify, hindex, hitem]
  | _ => rfl

theorem pad_of_lt {items : List Json} {i : Nat} (h : i < items.length) (segment : String) :
    pad items i segment = .ok items := by
  rw [pad, if_pos h]

/-- An array takes a write less than `maxPadding` slots beyond its end, and gets as many nulls as
there are slots missing. -/
theorem pad_eq_ok_iff {items items' : List Json} {i : Nat} {segment : String} :
    pad items i segment = .ok items' ↔ i < items.length + maxPadding ∧
      items' = items ++ List.replicate (i + 1 - items.length) .null := by
  have hpositive : 0 < maxPadding := by decide
  unfold pad
  by_cases hlt : i < items.length
  · rw [if_pos hlt, Nat.sub_eq_zero_of_le hlt, List.replicate_zero, List.append_nil,
      Except.ok.injEq]
    exact ⟨fun h => ⟨by omega, h.symm⟩, fun h => h.2.symm⟩
  · rw [if_neg hlt]
    by_cases hnear : i - items.length < maxPadding
    · rw [if_pos hnear, Except.ok.injEq]
      exact ⟨fun h => ⟨by omega, h.symm⟩, fun h => h.2.symm⟩
    · rw [if_neg hnear]
      exact iff_of_false (fun h => nomatch h) (fun h => by omega)

theorem length_of_pad {items items' : List Json} {i : Nat} {segment : String}
    (h : pad items i segment = .ok items') : items'.length = max items.length (i + 1) := by
  rw [(pad_eq_ok_iff.mp h).2, List.length_append, List.length_replicate]
  omega

/-- An array that was grown has the slot that it was grown for. -/
theorem lt_of_pad {items items' : List Json} {i : Nat} {segment : String}
    (h : pad items i segment = .ok items') : i < items'.length := by
  rw [length_of_pad h]
  omega

/-- The slots that were there are still there. -/
theorem getElem?_of_pad {items items' : List Json} {i j : Nat} {segment : String} {v : Json}
    (h : pad items i segment = .ok items') (hitem : items[j]? = some v) :
    items'[j]? = some v := by
  rw [(pad_eq_ok_iff.mp h).2, List.getElem?_append_left (List.getElem?_eq_some_iff.mp hitem).1]
  exact hitem

/-- What a write finds in a slot does not depend on whether the slot had to be made. -/
theorem getD_of_pad {items items' : List Json} {i : Nat} {segment : String}
    (h : pad items i segment = .ok items') (j : Nat) :
    (items'[j]?).getD .null = (items[j]?).getD .null := by
  rw [(pad_eq_ok_iff.mp h).2, List.getElem?_append]
  by_cases hlt : j < items.length
  · rw [if_pos hlt]
  · rw [if_neg hlt, List.getElem?_eq_none (by omega : items.length ≤ j), List.getElem?_replicate]
    split <;> rfl

theorem openSlot_of_ne_null {v : Json} (h : v ≠ .null) : openSlot v = v := by
  cases v with
  | null => exact absurd rfl h
  | _ => rfl

/-- A write below a value that succeeds leaves a container. -/
theorem set_cons_ne_null {v value : Json} {segment : String} {rest : FieldPath}
    (h : (v.set (segment :: rest) value).2 = none) :
    (v.set (segment :: rest) value).1 ≠ .null := by
  cases v with
  | obj fields =>
    rw [set_obj]
    exact Json.noConfusion
  | arr items =>
    rcases set_arr_cases items segment rest value with ⟨e, he⟩ | ⟨i, items', hindex, hpad⟩
    · rw [he] at h
      cases h
    · rw [set_arr hindex hpad]
      exact Json.noConfusion
  | _ => cases h

/-! ## Writing once more -/

/-- Where a write succeeded, any other write succeeds afterwards. -/
theorem set_again {v value : Json} {path : FieldPath} (h : (v.set path value).2 = none)
    (value' : Json) : ((v.set path value).1.set path value').2 = none := by
  induction path generalizing v with
  | nil => rfl
  | cons segment rest ih =>
    cases v with
    | obj fields =>
      rw [set_obj] at h ⊢
      rw [set_obj, Members.get?_insert, if_pos rfl, Option.getD_some]
      exact ih h
    | arr items =>
      rcases set_arr_cases items segment rest value with ⟨e, he⟩ | ⟨i, items', hindex, hpad⟩
      · rw [he] at h
        cases h
      · rw [set_arr hindex hpad] at h ⊢
        -- the slot is there now, so that nothing is padded the second time
        have hlt := lt_of_pad hpad
        have hlt' : i < (items'.set i ((openSlot ((items'[i]?).getD .null)).set rest
            value).1).length := by
          rw [List.length_set]
          exact hlt
        rw [set_arr hindex (pad_of_lt hlt' segment), List.getElem?_set_self hlt,
          Option.getD_some]
        cases rest with
        | nil => rfl
        | cons segment' rest' =>
          -- a slot with something below it is not opened again
          rw [openSlot_of_ne_null (set_cons_ne_null h)]
          exact ih h
    | _ => cases h

/-! ## Reading after writing -/

/-- A write that succeeds is read at its path. -/
theorem get?_set {v value : Json} {path : FieldPath} (h : (v.set path value).2 = none) :
    (v.set path value).1.get? path = some value := by
  induction path generalizing v with
  | nil => rfl
  | cons segment rest ih =>
    cases v with
    | obj fields =>
      rw [set_obj] at h ⊢
      rw [get?_cons, child?, Members.get?_insert, if_pos rfl, Option.bind_some]
      exact ih h
    | arr items =>
      rcases set_arr_cases items segment rest value with ⟨e, he⟩ | ⟨i, items', hindex, hpad⟩
      · rw [he] at h
        cases h
      · rw [set_arr hindex hpad] at h ⊢
        rw [get?_cons, child?, hindex, Option.bind_some, List.getElem?_set_self (lt_of_pad hpad),
          Option.bind_some]
        exact ih h
    | _ => cases h

theorem get?_of_set {v w value : Json} {path : FieldPath} (h : v.set path value = (w, none)) :
    w.get? path = some value := by
  obtain rfl : (v.set path value).1 = w := congrArg Prod.fst h
  exact get?_set (congrArg Prod.snd h)

theorem get?_append (v : Json) (path below : FieldPath) :
    v.get? (path ++ below) = (v.get? path).bind (·.get? below) := by
  induction path generalizing v with
  | nil => rfl
  | cons segment rest ih =>
    rw [List.cons_append, get?_cons, get?_cons, Option.bind_assoc]
    exact congrArg _ (funext ih)

theorem ne_null_of_get? {v w : Json} {path : FieldPath} (h : v.get? path = some w)
    (hw : w ≠ .null) : v ≠ .null := by
  rintro rfl
  cases path with
  | nil => exact hw (Option.some.inj h).symm
  | cons segment rest => cases h

/-- A change of the value at a place changes just that. -/
theorem get?_modify {v w : Json} {path : FieldPath} (h : v.get? path = some w)
    (change : Json → Json) : (v.modify path change).get? path = some (change w) := by
  induction path generalizing v with
  | nil =>
    obtain rfl := Option.some.inj h
    rfl
  | cons segment rest ih =>
    rw [get?_cons, Option.bind_eq_some_iff] at h
    obtain ⟨inner, hchild, hinner⟩ := h
    cases v with
    | obj fields =>
      have hget : Members.get? fields segment = some inner := hchild
      rw [modify_obj hget, get?_cons, child?, Members.get?_insert, if_pos rfl, Option.bind_some]
      exact ih hinner
    | arr items =>
      obtain ⟨i, hindex, hitem⟩ := Option.bind_eq_some_iff.mp hchild
      obtain ⟨hlt, -⟩ := List.getElem?_eq_some_iff.mp hitem
      rw [modify_arr hindex hitem, get?_cons, child?, hindex, Option.bind_some,
        List.getElem?_set_self hlt, Option.bind_some]
      exact ih hinner
    | _ => cases hchild

/-- Two changes of the value at a place are one. -/
theorem modify_modify (v : Json) (path : FieldPath) (change change' : Json → Json) :
    (v.modify path change).modify path change' = v.modify path fun w => change' (change w) := by
  induction path generalizing v with
  | nil => rfl
  | cons segment rest ih =>
    cases hchild : v.child? segment with
    | none =>
      rw [modify_of_child?_eq_none hchild, modify_of_child?_eq_none hchild,
        modify_of_child?_eq_none hchild]
    | some inner =>
      cases v with
      | obj fields =>
        have hget : Members.get? fields segment = some inner := hchild
        have hagain := (Members.get?_insert fields segment segment (inner.modify rest change)).trans
          (if_pos rfl)
        rw [modify_obj hget, modify_obj hget, modify_obj hagain, Members.insert_insert, ih]
      | arr items =>
        obtain ⟨i, hindex, hitem⟩ := Option.bind_eq_some_iff.mp hchild
        obtain ⟨hlt, -⟩ := List.getElem?_eq_some_iff.mp hitem
        rw [modify_arr hindex hitem, modify_arr hindex hitem,
          modify_arr hindex (List.getElem?_set_self hlt), List.set_set, ih]
      | _ => cases hchild

/-- A write below a place is a change of the value at that place. -/
theorem set_append {v w : Json} {path : FieldPath} (h : v.get? path = some w) (hw : w ≠ .null)
    (below : FieldPath) (value : Json) :
    v.set (path ++ below) value =
      (v.modify path fun _ => (w.set below value).1, (w.set below value).2) := by
  induction path generalizing v with
  | nil =>
    obtain rfl := Option.some.inj h
    rfl
  | cons segment rest ih =>
    rw [get?_cons, Option.bind_eq_some_iff] at h
    obtain ⟨inner, hchild, hinner⟩ := h
    cases v with
    | obj fields =>
      have hget : Members.get? fields segment = some inner := hchild
      rw [List.cons_append, set_obj, hget, Option.getD_some, ih hinner, modify_obj hget]
    | arr items =>
      obtain ⟨i, hindex, hitem⟩ := Option.bind_eq_some_iff.mp hchild
      obtain ⟨hlt, -⟩ := List.getElem?_eq_some_iff.mp hitem
      -- the slot is there, and what is in it is not opened
      rw [List.cons_append, set_arr hindex (pad_of_lt hlt segment), hitem, Option.getD_some,
        openSlot_of_ne_null (ne_null_of_get? hinner hw), ih hinner, modify_arr hindex hitem]
    | _ => cases hchild

/-- A write below a place changes the value at that place. -/
theorem get?_set_append {v w : Json} {path : FieldPath} (h : v.get? path = some w)
    (hw : w ≠ .null) (below : FieldPath) (value : Json) :
    (v.set (path ++ below) value).1.get? path = some (w.set below value).1 := by
  rw [set_append h hw]
  exact get?_modify h _

/-- A write into a slot of an array writes into this slot. -/
theorem set_slot {v : Json} {path : FieldPath} {items : List Json}
    (h : v.get? path = some (.arr items)) {slot : String} {i : Nat}
    (hindex : FieldPath.index? slot = some i) (hlt : i < items.length) (value : Json) :
    v.set (path ++ [slot]) value = (v.modify path fun _ => .arr (items.set i value), none) := by
  rw [set_append h Json.noConfusion, set_arr hindex (pad_of_lt hlt slot)]
  rfl

/-- A write into an array leaves an array. -/
theorem exists_set_arr (items : List Json) (segment : String) (value : Json) :
    ∃ items', ((arr items).set [segment] value).1 = .arr items' := by
  rcases set_arr_cases items segment [] value with ⟨e, he⟩ | ⟨i, items', hindex, hpad⟩
  · exact ⟨items, congrArg Prod.fst he⟩
  · rw [set_arr hindex hpad]
    exact ⟨_, rfl⟩

/-! ## Removing -/

/-- A change that leaves the value at a place as it is leaves everything as it is. -/
theorem modify_of_fixed {v w : Json} {path : FieldPath} {change : Json → Json}
    (h : v.get? path = some w) (hfixed : change w = w) : v.modify path change = v := by
  induction path generalizing v with
  | nil =>
    obtain rfl := Option.some.inj h
    exact hfixed
  | cons segment rest ih =>
    rw [get?_cons, Option.bind_eq_some_iff] at h
    obtain ⟨inner, hchild, hinner⟩ := h
    cases v with
    | obj fields =>
      have hget : Members.get? fields segment = some inner := hchild
      rw [modify_obj hget, ih hinner, Members.insert_of_get? hget]
    | arr items =>
      obtain ⟨i, hindex, hitem⟩ := Option.bind_eq_some_iff.mp hchild
      obtain ⟨hlt, rfl⟩ := List.getElem?_eq_some_iff.mp hitem
      rw [modify_arr hindex hitem, ih hinner, List.set_getElem_self]
    | _ => cases hchild

/-- What is not there cannot be taken out. -/
theorem dropChild_of_child?_eq_none {v : Json} {segment : String} (h : v.child? segment = none) :
    v.dropChild segment = v := by
  cases v with
  | obj fields =>
    rw [dropChild, Members.erase_of_not_mem ((Members.get?_eq_none_iff fields segment).mp h)]
  | arr items =>
    cases hindex : FieldPath.index? segment with
    | none => simp only [dropChild, hindex]
    | some i =>
      have hend : items.length ≤ i := by
        rwa [child?, hindex, Option.bind_some, List.getElem?_eq_none_iff] at h
      simp only [dropChild, hindex, List.set_eq_of_length_le hend]
  | _ => rfl

theorem get?_concat (v : Json) (parent : FieldPath) (segment : String) :
    v.get? (parent ++ [segment]) = (v.get? parent).bind (·.child? segment) := by
  rw [get?_append]
  exact congrArg _ (funext fun w => Option.bind_fun_some (w.child? segment))

/-- A removal takes the last segment out of the container that the others lead to. -/
theorem unset_concat {v w : Json} {parent : FieldPath} (h : v.get? parent = some w)
    (segment : String) :
    v.unset (parent ++ [segment]) = (v.modify parent (·.dropChild segment), w.child? segment) := by
  unfold unset
  simp only [List.getLast?_concat, List.dropLast_concat, h]

/-- A removal takes out what the path reaches, and does nothing if that is nothing. -/
theorem unset_eq (v : Json) (path : FieldPath) :
    v.unset path = match v.get? path with
      | none => (v, none)
      | some old =>
        match path.getLast? with
        | none => (.null, some old)
        | some segment => (v.modify path.dropLast (·.dropChild segment), some old) := by
  rcases List.eq_nil_or_concat path with rfl | ⟨parent, segment, rfl⟩
  · rfl
  · rw [List.concat_eq_append, get?_concat]
    cases hw : v.get? parent with
    | none => simp only [unset, List.getLast?_concat, List.dropLast_concat, hw, Option.bind_none]
    | some w =>
      rw [unset_concat hw, Option.bind_some]
      cases hchild : w.child? segment with
      | none => rw [modify_of_fixed hw (dropChild_of_child?_eq_none hchild)]
      | some old => simp only [List.getLast?_concat, List.dropLast_concat]

/-- Where the path reaches nothing, nothing is removed. -/
theorem unset_of_get?_eq_none {v : Json} {path : FieldPath} (h : v.get? path = none) :
    v.unset path = (v, none) := by
  rw [unset_eq, h]

/-- What is removed is what the path reached. -/
theorem unset_snd (v : Json) (path : FieldPath) : (v.unset path).2 = v.get? path := by
  rw [unset_eq]
  cases v.get? path with
  | none => rfl
  | some old => cases path.getLast? <;> rfl

/-! ## Other members -/

theorem field?_set_of_ne {field key : String} (hne : field ≠ key) (v : Json) (rest : FieldPath)
    (value : Json) : (v.set (field :: rest) value).1.field? key = v.field? key := by
  cases v with
  | obj fields =>
    rw [set_obj, field?, Members.get?_insert, if_neg hne]
    rfl
  | arr items =>
    rcases set_arr_cases items field rest value with ⟨e, he⟩ | ⟨i, items', hindex, hpad⟩
    · rw [he]
    · rw [set_arr hindex hpad]
      rfl
  | _ => rfl

theorem field?_modify_of_ne {field key : String} (hne : field ≠ key) (v : Json) (rest : FieldPath)
    (change : Json → Json) : (v.modify (field :: rest) change).field? key = v.field? key := by
  cases hchild : v.child? field with
  | none => rw [modify_of_child?_eq_none hchild]
  | some inner =>
    cases v with
    | obj fields =>
      rw [modify_obj hchild, field?, Members.get?_insert, if_neg hne]
      rfl
    | arr items =>
      obtain ⟨i, hindex, hitem⟩ := Option.bind_eq_some_iff.mp hchild
      rw [modify_arr hindex hitem]
      rfl
    | _ => cases hchild

/-- A change below a member is a change of the value of that member. -/
theorem field?_modify (v : Json) (field : String) (rest : FieldPath) (change : Json → Json) :
    (v.modify (field :: rest) change).field? field =
      (v.field? field).map (·.modify rest change) := by
  cases v with
  | obj fields =>
    cases hget : Members.get? fields field with
    | none =>
      have hchild : (obj fields).child? field = none := hget
      rw [modify_of_child?_eq_none hchild, field?, hget]
      rfl
    | some inner =>
      rw [modify_obj hget, field?, field?, hget, Members.get?_insert, if_pos rfl]
      rfl
  | arr items =>
    cases hchild : (arr items).child? field with
    | none =>
      rw [modify_of_child?_eq_none hchild]
      rfl
    | some inner =>
      obtain ⟨i, hindex, hitem⟩ := Option.bind_eq_some_iff.mp hchild
      rw [modify_arr hindex hitem]
      rfl
  | _ => rfl

/-- What a path reaches depends only on the member that it starts with. -/
theorem get?_of_field?_eq {v w : Json} {field : String} (hv : v.isObject = true)
    (hw : w.isObject = true) (h : v.field? field = w.field? field) (rest : FieldPath) :
    v.get? (field :: rest) = w.get? (field :: rest) := by
  cases v with
  | obj fields =>
    cases w with
    | obj fields' =>
      rw [get?_cons, get?_cons]
      exact congrArg (Option.bind · (·.get? rest)) h
    | _ => cases hw
  | _ => cases hv

/-- Whether a write below a member succeeds depends only on that member. -/
theorem set_of_field?_eq {v w : Json} {field : String} (hv : v.isObject = true)
    (hw : w.isObject = true) (h : v.field? field = w.field? field) (rest : FieldPath)
    (value : Json) : (v.set (field :: rest) value).2 = (w.set (field :: rest) value).2 := by
  cases v with
  | obj fields =>
    cases w with
    | obj fields' =>
      have hget : Members.get? fields field = Members.get? fields' field := h
      rw [set_obj, set_obj, hget]
    | _ => cases hw
  | _ => cases hv

end DocWatch.Json
