import DocWatch.Proofs.Json.Alike
import DocWatch.Proofs.Json.Words

/-!
# Beside a path

Two paths part in a value if they lead through the same members and slots to some container, and
from there to different ones: in an object under different keys, in an array by segments of which
not both name one slot. Whatever is done along the first path, the second one reaches what it
reached before. A write that fails changes something as well, but only on its own way, where it has
made containers. A removal moves another member of the object, but not what its key leads to.

- `Json.Departs`: the second path parts from the first.
- `Json.get?_set_of_departs`, `Json.get?_modify_of_departs`: what stays beside a write or a change.
- `Json.Padded`: an array after a write into it.
- `Json.set_touches_only_its_path`: the laws of writing.
- `Json.get?_unset_of_get?`, `Json.unset_unset`: what a removal leaves at its path.
- `Json.unset_touches_only_its_path`: the laws of removing.
-/

namespace DocWatch.Json

/-- The second path parts from the first on their way through a value. -/
inductive Departs : Json → FieldPath → FieldPath → Prop
  /-- In an object, there are two keys. -/
  | key {fields : Members Json} {s t : String} (p q : FieldPath) :
      s ≠ t → Departs (.obj fields) (s :: p) (t :: q)
  /-- In an array, there is no slot that both segments name. -/
  | slot {items : List Json} {s t : String} (p q : FieldPath) :
      (∀ i, FieldPath.index? s = some i → FieldPath.index? t ≠ some i) →
      Departs (.arr items) (s :: p) (t :: q)
  /-- Below a member. -/
  | member {fields : Members Json} {s : String} {v : Json} {p q : FieldPath} :
      Members.get? fields s = some v → Departs v p q → Departs (.obj fields) (s :: p) (s :: q)
  /-- Below a slot, however it is spelled. -/
  | element {items : List Json} {s t : String} {i : Nat} {v : Json} {p q : FieldPath} :
      FieldPath.index? s = some i → FieldPath.index? t = some i → items[i]? = some v →
      Departs v p q → Departs (.arr items) (s :: p) (t :: q)

/-- Only in a container can paths part. -/
theorem Departs.ne_null {v : Json} {p q : FieldPath} (h : Departs v p q) : v ≠ .null := by
  rintro rfl
  cases h

/-! ## Steps -/

theorem get?_obj_cons (fields : Members Json) (s : String) (p : FieldPath) :
    (obj fields).get? (s :: p) = (Members.get? fields s).bind (·.get? p) := rfl

theorem get?_arr_cons {items : List Json} {s : String} {i : Nat}
    (hindex : FieldPath.index? s = some i) (p : FieldPath) :
    (arr items).get? (s :: p) = (items[i]?).bind (·.get? p) := by
  rw [get?, child?, hindex, Option.bind_some]

/-- A slot of an array is none of those that another segment names. -/
theorem get?_arr_set_of_apart {items : List Json} {s t : String} {i : Nat}
    (hapart : ∀ i, FieldPath.index? s = some i → FieldPath.index? t ≠ some i)
    (hindex : FieldPath.index? s = some i) (v : Json) (q : FieldPath) :
    (arr (items.set i v)).get? (t :: q) = (arr items).get? (t :: q) := by
  rw [get?, get?, child?, child?]
  cases hother : FieldPath.index? t with
  | none => rfl
  | some j =>
    have hne : i ≠ j := fun he => hapart i hindex (he ▸ hother)
    rw [Option.bind_some, Option.bind_some, List.getElem?_set_ne hne]

/-! ## Beside a write -/

/-- Whether a write succeeds or fails, what a path that parts from it reaches stays. -/
theorem get?_set_of_departs {v w : Json} {p q : FieldPath} (h : Departs v p q)
    (hget : v.get? q = some w) (value : Json) : (v.set p value).1.get? q = some w := by
  induction h with
  | key p q hne =>
    rw [set_obj, get?_obj_cons, Members.get?_insert, if_neg hne]
    exact hget
  | @slot items s t p q hapart =>
    rcases set_arr_cases items s p value with ⟨e, he⟩ | ⟨i, items', hindex, hpad⟩
    · rw [he]
      exact hget
    · rw [set_arr hindex hpad, get?_arr_set_of_apart hapart hindex]
      obtain ⟨inner, hchild, hinner⟩ := Option.bind_eq_some_iff.mp hget
      obtain ⟨j, hother, hitem⟩ := Option.bind_eq_some_iff.mp hchild
      rw [get?_arr_cons hother, getElem?_of_pad hpad hitem]
      exact hinner
  | member hfield _ ih =>
    rw [get?_obj_cons, hfield] at hget
    rw [set_obj, hfield, get?_obj_cons, Members.get?_insert, if_pos rfl]
    exact ih hget
  | @element items s t i inner p q hindex hother hitem hbelow ih =>
    -- the slot is there, and what is in it is no null that would be opened
    obtain ⟨hlt, -⟩ := List.getElem?_eq_some_iff.mp hitem
    rw [get?_arr_cons hother, hitem] at hget
    rw [set_arr hindex (pad_of_lt hlt s), get?_arr_cons hother, List.getElem?_set_self hlt, hitem,
      Option.getD_some, openSlot_of_ne_null hbelow.ne_null]
    exact ih hget

/-- An array after a write into the slot that a segment names, if it does. -/
structure Padded (segment : String) (items items' : List Json) : Prop where
  /-- All slots are kept. -/
  le : items.length ≤ items'.length
  /-- Only so many come to them. -/
  bounded : items'.length ≤ items.length + maxPadding
  /-- The slots beside the one that is named have the elements that they had. -/
  kept : ∀ j v, items[j]? = some v → FieldPath.index? segment ≠ some j → items'[j]? = some v
  /-- Those that came to them are null. -/
  fresh : ∀ j v, items.length ≤ j → items'[j]? = some v → FieldPath.index? segment ≠ some j →
    v = .null

theorem padded_refl (segment : String) (items : List Json) : Padded segment items items where
  le := Nat.le_refl _
  bounded := Nat.le_add_right _ _
  kept := fun _ _ hitem _ => hitem
  fresh := fun j v hend hitem _ => by
    rw [List.getElem?_eq_none hend] at hitem
    cases hitem

theorem padded_of_pad {items items' : List Json} {i : Nat} {segment : String}
    (hindex : FieldPath.index? segment = some i) (h : pad items i segment = .ok items')
    (v : Json) : Padded segment items (items'.set i v) := by
  obtain ⟨hnear, hitems'⟩ := pad_eq_ok_iff.mp h
  have hlength := length_of_pad h
  have hother : ∀ j, FieldPath.index? segment ≠ some j → (items'.set i v)[j]? = items'[j]? :=
    fun j hj => List.getElem?_set_ne fun he : i = j => hj (he ▸ hindex)
  constructor
  · rw [List.length_set]
    omega
  · rw [List.length_set]
    omega
  · intro j w hitem hj
    rw [hother j hj]
    exact getElem?_of_pad h hitem
  · intro j w hend hitem hj
    rw [hother j hj] at hitem
    have hslot := getD_of_pad h j
    rwa [hitem, List.getElem?_eq_none hend] at hslot

/-- A write into an array, or below it, grows it. -/
theorem exists_padded_of_set (items : List Json) (segment : String) (rest : FieldPath)
    (value : Json) : ∃ items', ((arr items).set (segment :: rest) value).1 = .arr items' ∧
      Padded segment items items' := by
  rcases set_arr_cases items segment rest value with ⟨e, he⟩ | ⟨i, items', hindex, hpad⟩
  · exact ⟨items, congrArg Prod.fst he, padded_refl segment items⟩
  · rw [set_arr hindex hpad]
    exact ⟨_, rfl, padded_of_pad hindex hpad _⟩

/-- **The laws of writing.** A write that succeeds is read at its path. Whether it succeeds or
fails, a path that parts from it reaches what it reached before, and an array on the way keeps its
slots and gets at most `maxPadding` new ones. Counting slots never leaves the 64 bits. -/
theorem set_touches_only_its_path (d : Json) (path : FieldPath) (value : Json) :
    ((d.set path value).2 = none → (d.set path value).1.get? path = some value) ∧
    (∀ q x, Departs d path q → d.get? q = some x → (d.set path value).1.get? q = some x) ∧
    (∀ parent segment below items, path = parent ++ segment :: below →
      d.get? parent = some (.arr items) →
      ∃ items', (d.set path value).1.get? parent = some (.arr items') ∧
        Padded segment items items') ∧
    (d.FitsMemory path → d.setWords path value = some (d.set path value)) := by
  refine ⟨get?_set, fun q x h hget => get?_set_of_departs h hget value, ?_,
    fun h => setWords_eq h value⟩
  rintro parent segment below items rfl harray
  obtain ⟨items', hset, hpadded⟩ := exists_padded_of_set items segment below value
  refine ⟨items', ?_, hpadded⟩
  rw [get?_set_append harray Json.noConfusion, hset]

/-- An array with a null and an object. -/
def rows : Json := .obj [("rows", .arr [.null, .obj [("k", .nat 1)]])]

/-- A write beyond the end grows the array and makes an object there. A write into the last slot
that 64 bits can name fails. Neither touches the object in the slot that `01` names. -/
theorem set_beyond_end :
    (rows.set ["rows", "3", "x"] .null).1.get? ["rows", "3", "x"] = some .null ∧
    (rows.set ["rows", "3", "x"] .null).1.get? ["rows", "01", "k"] = some (.nat 1) ∧
    (∃ items, (rows.set ["rows", "3", "x"] .null).1.get? ["rows"] = some (.arr items) ∧
      Padded "3" [.null, .obj [("k", .nat 1)]] items) ∧
    (rows.set ["rows", "18446744073709551615"] .null).2 =
      some (.outOfRange "18446744073709551615" 18446744073709551615 2) ∧
    rows.setWords ["rows", "18446744073709551615"] .null =
      some (rows.set ["rows", "18446744073709551615"] .null) := by
  have hbeside : Departs rows ["rows", "3", "x"] ["rows", "01", "k"] :=
    .member rfl (.slot _ _ (by decide +kernel))
  have hfits : rows.FitsMemory ["rows", "18446744073709551615"] := by
    rintro (_ | ⟨field, _ | ⟨slot, parent⟩⟩) segment below items hpath harray
    · cases harray
    · obtain ⟨rfl, -⟩ := List.cons.inj hpath
      cases harray
      decide
    · simp at hpath
  obtain ⟨hread, hkept, hgrown, -⟩ := set_touches_only_its_path rows ["rows", "3", "x"] .null
  obtain ⟨-, -, -, hwords⟩ := set_touches_only_its_path rows ["rows", "18446744073709551615"] .null
  exact ⟨hread (by decide +kernel), hkept _ _ hbeside (by decide +kernel),
    hgrown ["rows"] "3" ["x"] _ rfl rfl, by decide +kernel, hwords hfits⟩

/-! ## Beside a removal -/

/-- What parts from a path stays if the change at its end, or further up, keeps it. -/
theorem get?_modify_of_departs {v : Json} {path below q : FieldPath} {change : Json → Json}
    (h : Departs v (path ++ below) q)
    (hchange : ∀ w q, v.get? path = some w → Departs w below q → (change w).get? q = w.get? q) :
    (v.modify path change).get? q = v.get? q := by
  induction path generalizing v q with
  | nil => exact hchange v q rfl h
  | cons s rest ih =>
    rw [List.cons_append] at h
    cases h with
    | @key fields _ t _ q hne =>
      cases hchild : (obj fields).child? s with
      | none => rw [modify_of_child?_eq_none hchild]
      | some inner =>
        rw [modify_obj hchild, get?_obj_cons, get?_obj_cons, Members.get?_insert, if_neg hne]
    | @slot items _ t _ q hapart =>
      cases hchild : (arr items).child? s with
      | none => rw [modify_of_child?_eq_none hchild]
      | some inner =>
        obtain ⟨i, hindex, hitem⟩ := Option.bind_eq_some_iff.mp hchild
        rw [modify_arr hindex hitem]
        exact get?_arr_set_of_apart hapart hindex _ q
    | @member fields _ inner _ q hfield hbelow =>
      have hinner := ih hbelow fun w q hget => hchange w q <| by
        rw [get?_obj_cons, hfield]
        exact hget
      rw [modify_obj hfield, get?_obj_cons, get?_obj_cons, Members.get?_insert, if_pos rfl, hfield]
      exact hinner
    | @element items _ t i inner _ q hindex hother hitem hbelow =>
      obtain ⟨hlt, -⟩ := List.getElem?_eq_some_iff.mp hitem
      have hinner := ih hbelow fun w q hget => hchange w q <| by
        rw [get?_arr_cons hindex, hitem]
        exact hget
      rw [modify_arr hindex hitem, get?_arr_cons hother, get?_arr_cons hother,
        List.getElem?_set_self hlt, hitem]
      exact hinner

/-- Taking out a child keeps what the other ones lead to. -/
theorem get?_dropChild_of_departs {v : Json} (hv : v.KeysDistinct) {s : String} {q : FieldPath}
    (h : Departs v [s] q) : (v.dropChild s).get? q = v.get? q := by
  cases h with
  | @key fields _ t _ q hne =>
    rw [dropChild, get?_obj_cons, get?_obj_cons, Members.get?_erase hv.1, if_neg hne]
  | @slot items _ t _ q hapart =>
    rw [dropChild]
    cases hindex : FieldPath.index? s with
    | none => rfl
    | some i => exact get?_arr_set_of_apart hapart hindex _ q
  | member _ hbelow => cases hbelow
  | element _ _ _ hbelow => cases hbelow

/-- What a path that parts from the removed one reaches, if anything, stays. -/
theorem get?_unset_of_departs {v : Json} (hv : v.KeysDistinct) {p q : FieldPath}
    (h : Departs v p q) : (v.unset p).1.get? q = v.get? q := by
  rcases List.eq_nil_or_concat p with rfl | ⟨parent, s, rfl⟩
  · cases h
  · rw [List.concat_eq_append] at h ⊢
    cases hw : v.get? parent with
    | none =>
      have hnothing : v.get? (parent ++ [s]) = none := by rw [get?_concat, hw, Option.bind_none]
      rw [unset_of_get?_eq_none hnothing]
    | some w =>
      rw [unset_concat hw]
      refine get?_modify_of_departs h fun w' q hw' hdeparts => ?_
      obtain rfl := Option.some.inj (hw.symm.trans hw')
      exact get?_dropChild_of_departs (hv.get? hw) hdeparts

/-- A child that was taken out is gone from an object, and null in an array. -/
theorem child?_dropChild {v x : Json} (hv : v.KeysDistinct) {s : String}
    (h : v.child? s = some x) :
    (∃ fields, v = .obj fields ∧ (v.dropChild s).child? s = none) ∨
    ∃ items items', v = .arr items ∧ v.dropChild s = .arr items' ∧
      items'.length = items.length ∧ (v.dropChild s).child? s = some .null := by
  cases v with
  | obj fields =>
    refine .inl ⟨fields, rfl, ?_⟩
    rw [dropChild, child?, Members.get?_erase hv.1, if_pos rfl]
  | arr items =>
    obtain ⟨i, hindex, hitem⟩ := Option.bind_eq_some_iff.mp h
    obtain ⟨hlt, -⟩ := List.getElem?_eq_some_iff.mp hitem
    have hdropped : (arr items).dropChild s = .arr (items.set i .null) := by
      simp only [dropChild, hindex]
    refine .inr ⟨items, _, rfl, hdropped, List.length_set, ?_⟩
    rw [hdropped, child?, hindex, Option.bind_some, List.getElem?_set_self hlt]
  | _ => cases h

/-- Nothing more can be taken out. -/
theorem dropChild_dropChild {v : Json} (hv : v.KeysDistinct) (s : String) :
    (v.dropChild s).dropChild s = v.dropChild s := by
  cases hchild : v.child? s with
  | none => rw [dropChild_of_child?_eq_none hchild, dropChild_of_child?_eq_none hchild]
  | some x =>
    rcases child?_dropChild hv hchild with ⟨-, -, hgone⟩ | ⟨items, items', rfl, -, -, -⟩
    · exact dropChild_of_child?_eq_none hgone
    · rw [dropChild]
      cases hindex : FieldPath.index? s with
      | none => simp only [dropChild, hindex]
      | some i => simp only [dropChild, hindex, List.set_set]

/-- What was removed from an object is gone. In an array there is null in its place, and no element
moves. -/
theorem get?_unset_of_get? {v x : Json} (hv : v.KeysDistinct) {path : FieldPath}
    (hroot : path ≠ []) (h : v.get? path = some x) :
    (∃ fields, v.get? path.dropLast = some (.obj fields) ∧ (v.unset path).1.get? path = none) ∨
    ∃ items items', v.get? path.dropLast = some (.arr items) ∧
      (v.unset path).1.get? path.dropLast = some (.arr items') ∧
      items'.length = items.length ∧ (v.unset path).1.get? path = some .null := by
  obtain ⟨parent, s, rfl⟩ : ∃ parent s, path = parent ++ [s] :=
    ⟨_, _, (List.dropLast_append_getLast hroot).symm⟩
  rw [get?_concat, Option.bind_eq_some_iff] at h
  obtain ⟨w, hw, hchild⟩ := h
  have hparent := get?_modify hw (·.dropChild s)
  rw [unset_concat hw, List.dropLast_concat, get?_concat, hparent, Option.bind_some, hw]
  rcases child?_dropChild (hv.get? hw) hchild with
    ⟨fields, rfl, hgone⟩ | ⟨items, items', rfl, hdropped, hlength, hnull⟩
  · exact .inl ⟨fields, rfl, hgone⟩
  · exact .inr ⟨items, items', rfl, congrArg some hdropped, hlength, hnull⟩

/-- A path that was removed is removed. -/
theorem unset_unset {v : Json} (hv : v.KeysDistinct) {path : FieldPath} (hroot : path ≠ []) :
    ((v.unset path).1.unset path).1 = (v.unset path).1 := by
  obtain ⟨parent, s, rfl⟩ : ∃ parent s, path = parent ++ [s] :=
    ⟨_, _, (List.dropLast_append_getLast hroot).symm⟩
  cases hw : v.get? parent with
  | none =>
    have hnothing : v.get? (parent ++ [s]) = none := by rw [get?_concat, hw, Option.bind_none]
    rw [unset_of_get?_eq_none hnothing, unset_of_get?_eq_none hnothing]
  | some w =>
    have hparent := get?_modify hw (·.dropChild s)
    rw [unset_concat hw, unset_concat hparent]
    exact modify_of_fixed hparent (dropChild_dropChild (hv.get? hw) s)

/-- **The laws of removing.** What is removed is what the path reached, and if that is nothing then
nothing changes. Otherwise the path leads to nothing in an object, and to null in an array, which
keeps its length. A path that parts from it reaches the same as before, or still nothing. Removing
once more changes nothing. -/
theorem unset_touches_only_its_path {d : Json} (hd : d.KeysDistinct) {path : FieldPath}
    (hroot : path ≠ []) :
    (∀ x, (d.unset path).2 = some x ↔ d.get? path = some x) ∧
    ((d.unset path).2 = none → (d.unset path).1 = d) ∧
    (∀ x, (d.unset path).2 = some x →
      (∃ fields, d.get? path.dropLast = some (.obj fields) ∧
        (d.unset path).1.get? path = none) ∨
      ∃ items items', d.get? path.dropLast = some (.arr items) ∧
        (d.unset path).1.get? path.dropLast = some (.arr items') ∧
        items'.length = items.length ∧ (d.unset path).1.get? path = some .null) ∧
    (∀ q, Departs d path q → (d.unset path).1.get? q = d.get? q) ∧
    ((d.unset path).1.unset path).1 = (d.unset path).1 := by
  have hremoved : (d.unset path).2 = d.get? path := unset_snd d path
  rw [hremoved]
  refine ⟨fun x => Iff.rfl, fun hnothing => ?_, fun x hx => get?_unset_of_get? hd hroot hx,
    fun q h => get?_unset_of_departs hd h, unset_unset hd hroot⟩
  rw [unset_of_get?_eq_none hnothing]

/-- An object with three members, in an array. -/
def triple : Json := .obj [("list", .arr [.obj [("x", .nat 1), ("y", .nat 2), ("z", .nat 3)]])]

/-- The last member moves into the place of the one that was removed, and its key still leads to
it. -/
theorem unset_moves_last_member : triple.KeysDistinct ∧ ["list", "00", "x"] ≠ [] ∧
    (triple.unset ["list", "00", "x"]).1.get? ["list", "00", "x"] = none ∧
    (triple.unset ["list", "00", "x"]).1.get? ["list", "0", "z"] = some (.nat 3) := by
  have hdistinct : triple.KeysDistinct := by
    simp [triple, nat, KeysDistinct, KeysDistinctItems, KeysDistinctFields, Members.keys]
  have hroot : ["list", "00", "x"] ≠ [] := List.cons_ne_nil _ _
  have hbeside : Departs triple ["list", "00", "x"] ["list", "0", "z"] :=
    .member rfl (.element (i := 0) (by decide +kernel) (by decide +kernel) rfl
      (.key _ _ (by decide)))
  have hthere : triple.get? ["list", "00", "x"] = some (.nat 1) := by decide +kernel
  have hobject : triple.get? ["list", "00"] =
      some (.obj [("x", .nat 1), ("y", .nat 2), ("z", .nat 3)]) := by decide +kernel
  obtain ⟨hremoved, -, hplace, hkept, -⟩ := unset_touches_only_its_path hdistinct hroot
  refine ⟨hdistinct, hroot, ?_, (hkept _ hbeside).trans (by decide +kernel)⟩
  rcases hplace _ ((hremoved _).mpr hthere) with ⟨-, -, hgone⟩ | ⟨items, -, harray, -⟩
  · exact hgone
  · cases hobject.symm.trans harray

end DocWatch.Json
