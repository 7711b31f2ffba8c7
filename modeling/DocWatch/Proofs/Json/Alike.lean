import DocWatch.Proofs.Json.Access
import DocWatch.Proofs.Json.Equality
import Mathlib.Data.List.Forall2

/-!
# Alike values

Two values are alike if no object in them has a key twice and they are equal to a query. Numbers
may then be spelled differently and members stand in other places, at any depth, but a path leads
to alike values in both, and what is written to both leaves them alike.

- `Json.Alike`: the relation. Alike arrays and objects are alike in their parts
  (`Json.alike_arr_iff`, `Json.alike_obj_iff`).
- `Json.Form`, `Json.Alike.form`: what two alike values have in common, one case for each kind.
- `Json.Alike.get?`, `Json.Alike.set`, `Json.Alike.modify`, `Json.Alike.unset`: access at paths.
-/

namespace DocWatch.Json

/-! ## Related options and lists -/

section Related

variable {α β : Type} {R : α → β → Prop}

theorem rel_cases {x : Option α} {y : Option β} (h : Option.Rel R x y) :
    (x = none ∧ y = none) ∨ ∃ a b, x = some a ∧ y = some b ∧ R a b := by
  cases h with
  | some hab => exact .inr ⟨_, _, rfl, rfl, hab⟩
  | none => exact .inl ⟨rfl, rfl⟩

theorem exists_right_of_rel {x : Option α} {y : Option β} (h : Option.Rel R x y) {a : α}
    (hx : x = some a) : ∃ b, y = some b ∧ R a b := by
  subst hx
  cases h with
  | some hab => exact ⟨_, rfl, hab⟩

theorem exists_left_of_rel {x : Option α} {y : Option β} (h : Option.Rel R x y) {b : β}
    (hy : y = some b) : ∃ a, x = some a ∧ R a b := by
  subst hy
  cases h with
  | some hab => exact ⟨_, rfl, hab⟩

theorem getD_rel {x : Option α} {y : Option β} (h : Option.Rel R x y) {a : α} {b : β}
    (hab : R a b) : R (x.getD a) (y.getD b) := by
  cases h with
  | some h => exact h
  | none => exact hab

theorem getElem?_rel {xs : List α} {ys : List β} (h : List.Forall₂ R xs ys) (i : Nat) :
    Option.Rel R xs[i]? ys[i]? := by
  induction h generalizing i with
  | nil => exact .none
  | cons hxy _ ih =>
    cases i with
    | zero => exact .some hxy
    | succ i => exact ih i

theorem forall₂_set {xs : List α} {ys : List β} (h : List.Forall₂ R xs ys) (i : Nat) {a : α}
    {b : β} (hab : R a b) : List.Forall₂ R (xs.set i a) (ys.set i b) := by
  induction h generalizing i with
  | nil => exact .nil
  | cons hxy h ih =>
    cases i with
    | zero => exact .cons hab h
    | succ i => exact .cons hxy (ih i)

end Related

/-! ## Distinct keys, member by member -/

theorem keysDistinctItems_iff (items : List Json) :
    KeysDistinctItems items ↔ ∀ v ∈ items, v.KeysDistinct := by
  induction items with
  | nil => simp [KeysDistinctItems]
  | cons v rest ih => rw [KeysDistinctItems, ih, List.forall_mem_cons]

theorem keysDistinctFields_iff (fields : Members Json) :
    KeysDistinctFields fields ↔ ∀ k v, (k, v) ∈ fields → v.KeysDistinct := by
  induction fields with
  | nil => simp [KeysDistinctFields]
  | cons kv rest ih =>
    obtain ⟨k, v⟩ := kv
    rw [KeysDistinctFields, ih]
    constructor
    · rintro ⟨hv, hrest⟩ k' v' hmem
      rcases List.mem_cons.mp hmem with he | hmem
      · obtain ⟨-, rfl⟩ := Prod.mk.inj he
        exact hv
      · exact hrest k' v' hmem
    · intro hall
      exact ⟨hall k v List.mem_cons_self,
        fun k' v' hmem => hall k' v' (List.mem_cons_of_mem _ hmem)⟩

/-- A member of an object in which no object has a key twice is like the object. -/
theorem KeysDistinct.of_field? {v w : Json} (h : v.KeysDistinct) {key : String}
    (hw : v.field? key = some w) : w.KeysDistinct := by
  cases v with
  | obj fields => exact (keysDistinctFields_iff fields).mp h.2 key w (Members.mem_of_get? hw)
  | _ => cases hw

/-- Arrays are equal if they are, place by place. -/
theorem equivItems_iff (xs ys : List Json) :
    equivItems xs ys = true ↔ List.Forall₂ (fun v w => v.equiv w = true) xs ys := by
  induction xs generalizing ys with
  | nil => cases ys <;> simp [equivItems]
  | cons x xs ih =>
    cases ys with
    | nil => simp [equivItems]
    | cons y ys => rw [equivItems, Bool.and_eq_true, ih, List.forall₂_cons]

/-! ## The relation -/

/-- Values in which no object has a key twice, and that are equal to a query. -/
structure Alike (v w : Json) : Prop where
  left : v.KeysDistinct
  right : w.KeysDistinct
  equiv : v.equiv w = true

namespace Alike

variable {v w : Json}

theorem refl (h : v.KeysDistinct) : Alike v v := ⟨h, h, equiv_refl h⟩

theorem symm (h : Alike v w) : Alike w v := ⟨h.right, h.left, equiv_symm h.left h.equiv⟩

theorem trans {u : Json} (h : Alike u v) (h' : Alike v w) : Alike u w :=
  ⟨h.left, h'.right, equiv_trans h.equiv h'.equiv⟩

/-- Alike values are equal to the same values. -/
theorem equiv_eq (h : Alike v w) (expected : Json) : v.equiv expected = w.equiv expected :=
  Bool.eq_iff_iff.mpr ⟨equiv_trans h.symm.equiv, equiv_trans h.equiv⟩

end Alike

/-- Arrays are alike if they are, place by place. -/
theorem alike_arr_iff (xs ys : List Json) :
    Alike (.arr xs) (.arr ys) ↔ List.Forall₂ Alike xs ys := by
  constructor
  · rintro ⟨hxs, hys, hequiv⟩
    rw [KeysDistinct, keysDistinctItems_iff] at hxs hys
    rw [equiv, equivItems_iff] at hequiv
    induction hequiv with
    | nil => exact .nil
    | cons h _ ih =>
      rw [List.forall_mem_cons] at hxs hys
      exact .cons ⟨hxs.1, hys.1, h⟩ (ih hxs.2 hys.2)
  · intro h
    induction h with
    | nil => exact ⟨trivial, trivial, rfl⟩
    | @cons x y _ _ hxy _ ih =>
      have hitems := ih.equiv
      rw [equiv] at hitems
      refine ⟨⟨hxy.left, ih.left⟩, ⟨hxy.right, ih.right⟩, ?_⟩
      rw [equiv, equivItems, hxy.equiv, hitems]
      rfl

/-- Objects are alike if look-ups find alike values in them, or nothing. -/
theorem alike_obj_iff (xs ys : Members Json) :
    Alike (.obj xs) (.obj ys) ↔ (Members.keys xs).Nodup ∧ (Members.keys ys).Nodup ∧
      ∀ key, Option.Rel Alike (Members.get? xs key) (Members.get? ys key) := by
  constructor
  · rintro ⟨⟨hxs, hxvalues⟩, ⟨hys, hyvalues⟩, hequiv⟩
    rw [equiv, Bool.and_eq_true, beq_iff_eq] at hequiv
    obtain ⟨hlength, hfields⟩ := hequiv
    have hperm := keys_perm_of_equivFields hxs hlength hfields
    refine ⟨hxs, hys, fun key => ?_⟩
    cases hget : Members.get? xs key with
    | none =>
      have hnot : key ∉ Members.keys ys := fun hmem =>
        (Members.get?_eq_none_iff xs key).mp hget (hperm.mem_iff.mpr hmem)
      rw [(Members.get?_eq_none_iff ys key).mpr hnot]
      exact .none
    | some v =>
      have hv := Members.mem_of_get? hget
      obtain ⟨w, hget', hvw⟩ := (equivFields_iff xs ys).mp hfields key v hv
      rw [hget']
      exact .some ⟨(keysDistinctFields_iff xs).mp hxvalues key v hv,
        (keysDistinctFields_iff ys).mp hyvalues key w (Members.mem_of_get? hget'), hvw⟩
  · rintro ⟨hxs, hys, hget⟩
    -- the same keys are found, so that there are as many of them
    have hkeys : ∀ key, key ∈ Members.keys xs ↔ key ∈ Members.keys ys := by
      intro key
      rw [← not_iff_not, ← Members.get?_eq_none_iff, ← Members.get?_eq_none_iff]
      rcases rel_cases (hget key) with ⟨hx, hy⟩ | ⟨x, y, hx, hy, -⟩ <;> simp [hx, hy]
    have hlength : xs.length = ys.length := by
      simpa [Members.keys] using ((List.perm_ext_iff_of_nodup hxs hys).mpr hkeys).length_eq
    refine ⟨⟨hxs, (keysDistinctFields_iff xs).mpr fun key v hv => ?_⟩,
      ⟨hys, (keysDistinctFields_iff ys).mpr fun key w hw => ?_⟩, ?_⟩
    · obtain ⟨w, -, h⟩ :=
        exists_right_of_rel (hget key) ((Members.get?_eq_some_iff hxs key v).mpr hv)
      exact h.left
    · obtain ⟨v, -, h⟩ :=
        exists_left_of_rel (hget key) ((Members.get?_eq_some_iff hys key w).mpr hw)
      exact h.right
    · rw [equiv, Bool.and_eq_true, beq_iff_eq]
      refine ⟨hlength, (equivFields_iff xs ys).mpr fun key v hv => ?_⟩
      obtain ⟨w, hw, h⟩ :=
        exists_right_of_rel (hget key) ((Members.get?_eq_some_iff hxs key v).mpr hv)
      exact ⟨w, hw, h.equiv⟩

/-- What two alike values have in common. -/
inductive Form : Json → Json → Prop
  | null : Form .null .null
  | bool (b : Bool) : Form (.bool b) (.bool b)
  | num {m n : Number} (order : m.order = n.order) : Form (.num m) (.num n)
  | str (s : String) : Form (.str s) (.str s)
  | arr {xs ys : List Json} (items : List.Forall₂ Alike xs ys) : Form (.arr xs) (.arr ys)
  | obj {xs ys : Members Json} (left : (Members.keys xs).Nodup) (right : (Members.keys ys).Nodup)
      (found : ∀ key, Option.Rel Alike (Members.get? xs key) (Members.get? ys key)) :
      Form (.obj xs) (.obj ys)

namespace Alike

variable {v w : Json}

theorem form (h : Alike v w) : Form v w := by
  have hequiv := h.equiv
  cases v <;> cases w <;> simp only [Json.equiv, Bool.false_eq_true] at hequiv
  case null.null => exact .null
  case bool.bool a b =>
    obtain rfl := beq_iff_eq.mp hequiv
    exact .bool a
  case num.num m n => exact .num (beq_iff_eq.mp hequiv)
  case str.str s t =>
    obtain rfl := beq_iff_eq.mp hequiv
    exact .str s
  case arr.arr xs ys => exact .arr ((alike_arr_iff xs ys).mp h)
  case obj.obj xs ys =>
    obtain ⟨hxs, hys, hget⟩ := (alike_obj_iff xs ys).mp h
    exact .obj hxs hys hget

theorem isObject_eq (h : Alike v w) : v.isObject = w.isObject := by
  cases h.form <;> rfl

/-- Alike values stand alike to a bound. -/
theorem compare?_eq (h : Alike v w) (bound : Json) : v.compare? bound = w.compare? bound := by
  cases h.form with
  | num order => cases bound <;> simp only [compare?, order]
  | _ => rfl

/-! ## Members and elements -/

/-- Alike objects have the same keys, with alike values. -/
theorem obj_insert {xs ys : Members Json} (h : Alike (.obj xs) (.obj ys)) (key : String)
    (hvw : Alike v w) :
    Alike (.obj (Members.insert xs key v)) (.obj (Members.insert ys key w)) := by
  obtain ⟨hxs, hys, hget⟩ := (alike_obj_iff xs ys).mp h
  refine (alike_obj_iff _ _).mpr
    ⟨Members.nodup_insert hxs key v, Members.nodup_insert hys key w, fun other => ?_⟩
  rw [Members.get?_insert, Members.get?_insert]
  by_cases hkey : key = other
  · rw [if_pos hkey, if_pos hkey]
    exact .some hvw
  · rw [if_neg hkey, if_neg hkey]
    exact hget other

theorem obj_erase {xs ys : Members Json} (h : Alike (.obj xs) (.obj ys)) (key : String) :
    Alike (.obj (Members.erase xs key)) (.obj (Members.erase ys key)) := by
  obtain ⟨hxs, hys, hget⟩ := (alike_obj_iff xs ys).mp h
  refine (alike_obj_iff _ _).mpr
    ⟨Members.nodup_erase hxs key, Members.nodup_erase hys key, fun other => ?_⟩
  rw [Members.get?_erase hxs, Members.get?_erase hys]
  by_cases hkey : key = other
  · rw [if_pos hkey, if_pos hkey]
    exact .none
  · rw [if_neg hkey, if_neg hkey]
    exact hget other

theorem arr_set {xs ys : List Json} (h : List.Forall₂ Alike xs ys) (i : Nat) (hvw : Alike v w) :
    Alike (.arr (xs.set i v)) (.arr (ys.set i w)) :=
  (alike_arr_iff _ _).mpr (forall₂_set h i hvw)

/-- Alike arrays grow alike, or neither of them does. -/
theorem pad_cases {xs ys : List Json} (h : List.Forall₂ Alike xs ys) (i : Nat)
    (segment : String) :
    (∃ e, pad xs i segment = .error e ∧ pad ys i segment = .error e) ∨
      ∃ xs' ys', pad xs i segment = .ok xs' ∧ pad ys i segment = .ok ys' ∧
        List.Forall₂ Alike xs' ys' := by
  unfold pad
  rw [h.length_eq]
  by_cases hlt : i < ys.length
  · rw [if_pos hlt, if_pos hlt]
    exact .inr ⟨_, _, rfl, rfl, h⟩
  · rw [if_neg hlt, if_neg hlt]
    by_cases hfar : i - ys.length < maxPadding
    · rw [if_pos hfar, if_pos hfar]
      have hnulls : List.Forall₂ Alike (List.replicate (i + 1 - ys.length) .null)
          (List.replicate (i + 1 - ys.length) .null) :=
        List.forall₂_same.mpr fun v hv => List.eq_of_mem_replicate hv ▸ refl trivial
      exact .inr ⟨_, _, rfl, rfl, List.rel_append h hnulls⟩
    · rw [if_neg hfar, if_neg hfar]
      exact .inl ⟨_, rfl, rfl⟩

theorem openSlot (h : Alike v w) : Alike (openSlot v) (openSlot w) := by
  cases h.form with
  | null => exact refl ⟨List.nodup_nil, trivial⟩
  | _ => exact h

/-! ## Access at paths -/

/-- One segment leads to alike values. -/
theorem child? (h : Alike v w) (segment : String) :
    Option.Rel Alike (v.child? segment) (w.child? segment) := by
  cases h.form with
  | obj _ _ found => exact found segment
  | arr items =>
    simp only [Json.child?]
    cases FieldPath.index? segment with
    | none => exact .none
    | some i => exact getElem?_rel items i
  | _ => exact .none

/-- A path leads to alike values. -/
theorem get? (h : Alike v w) (path : FieldPath) :
    Option.Rel Alike (v.get? path) (w.get? path) := by
  induction path generalizing v w with
  | nil => exact .some h
  | cons segment rest ih =>
    rw [Json.get?, Json.get?]
    rcases rel_cases (h.child? segment) with ⟨hx, hy⟩ | ⟨x, y, hx, hy, hinner⟩
    · rw [hx, hy]
      exact .none
    · rw [hx, hy]
      exact ih hinner

/-- The same write succeeds in both, and leaves them alike, or fails for the same reason. -/
theorem set (h : Alike v w) (path : FieldPath) {value : Json} (hvalue : value.KeysDistinct) :
    Alike (v.set path value).1 (w.set path value).1 ∧
      (v.set path value).2 = (w.set path value).2 := by
  induction path generalizing v w with
  | nil => exact ⟨refl hvalue, rfl⟩
  | cons segment rest ih =>
    cases h.form with
    | obj _ _ found =>
      have hmissing : Alike (.obj []) (.obj []) := refl ⟨List.nodup_nil, trivial⟩
      obtain ⟨hinner, herror⟩ := ih (getD_rel (found segment) hmissing)
      rw [set_obj, set_obj]
      exact ⟨h.obj_insert segment hinner, herror⟩
    | @arr xs ys items =>
      cases hindex : FieldPath.index? segment with
      | none =>
        simp only [Json.set, hindex]
        exact ⟨h, rfl⟩
      | some i =>
        rcases pad_cases items i segment with
          ⟨e, hxs, hys⟩ | ⟨xs', ys', hxs, hys, hitems⟩
        · simp only [Json.set, hindex, hxs, hys]
          exact ⟨h, trivial⟩
        · have hslot := (getD_rel (getElem?_rel hitems i) (refl (v := .null) trivial)).openSlot
          obtain ⟨hinner, herror⟩ := ih hslot
          rw [set_arr hindex hxs, set_arr hindex hys]
          exact ⟨arr_set hitems i hinner, herror⟩
    | _ => exact ⟨h, rfl⟩

/-- Changes that leave alike values alike do so below a path. -/
theorem modify (h : Alike v w) (path : FieldPath) {change change' : Json → Json}
    (hchange : ∀ v w, Alike v w → Alike (change v) (change' w)) :
    Alike (v.modify path change) (w.modify path change') := by
  induction path generalizing v w with
  | nil => exact hchange v w h
  | cons segment rest ih =>
    cases h.form with
    | @obj xs ys _ _ found =>
      simp only [Json.modify]
      rcases rel_cases (found segment) with ⟨hx, hy⟩ | ⟨x, y, hx, hy, hinner⟩
      · rw [hx, hy]
        exact h
      · rw [hx, hy]
        exact h.obj_insert segment (ih hinner)
    | @arr xs ys items =>
      simp only [Json.modify]
      cases FieldPath.index? segment with
      | none => exact h
      | some i =>
        rcases rel_cases (getElem?_rel items i) with ⟨hx, hy⟩ | ⟨x, y, hx, hy, hinner⟩
        · simp only [hx, hy]
          exact h
        · simp only [hx, hy]
          exact arr_set items i (ih hinner)
    | _ => exact h

theorem dropChild (h : Alike v w) (segment : String) :
    Alike (v.dropChild segment) (w.dropChild segment) := by
  cases h.form with
  | obj => exact h.obj_erase segment
  | arr items =>
    simp only [Json.dropChild]
    cases FieldPath.index? segment with
    | none => exact h
    | some i => exact arr_set items i (refl trivial)
  | _ => exact h

/-- What is removed, and what is left, is alike. -/
theorem unset (h : Alike v w) (path : FieldPath) :
    Alike (v.unset path).1 (w.unset path).1 ∧
      Option.Rel Alike (v.unset path).2 (w.unset path).2 := by
  rw [unset_eq, unset_eq]
  rcases rel_cases (h.get? path) with ⟨hx, hy⟩ | ⟨x, y, hx, hy, hold⟩
  · rw [hx, hy]
    exact ⟨h, .none⟩
  · rw [hx, hy]
    cases path.getLast? with
    | none => exact ⟨refl trivial, .some hold⟩
    | some segment =>
      exact ⟨h.modify path.dropLast fun _ _ hinner => hinner.dropChild segment, .some hold⟩

end Alike

/-- What a path reaches is like the value that it starts from. -/
theorem KeysDistinct.get? {v w : Json} (h : v.KeysDistinct) {path : FieldPath}
    (hw : v.get? path = some w) : w.KeysDistinct := by
  obtain ⟨w', -, hww'⟩ := exists_right_of_rel ((Alike.refl h).get? path) hw
  exact hww'.left

end DocWatch.Json
