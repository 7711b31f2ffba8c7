import DocWatch.Json.Equality
import DocWatch.Proofs.Members
import Mathlib.Data.List.Perm.Subperm

/-!
# Equality of values

Equality to a query is transitive on all values. It is not reflexive on objects that have a key
twice, since only the first member of a key is compared.

- `Json.equiv_str_iff` and its like: what equals a value that is no container.
- `Json.equivFields_iff`: what is asked of the members of two objects.
- `Json.equiv_trans`: transitivity.
- `Json.equiv_refl`, `Json.equiv_symm`: reflexivity and symmetry, where no object has a key twice.
-/

namespace DocWatch.Json

attribute [local simp] equiv equivItems equivFields

/-! ## Equality with one kind of value -/

theorem equiv_null_iff (v : Json) : v.equiv .null = true ↔ v = .null := by
  cases v <;> simp

theorem equiv_bool_iff (v : Json) (b : Bool) : v.equiv (.bool b) = true ↔ v = .bool b := by
  cases v with
  | bool a => rw [equiv, beq_iff_eq, Json.bool.injEq]
  | _ => simp

theorem equiv_num_iff (v : Json) (n : Number) :
    v.equiv (.num n) = true ↔ ∃ m, v = .num m ∧ m.order = n.order := by
  cases v with
  | num m => simp
  | _ => simp

theorem equiv_str_iff (v : Json) (s : String) : v.equiv (.str s) = true ↔ v = .str s := by
  cases v with
  | str t => rw [equiv, beq_iff_eq, Json.str.injEq]
  | _ => simp

theorem str_equiv_iff (s : String) (v : Json) : (Json.str s).equiv v = true ↔ v = .str s := by
  cases v with
  | str t =>
    rw [equiv, beq_iff_eq, Json.str.injEq]
    exact eq_comm
  | _ => simp

/-- Only arrays equal arrays. -/
theorem exists_arr_of_equiv {v : Json} {items : List Json} (h : v.equiv (.arr items) = true) :
    ∃ items', v = .arr items' := by
  cases v with
  | arr items' => exact ⟨items', rfl⟩
  | _ => simp at h

/-! ## Transitivity -/

/-- The first member has an equal one in the other object, and so have the others. -/
theorem equivFields_cons_iff (k : String) (v : Json) (rest ys : Members Json) :
    equivFields ((k, v) :: rest) ys = true ↔
      (∃ w, Members.get? ys k = some w ∧ v.equiv w = true) ∧ equivFields rest ys = true := by
  rw [equivFields, Bool.and_eq_true]
  cases Members.get? ys k <;> simp

/-- Each member of the first object has an equal one in the second. -/
theorem equivFields_iff (xs ys : Members Json) :
    equivFields xs ys = true ↔
      ∀ k v, (k, v) ∈ xs → ∃ w, Members.get? ys k = some w ∧ v.equiv w = true := by
  induction xs with
  | nil => simp
  | cons kv rest ih =>
    obtain ⟨k, v⟩ := kv
    rw [equivFields_cons_iff, ih]
    constructor
    · rintro ⟨hv, hrest⟩ k' v' hmem
      rcases List.mem_cons.mp hmem with he | hmem
      · obtain ⟨rfl, rfl⟩ := Prod.mk.inj he
        exact hv
      · exact hrest k' v' hmem
    · intro hall
      exact ⟨hall k v List.mem_cons_self,
        fun k' v' hmem => hall k' v' (List.mem_cons_of_mem _ hmem)⟩

mutual

/-- Equality to a query is transitive. -/
theorem equiv_trans {u v w : Json} (h : u.equiv v = true) (h' : v.equiv w = true) :
    u.equiv w = true := by
  cases u <;> cases v <;> simp only [equiv, Bool.false_eq_true] at h
  all_goals cases w <;> simp only [equiv, Bool.false_eq_true] at h'
  case null.null.null => rfl
  case bool.bool.bool a b c =>
    rw [equiv, beq_iff_eq.mp h]
    exact h'
  case num.num.num a b c =>
    rw [equiv, beq_iff_eq.mp h]
    exact h'
  case str.str.str a b c =>
    rw [equiv, beq_iff_eq.mp h]
    exact h'
  case arr.arr.arr xs ys zs => exact equivItems_trans h h'
  case obj.obj.obj xs ys zs =>
    rw [Bool.and_eq_true, beq_iff_eq] at h h'
    rw [equiv, Bool.and_eq_true, beq_iff_eq]
    exact ⟨h.1.trans h'.1, equivFields_trans h.2 h'.2⟩

/-- The elements of arrays. -/
theorem equivItems_trans {xs ys zs : List Json} (h : equivItems xs ys = true)
    (h' : equivItems ys zs = true) : equivItems xs zs = true := by
  match xs, ys, zs with
  | [], [], [] => rfl
  | x :: xs, y :: ys, z :: zs =>
    rw [equivItems, Bool.and_eq_true] at h h' ⊢
    exact ⟨equiv_trans h.1 h'.1, equivItems_trans h.2 h'.2⟩
  | [], _ :: _, _ | _ :: _, [], _ => simp at h
  | _, [], _ :: _ | _, _ :: _, [] => simp at h'

/-- The members of objects. -/
theorem equivFields_trans {xs ys zs : Members Json} (h : equivFields xs ys = true)
    (h' : equivFields ys zs = true) : equivFields xs zs = true := by
  match xs with
  | [] => rfl
  | (k, v) :: rest =>
    rw [equivFields_cons_iff] at h ⊢
    obtain ⟨⟨w, hget, hv⟩, hrest⟩ := h
    -- the equal member is one of the second object, which has an equal one in the third
    obtain ⟨z, hget', hw⟩ := (equivFields_iff ys zs).mp h' k w (Members.mem_of_get? hget)
    exact ⟨⟨z, hget', equiv_trans hv hw⟩, equivFields_trans hrest h'⟩

end

/-! ## Reflexivity -/

mutual

/-- A value in which no object has a key twice is equal to itself. -/
theorem equiv_refl : {v : Json} → v.KeysDistinct → v.equiv v = true
  | .null, _ => rfl
  | .bool b, _ => by rw [equiv, beq_self_eq_true]
  | .num n, _ => by rw [equiv, beq_self_eq_true]
  | .str s, _ => by rw [equiv, beq_self_eq_true]
  | .arr items, h => by
    rw [equiv]
    exact equivItems_refl h
  | .obj fields, h => by
    rw [equiv, beq_self_eq_true, Bool.true_and]
    exact equivFields_refl h.2 fun k v hmem => (Members.get?_eq_some_iff h.1 k v).mpr hmem

/-- The elements of an array. -/
theorem equivItems_refl : {items : List Json} → KeysDistinctItems items →
    equivItems items items = true
  | [], _ => rfl
  | _ :: _, h => by
    rw [equivItems, equiv_refl h.1, equivItems_refl h.2]
    rfl

/-- Members, in an object where each of them is found. -/
theorem equivFields_refl : {fields ys : Members Json} → KeysDistinctFields fields →
    (∀ k v, (k, v) ∈ fields → Members.get? ys k = some v) → equivFields fields ys = true
  | [], _, _, _ => rfl
  | (k, v) :: _, _, h, hfound =>
    (equivFields_cons_iff _ _ _ _).mpr ⟨⟨v, hfound k v List.mem_cons_self, equiv_refl h.1⟩,
      equivFields_refl h.2 fun k' v' hmem => hfound k' v' (List.mem_cons_of_mem _ hmem)⟩

end

/-! ## Symmetry -/

/-- Two objects of one size, of which the first has its members in the second, have the same
keys. -/
theorem keys_perm_of_equivFields {xs ys : Members Json} (hxs : (Members.keys xs).Nodup)
    (hlength : xs.length = ys.length) (h : equivFields xs ys = true) :
    (Members.keys xs).Perm (Members.keys ys) := by
  have hsub : Members.keys xs ⊆ Members.keys ys := by
    intro k hk
    obtain ⟨⟨_, v⟩, hmem, rfl⟩ := List.mem_map.mp hk
    obtain ⟨w, hget, -⟩ := (equivFields_iff xs ys).mp h _ v hmem
    exact Members.mem_keys_of_mem (Members.mem_of_get? hget)
  exact (List.subperm_of_subset hxs hsub).perm_of_length_le (by simp [Members.keys, hlength])

mutual

/-- Equality to a query is symmetric on values in which no object has a key twice. Only what equals
them has to be one of these, since then so is the other. -/
theorem equiv_symm {u v : Json} (hu : u.KeysDistinct) (h : u.equiv v = true) :
    v.equiv u = true := by
  cases u <;> cases v <;> simp only [equiv, Bool.false_eq_true] at h
  case null.null => rfl
  case bool.bool a b => rw [equiv, beq_iff_eq.mp h, beq_self_eq_true]
  case num.num a b => rw [equiv, beq_iff_eq.mp h, beq_self_eq_true]
  case str.str a b => rw [equiv, beq_iff_eq.mp h, beq_self_eq_true]
  case arr.arr xs ys => exact equivItems_symm hu h
  case obj.obj xs ys =>
    rw [Bool.and_eq_true, beq_iff_eq] at h
    obtain ⟨hlength, hfields⟩ := h
    have hperm := keys_perm_of_equivFields hu.1 hlength hfields
    have hys : (Members.keys ys).Nodup := hperm.nodup_iff.mp hu.1
    rw [equiv, Bool.and_eq_true, beq_iff_eq]
    refine ⟨hlength.symm, (equivFields_iff ys xs).mpr fun k w hw => ?_⟩
    -- the key is one of the first object, and its member there is the one that equals this one
    obtain ⟨⟨_, v⟩, hv, rfl⟩ := List.mem_map.mp
      (hperm.mem_iff.mpr (Members.mem_keys_of_mem hw))
    obtain ⟨w', hget, hequiv⟩ := (equivFields_iff xs ys).mp hfields _ v hv
    rw [(Members.get?_eq_some_iff hys _ w).mpr hw] at hget
    obtain rfl := Option.some.inj hget
    exact ⟨v, (Members.get?_eq_some_iff hu.1 _ v).mpr hv, equiv_symm_of_mem hu.2 hv hequiv⟩

/-- The elements of arrays. -/
theorem equivItems_symm {xs ys : List Json} (hxs : KeysDistinctItems xs)
    (h : equivItems xs ys = true) : equivItems ys xs = true := by
  match xs, ys with
  | [], [] => rfl
  | x :: xs, y :: ys =>
    rw [equivItems, Bool.and_eq_true] at h ⊢
    exact ⟨equiv_symm hxs.1 h.1, equivItems_symm hxs.2 h.2⟩
  | [], _ :: _ | _ :: _, [] => simp at h

/-- The value of a member. -/
theorem equiv_symm_of_mem {fields : Members Json} (hfields : KeysDistinctFields fields)
    {k : String} {v w : Json} (hmem : (k, v) ∈ fields) (h : v.equiv w = true) :
    w.equiv v = true := by
  match fields with
  | [] => exact absurd hmem List.not_mem_nil
  | (_, _) :: _ =>
    rcases List.mem_cons.mp hmem with he | hmem
    · obtain ⟨-, rfl⟩ := Prod.mk.inj he
      exact equiv_symm hfields.1 h
    · exact equiv_symm_of_mem hfields.2 hmem h

end

end DocWatch.Json
