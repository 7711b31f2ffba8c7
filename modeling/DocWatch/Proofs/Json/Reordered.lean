import DocWatch.Proofs.Json.Alike

/-!
# Values with their keys in another order

The keys of an object have an order, and two values may differ by nothing else, in objects at any
depth. Where no object has a key twice, a query cannot tell such values apart.

- `Json.Reordered`: the relation. The members of an object are reordered one by one, and then stand
  in any order.
- `Json.Reordered.alike`: reordered values are alike.
-/

namespace DocWatch.Json

mutual

/-- The second value is the first with the keys of its objects, at any depth, in some order. -/
inductive Reordered : Json → Json → Prop
  | refl (v : Json) : Reordered v v
  | arr {xs ys : List Json} : ReorderedItems xs ys → Reordered (.arr xs) (.arr ys)
  | obj {xs zs ys : Members Json} : ReorderedFields xs zs → zs.Perm ys →
      Reordered (.obj xs) (.obj ys)

/-- Elements keep their places. -/
inductive ReorderedItems : List Json → List Json → Prop
  | nil : ReorderedItems [] []
  | cons {v w : Json} {xs ys : List Json} : Reordered v w → ReorderedItems xs ys →
      ReorderedItems (v :: xs) (w :: ys)

/-- The values of members, before the members change places. -/
inductive ReorderedFields : Members Json → Members Json → Prop
  | nil : ReorderedFields [] []
  | cons (key : String) {v w : Json} {xs ys : Members Json} : Reordered v w →
      ReorderedFields xs ys → ReorderedFields ((key, v) :: xs) ((key, w) :: ys)

end

theorem ReorderedFields.refl (fields : Members Json) : ReorderedFields fields fields := by
  induction fields with
  | nil => exact .nil
  | cons kv _ ih => exact .cons kv.1 (.refl kv.2) ih

/-- Only the values of members differ before the members change places. -/
theorem ReorderedFields.keys_eq : ∀ {xs ys : Members Json}, ReorderedFields xs ys →
    Members.keys xs = Members.keys ys
  | _, _, .nil => rfl
  | _, _, .cons key _ h => by rw [Members.keys_cons, Members.keys_cons, h.keys_eq]

/-! ## Reordered values are alike -/

/-- Objects with distinct keys are alike if one has the members of the other in another order. -/
theorem alike_obj_of_perm {xs zs ys : Members Json} (hxs : (Members.keys xs).Nodup)
    (hkeys : Members.keys xs = Members.keys zs) (hperm : zs.Perm ys)
    (hget : ∀ key, Option.Rel Alike (Members.get? xs key) (Members.get? zs key)) :
    Alike (.obj xs) (.obj ys) := by
  have hzs : (Members.keys zs).Nodup := hkeys ▸ hxs
  refine (alike_obj_iff xs ys).mpr ⟨hxs, (hperm.map Prod.fst).nodup_iff.mp hzs, fun key => ?_⟩
  rw [← Members.get?_perm hzs hperm key]
  exact hget key

mutual

/-- If no object has a key twice, a query cannot tell a value from its reorderings. -/
theorem Reordered.alike : ∀ {v w : Json}, Reordered v w → v.KeysDistinct → Alike v w
  | _, _, .refl _, hv => .refl hv
  | _, _, .arr h, hv => (alike_arr_iff _ _).mpr (h.alike hv)
  | _, _, .obj h hperm, hv => alike_obj_of_perm hv.1 h.keys_eq hperm (h.alike hv.2)

theorem ReorderedItems.alike : ∀ {xs ys : List Json}, ReorderedItems xs ys →
    KeysDistinctItems xs → List.Forall₂ Alike xs ys
  | _, _, .nil, _ => .nil
  | _, _, .cons h hrest, hxs => .cons (h.alike hxs.1) (hrest.alike hxs.2)

theorem ReorderedFields.alike : ∀ {xs ys : Members Json}, ReorderedFields xs ys →
    KeysDistinctFields xs → ∀ key, Option.Rel Alike (Members.get? xs key) (Members.get? ys key)
  | _, _, .nil, _, _ => .none
  | _, _, .cons key h hrest, hxs, other => by
    rw [Members.get?, Members.get?]
    by_cases hkey : key = other
    · rw [if_pos hkey, if_pos hkey]
      exact .some (h.alike hxs.1)
    · rw [if_neg hkey, if_neg hkey]
      exact hrest.alike hxs.2 other

end

end DocWatch.Json
