import DocWatch.Members
import Mathlib.Data.List.Nodup

/-!
# Laws of ordered members

Writing in place, adding at the end and removing are specified on a list that is split around the
binding in question. When no key stands twice (`(keys ms).Nodup`) such a split is the only one, so
these equations say everything that the operations do.

- `get?_insert`: look-up after a write, with no condition.
- `insert_of_not_mem`, `insert_split`: a write adds at the end, or changes one value in place.
- `get?_insertAll`, `insertAll_of_nodup`: of several writes under a key the last counts, and new
  keys go to the end.
- `get?_perm`, `insert_perm`: with distinct keys, the order of the bindings does not matter.
- `remove_split`: a removal takes out one binding and moves nothing.
- `erase_perm`, `get?_erase`: with distinct keys, the removal that moves the last binding takes out
  one binding as well.
- `get?_eq_some_iff`, `filter_key`: with distinct keys, look-up is membership, and finds all there
  is.
-/

namespace DocWatch.Members

variable {α : Type}

attribute [local simp] get? insert

/-! ## Keys -/

@[simp] theorem keys_nil : keys ([] : Members α) = [] := rfl

@[simp] theorem keys_cons (key : String) (v : α) (ms : Members α) :
    keys ((key, v) :: ms) = key :: keys ms := rfl

@[simp] theorem keys_append (ms ns : Members α) : keys (ms ++ ns) = keys ms ++ keys ns :=
  List.map_append

theorem mem_keys_of_mem {ms : Members α} {key : String} {v : α} (h : (key, v) ∈ ms) :
    key ∈ keys ms :=
  List.mem_map_of_mem h

/-! ## Look-up -/

/-- A key that is not bound is not found. -/
theorem get?_eq_none_iff (ms : Members α) (key : String) :
    ms.get? key = none ↔ key ∉ keys ms := by
  induction ms with
  | nil => simp
  | cons kv rest ih =>
    obtain ⟨k, v⟩ := kv
    rw [get?]
    by_cases h : k = key
    · simp [h]
    · rw [if_neg h, ih, keys_cons, List.mem_cons, not_or]
      exact ⟨fun hr => ⟨fun he => h he.symm, hr⟩, fun hr => hr.2⟩

theorem contains_eq_false_iff (ms : Members α) (key : String) :
    ms.contains key = false ↔ key ∉ keys ms := by
  rw [contains, Option.isSome_eq_false_iff, Option.isNone_iff_eq_none, get?_eq_none_iff]

/-- What is found is there. -/
theorem mem_of_get? {ms : Members α} {key : String} {v : α} (h : ms.get? key = some v) :
    (key, v) ∈ ms := by
  induction ms with
  | nil => simp at h
  | cons kv rest ih =>
    obtain ⟨k, w⟩ := kv
    rw [get?] at h
    by_cases hk : k = key
    · rw [if_pos hk, Option.some.injEq] at h
      rw [hk, h]
      exact List.mem_cons_self
    · rw [if_neg hk] at h
      exact List.mem_cons_of_mem _ (ih h)

/-- The first binding of a key is the one that is found. -/
theorem get?_split (l r : Members α) (key : String) (v : α) (h : key ∉ keys l) :
    get? (l ++ (key, v) :: r) key = some v := by
  induction l with
  | nil => simp
  | cons kv rest ih =>
    obtain ⟨k, w⟩ := kv
    rw [keys_cons, List.mem_cons, not_or] at h
    rw [List.cons_append, get?, if_neg (fun he => h.1 he.symm), ih h.2]

/-- In a list with distinct keys, the keys before and after a binding are other ones. -/
theorem not_mem_of_split {l r : Members α} {key : String} {v : α}
    (h : (keys (l ++ (key, v) :: r)).Nodup) : key ∉ keys l ∧ key ∉ keys r := by
  rw [keys_append, keys_cons, List.nodup_append] at h
  obtain ⟨-, hr, hd⟩ := h
  refine ⟨fun hl => hd key hl key List.mem_cons_self rfl, (List.nodup_cons.mp hr).1⟩

/-- With distinct keys, what is there is found. -/
theorem get?_eq_some_iff {ms : Members α} (hnd : (keys ms).Nodup) (key : String) (v : α) :
    ms.get? key = some v ↔ (key, v) ∈ ms := by
  refine ⟨mem_of_get?, fun h => ?_⟩
  obtain ⟨l, r, rfl⟩ := List.append_of_mem h
  exact get?_split l r key v (not_mem_of_split hnd).1

/-- No binding has a key that is not bound. -/
theorem filter_key_of_not_mem {ms : Members α} {key : String} (h : key ∉ keys ms) :
    List.filter (fun kv => kv.1 == key) ms = [] := by
  refine List.filter_eq_nil_iff.mpr fun kv hmem hkey => ?_
  obtain ⟨k, v⟩ := kv
  rw [← beq_iff_eq.mp hkey] at h
  exact h (mem_keys_of_mem hmem)

/-- With distinct keys, the bindings of a key are what look-up finds. -/
theorem filter_key {ms : Members α} (hnd : (keys ms).Nodup) (key : String) :
    List.filter (fun kv => kv.1 == key) ms =
      match ms.get? key with
      | some v => [(key, v)]
      | none => [] := by
  cases hget : ms.get? key with
  | none => exact filter_key_of_not_mem ((get?_eq_none_iff ms key).mp hget)
  | some v =>
    obtain ⟨l, r, rfl⟩ := List.append_of_mem (mem_of_get? hget)
    obtain ⟨hl, hr⟩ := not_mem_of_split hnd
    rw [List.filter_append, List.filter_cons_of_pos (by simp),
      filter_key_of_not_mem hl, filter_key_of_not_mem hr, List.nil_append]

/-! ## Writing -/

@[simp] theorem get?_insert (ms : Members α) (key key' : String) (v : α) :
    (ms.insert key v).get? key' = if key = key' then some v else ms.get? key' := by
  induction ms with
  | nil => simp
  | cons kv rest ih =>
    obtain ⟨k, w⟩ := kv
    rw [insert]
    by_cases hk : k = key
    · rw [if_pos hk, get?, get?, hk]
      by_cases hk' : key = key' <;> simp [hk']
    · rw [if_neg hk, get?, get?, ih]
      by_cases hk' : k = key'
      · rw [if_pos hk', if_pos hk', if_neg (fun he => hk (hk'.trans he.symm))]
      · rw [if_neg hk', if_neg hk']

/-- The last of two writes under a key counts. -/
theorem insert_insert (ms : Members α) (key : String) (v w : α) :
    (ms.insert key v).insert key w = ms.insert key w := by
  induction ms with
  | nil => simp
  | cons kv rest ih =>
    obtain ⟨k, u⟩ := kv
    rw [insert, insert]
    by_cases hk : k = key
    · rw [if_pos hk, if_pos hk, insert, if_pos hk]
    · rw [if_neg hk, if_neg hk, insert, if_neg hk, ih]

/-- Writing what is there changes nothing. -/
theorem insert_of_get? {ms : Members α} {key : String} {v : α} (h : ms.get? key = some v) :
    ms.insert key v = ms := by
  induction ms with
  | nil => cases h
  | cons kv rest ih =>
    obtain ⟨k, w⟩ := kv
    rw [get?] at h
    rw [insert]
    by_cases hk : k = key
    · rw [if_pos hk] at h ⊢
      rw [Option.some.inj h]
    · rw [if_neg hk] at h ⊢
      rw [ih h]

/-- A new key goes to the end. -/
theorem insert_of_not_mem (ms : Members α) (key : String) (v : α) (h : key ∉ keys ms) :
    ms.insert key v = ms ++ [(key, v)] := by
  induction ms with
  | nil => rfl
  | cons kv rest ih =>
    obtain ⟨k, w⟩ := kv
    rw [keys_cons, List.mem_cons, not_or] at h
    rw [insert, if_neg (fun he => h.1 he.symm), ih h.2, List.cons_append]

/-- An old key keeps its place. -/
theorem insert_split (l r : Members α) (key : String) (v w : α) (h : key ∉ keys l) :
    insert (l ++ (key, v) :: r) key w = l ++ (key, w) :: r := by
  induction l with
  | nil => simp
  | cons kv rest ih =>
    obtain ⟨k, x⟩ := kv
    rw [keys_cons, List.mem_cons, not_or] at h
    rw [List.cons_append, insert, if_neg (fun he => h.1 he.symm), ih h.2, List.cons_append]

/-! ## Several writes -/

/-- Writes bindings one after the other. -/
def insertAll (ms new : Members α) : Members α :=
  new.foldl (fun written kv => written.insert kv.1 kv.2) ms

theorem insertAll_cons (ms new : Members α) (key : String) (v : α) :
    ms.insertAll ((key, v) :: new) = (ms.insert key v).insertAll new := rfl

theorem get?_append (ms ns : Members α) (key : String) :
    get? (ms ++ ns) key = (ms.get? key).or (ns.get? key) := by
  induction ms with
  | nil => rfl
  | cons kv rest ih =>
    obtain ⟨k, v⟩ := kv
    rw [List.cons_append, get?, get?, ih]
    by_cases hk : k = key <;> simp [hk]

/-- The last write under a key is what look-up finds. -/
theorem get?_insertAll (ms new : Members α) (key : String) :
    (ms.insertAll new).get? key = (get? new.reverse key).or (ms.get? key) := by
  induction new generalizing ms with
  | nil => rfl
  | cons kv rest ih =>
    obtain ⟨k, v⟩ := kv
    rw [insertAll_cons, ih, get?_insert, List.reverse_cons, get?_append, Option.or_assoc, get?]
    by_cases hk : k = key <;> simp [hk]

/-- New keys go to the end, in order. -/
theorem insertAll_of_nodup {ms new : Members α} (h : (keys (ms ++ new)).Nodup) :
    ms.insertAll new = ms ++ new := by
  induction new generalizing ms with
  | nil => exact (List.append_nil ms).symm
  | cons kv rest ih =>
    obtain ⟨key, v⟩ := kv
    have hnew : key ∉ keys ms := (not_mem_of_split h).1
    rw [List.append_cons] at h ⊢
    rw [insertAll_cons, insert_of_not_mem ms key v hnew, ih h]

/-! ## Removal -/

/-- Removing a key that is not bound changes nothing. -/
theorem remove_of_not_mem (ms : Members α) (key : String) (h : key ∉ keys ms) :
    ms.remove key = ms := by
  refine List.filter_eq_self.mpr fun kv hkv => ?_
  have hne : kv.1 ≠ key := fun he => h (he ▸ mem_keys_of_mem hkv)
  simpa using hne

/-- Look-up after a removal, with no condition: all bindings of the key are gone. -/
theorem get?_remove (ms : Members α) (key key' : String) :
    (ms.remove key).get? key' = if key = key' then none else ms.get? key' := by
  induction ms with
  | nil => simp [remove]
  | cons kv rest ih =>
    obtain ⟨k, v⟩ := kv
    by_cases hk : k = key
    · have hdrop : remove ((k, v) :: rest) key = remove rest key := by simp [remove, hk]
      rw [hdrop, ih, get?, hk]
      by_cases hk' : key = key' <;> simp [hk']
    · have hkeep : remove ((k, v) :: rest) key = (k, v) :: remove rest key := by simp [remove, hk]
      rw [hkeep, get?, get?, ih]
      by_cases hk' : k = key'
      · rw [if_pos hk', if_pos hk', if_neg (fun he => hk (hk'.trans he.symm))]
      · rw [if_neg hk', if_neg hk']

/-- With distinct keys, a removal takes out one binding. -/
theorem remove_split {l r : Members α} {key : String} {v : α}
    (h : (keys (l ++ (key, v) :: r)).Nodup) : remove (l ++ (key, v) :: r) key = l ++ r := by
  obtain ⟨hl, hr⟩ := not_mem_of_split h
  have hkeep : ∀ ms : Members α, key ∉ keys ms →
      List.filter (fun kv : String × α => decide (kv.1 ≠ key)) ms = ms :=
    fun ms hms => remove_of_not_mem ms key hms
  show List.filter (fun kv : String × α => decide (kv.1 ≠ key)) (l ++ (key, v) :: r) = l ++ r
  rw [List.filter_append, hkeep l hl, List.filter_cons_of_neg (by simp), hkeep r hr]

/-! ## Other orders -/

/-- With distinct keys, look-up does not depend on the order. -/
theorem get?_perm {ms ns : Members α} (hnd : (keys ms).Nodup) (h : ms.Perm ns) (key : String) :
    ms.get? key = ns.get? key := by
  have hnd' : (keys ns).Nodup := (h.map Prod.fst).nodup_iff.mp hnd
  refine Option.ext fun v => ?_
  rw [get?_eq_some_iff hnd, get?_eq_some_iff hnd', h.mem_iff]

/-- A write puts the binding in the place of the one that had its key. -/
theorem insert_perm_cons {ms : Members α} (hnd : (keys ms).Nodup) (key : String) (v : α) :
    (ms.insert key v).Perm ((key, v) :: ms.remove key) := by
  by_cases hmem : key ∈ keys ms
  · obtain ⟨w, hget⟩ : ∃ w, ms.get? key = some w := by
      rw [← Option.isSome_iff_exists]
      by_contra hnone
      rw [Option.not_isSome_iff_eq_none, get?_eq_none_iff] at hnone
      exact hnone hmem
    obtain ⟨l, r, rfl⟩ := List.append_of_mem (mem_of_get? hget)
    rw [insert_split l r key w v (not_mem_of_split hnd).1, remove_split hnd]
    exact List.perm_middle
  · rw [insert_of_not_mem ms key v hmem, remove_of_not_mem ms key hmem]
    exact List.perm_append_singleton (key, v) ms

/-- With distinct keys, what a write makes does not depend on the order but for its own. -/
theorem insert_perm {ms ns : Members α} (hnd : (keys ms).Nodup) (h : ms.Perm ns) (key : String)
    (v : α) : (ms.insert key v).Perm (ns.insert key v) := by
  have hnd' : (keys ns).Nodup := (h.map Prod.fst).nodup_iff.mp hnd
  have hremove : (ms.remove key).Perm (ns.remove key) := h.filter _
  exact ((insert_perm_cons hnd key v).trans (hremove.cons (key, v))).trans
    (insert_perm_cons hnd' key v).symm

/-! ## Distinct keys stay distinct -/

theorem nodup_remove {ms : Members α} (hnd : (keys ms).Nodup) (key : String) :
    (keys (ms.remove key)).Nodup :=
  hnd.sublist (List.filter_sublist.map Prod.fst)

theorem nodup_insert {ms : Members α} (hnd : (keys ms).Nodup) (key : String) (v : α) :
    (keys (ms.insert key v)).Nodup := by
  refine ((insert_perm_cons hnd key v).map Prod.fst).nodup_iff.mpr ?_
  have hgone : key ∉ keys (ms.remove key) := by
    rw [← get?_eq_none_iff, get?_remove, if_pos rfl]
  exact List.nodup_cons.mpr ⟨hgone, nodup_remove hnd key⟩

/-! ## Removal that moves the last binding -/

/-- With distinct keys, this removal takes out one binding, too. -/
theorem erase_perm {ms : Members α} (hnd : (keys ms).Nodup) (key : String) :
    (ms.erase key).Perm (ms.remove key) := by
  induction ms with
  | nil => exact List.Perm.refl _
  | cons kv rest ih =>
    obtain ⟨k, v⟩ := kv
    by_cases hk : k = key
    · subst hk
      have hremove : remove ((k, v) :: rest) k = rest := remove_split (l := []) hnd
      rw [hremove, erase, if_pos rfl]
      rcases List.eq_nil_or_concat rest with rfl | ⟨init, last, rfl⟩
      · exact List.Perm.refl _
      · rw [List.concat_eq_append, List.getLast?_concat]
        simp only [List.dropLast_concat]
        exact (List.perm_append_singleton last init).symm
    · have hremove : remove ((k, v) :: rest) key = (k, v) :: remove rest key := by
        simp [remove, hk]
      rw [hremove, erase, if_neg hk]
      exact (ih (List.nodup_cons.mp hnd).2).cons (k, v)

/-- A key that is not bound cannot be taken out. -/
theorem erase_of_not_mem {ms : Members α} {key : String} (h : key ∉ keys ms) :
    ms.erase key = ms := by
  induction ms with
  | nil => rfl
  | cons kv rest ih =>
    obtain ⟨k, v⟩ := kv
    rw [keys_cons, List.mem_cons, not_or] at h
    rw [erase, if_neg (fun he => h.1 he.symm), ih h.2]

theorem nodup_erase {ms : Members α} (hnd : (keys ms).Nodup) (key : String) :
    (keys (ms.erase key)).Nodup :=
  ((erase_perm hnd key).map Prod.fst).nodup_iff.mpr (nodup_remove hnd key)

/-- With distinct keys, look-up after this removal. -/
theorem get?_erase {ms : Members α} (hnd : (keys ms).Nodup) (key key' : String) :
    (ms.erase key).get? key' = if key = key' then none else ms.get? key' := by
  rw [get?_perm (nodup_erase hnd key) (erase_perm hnd key), get?_remove]

end DocWatch.Members
