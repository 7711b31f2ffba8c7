import DocWatch.Proofs.Json.Faithful
import DocWatch.Proofs.Store.Lists
import DocWatch.Proofs.Store.Lookup
import Mathlib.Logic.Relation

/-!
# Documents behind those that were there

Let all identities of a collection be strings, and let an identity find none of its documents. Then
updates that are addressed by this identity leave these documents alone, however many they are. An
update that finds nothing may add a document behind them; one that finds something rewrites a
document that was added before, and goes to no place that was there at first. What was added need
not be found again: the update may have given it another identity, and a document that asks for
none is given a fresh one.

- `Identity.eq_of_key_eq`: strings and null share their keys with nothing else.
- `Collection.Renewed`: documents were rewritten, in their places.
- `Store.Grown`: documents stand behind those that were there.
- `Store.Grown.update_renewed`, `Store.Grown.update_added`: what an update that succeeds does to
  them.
-/

namespace DocWatch

/-! ## Keys -/

/-- A key in which a character stands that no number is written with is the key of one value. -/
theorem Identity.eq_of_key_eq {v z : Json} {c : Char} (hmem : c ∈ (key v).toList)
    (hc : ¬ Json.Numeric c) (h : key z = key v) : z = v := by
  have htext : ∀ u, c ∈ (key u).toList → key u = u.text := by
    intro u hu
    cases u with
    | num n => exact absurd (numeric_key n hu) hc
    | _ => rfl
  refine Json.text_inj ?_
  rw [← htext z (h ▸ hmem), h, htext v hmem]

theorem Identity.eq_str_of_key_eq {z : Json} {t : String} (h : key z = key (.str t)) :
    z = .str t := by
  refine eq_of_key_eq (c := '"') ?_ (by decide) h
  simp [key, Json.text, Json.chars, Json.quote]

theorem Identity.eq_null_of_key_eq {z : Json} (h : key z = key .null) : z = .null :=
  eq_of_key_eq (c := 'n') (by decide) (by decide) h

/-- A document with an identity is stored under the key of it. -/
theorem Document.key_of_withIdentity {fresh key : String} {doc stored id : Json}
    (h : withIdentity fresh doc = .ok (key, stored)) (hid : id? doc = some id)
    (hne : id ≠ .null) : key = Identity.key id := by
  obtain ⟨z, hz, -, hkey⟩ := withIdentity_ok h
  rw [(stored_of_withIdentity h hz).kept ⟨id, hid, hne⟩, hid] at hz
  rw [hkey, Option.some.inj hz]

/-! ## Rewriting -/

namespace Collection

/-- One document gives way to another with the same identity, in its place. -/
def Rewrites (c c' : Collection) : Prop :=
  ∃ l r key old new, c = l ++ (key, old) :: r ∧ Document.sameIdentity old new = true ∧
    c' = l ++ (key, new) :: r

/-- Documents give way to others in their places, one after another. -/
def Renewed : Collection → Collection → Prop := Relation.ReflTransGen Rewrites

variable {c c' : Collection}

theorem Renewed.keys_eq (h : c.Renewed c') : Members.keys c' = Members.keys c := by
  induction h with
  | refl => rfl
  | tail _ hstep ih =>
    obtain ⟨l, r, key, old, new, rfl, -, rfl⟩ := hstep
    rw [← ih, Members.keys_append, Members.keys_append, Members.keys_cons, Members.keys_cons]

theorem Renewed.length_eq (h : c.Renewed c') : c'.length = c.length := by
  have hkeys := congrArg List.length h.keys_eq
  rwa [Members.keys, Members.keys, List.length_map, List.length_map] at hkeys

/-- The documents lie under the keys under which they lay. -/
theorem Renewed.forall_key {p : String → Prop} (h : c.Renewed c') (hall : ∀ kd ∈ c, p kd.1) :
    ∀ kd ∈ c', p kd.1 := by
  rw [← List.forall_mem_map (P := p)] at hall ⊢
  exact (congrArg (fun keys => ∀ key ∈ keys, p key) h.keys_eq).mpr hall

/-- What rewriting keeps of each document. -/
theorem Renewed.forall_mem {P : String → Json → Prop}
    (hrewrite : ∀ key old new, Document.sameIdentity old new = true → P key old → P key new)
    (h : c.Renewed c') (hall : ∀ kd ∈ c, P kd.1 kd.2) : ∀ kd ∈ c', P kd.1 kd.2 := by
  induction h with
  | refl => exact hall
  | tail _ hstep ih =>
    obtain ⟨l, r, key, old, new, rfl, hsame, rfl⟩ := hstep
    exact forall_mem_rewrite (hrewrite key old new hsame) ih

end Collection

/-! ## Documents behind others -/

namespace Store

/-- Behind the documents of a collection stand others, with identities. Everything else is as it
was. -/
structure Grown (name : String) (added : Collection) (s s' : Store) : Prop where
  sound : s'.Sound
  collection : s'.collection name = s.collection name ++ added
  others : ∀ other, other ≠ name → s'.collection other = s.collection other
  keyed : ∀ kd ∈ added, ∃ id, id ≠ .null ∧ kd.1 = Identity.key id
  identified : ∀ kd ∈ added, ∃ id, Document.id? kd.2 = some id

variable {s₀ s s' : Store} {name : String} {added : Collection} {id : Json}

theorem grown_refl (hs : s.Sound) (name : String) : s.Grown name [] s where
  sound := hs
  collection := (List.append_nil _).symm
  others := fun _ _ => rfl
  keyed := fun _ hkd => absurd hkd List.not_mem_nil
  identified := fun _ hkd => absurd hkd List.not_mem_nil

/-- A store with the same documents. -/
theorem Grown.congr (h : s₀.Grown name added s)
    (hsame : ∀ name, s'.collection name = s.collection name) : s₀.Grown name added s' where
  sound := h.sound.congr hsame
  collection := (hsame name).trans h.collection
  others := fun other hne => (hsame other).trans (h.others other hne)
  keyed := h.keyed
  identified := h.identified

/-- The keys behind are other ones. -/
theorem Grown.not_mem_keys (h : s₀.Grown name added s) {kd : String × Json} (hkd : kd ∈ added) :
    kd.1 ∉ Members.keys (s₀.collection name) := by
  have hnd := (h.sound name).distinct
  rw [h.collection, Members.keys_append, List.nodup_append] at hnd
  exact fun hold => hnd.2.2 _ hold _ (List.mem_map_of_mem hkd) rfl

/-- Documents may be rewritten behind the others, or added there. -/
theorem Grown.insert {c : Collection} (h : s₀.Grown name added s)
    (hsound : Store.Sound (Members.insert s name c)) {added' : Collection}
    (hc : c = s₀.collection name ++ added')
    (hkeyed : ∀ kd ∈ added', ∃ id, id ≠ .null ∧ kd.1 = Identity.key id)
    (hidentified : ∀ kd ∈ added', ∃ id, Document.id? kd.2 = some id) :
    s₀.Grown name added' (Members.insert s name c) where
  sound := hsound
  collection := by rw [collection_insert, if_pos rfl, hc]
  others := fun other hne => by
    rw [collection_insert, if_neg fun he => hne he.symm, h.others other hne]
  keyed := hkeyed
  identified := hidentified

/-- Under one key there stands at most one document. -/
theorem Grown.length_le_one (h : s₀.Grown name added s) {key : String}
    (hkeys : ∀ kd ∈ added, kd.1 = key) : added.length ≤ 1 := by
  have hnd := (h.sound name).distinct
  rw [h.collection, Members.keys_append] at hnd
  have hadded : (Members.keys added).Nodup := (List.nodup_append.mp hnd).2.1
  have hreplicate : Members.keys added = List.replicate (Members.keys added).length key :=
    List.eq_replicate_of_mem (List.forall_mem_map.mpr hkeys)
  rwa [hreplicate, List.nodup_replicate, Members.keys, List.length_map] at hadded

/-- At most one document was changed or added if there is at most one behind. -/
theorem Grown.shifts_iff (h : s₀.Grown name added s) :
    (∃ before after, s₀.Shift name before after s) ↔ added.length ≤ 1 := by
  have hdocuments : (s.collection name).documents =
      (s₀.collection name).documents ++ Collection.documents added := by
    rw [h.collection, Collection.documents_append]
  constructor
  · rintro ⟨before, after, ⟨l, r, hbefore, hafter⟩, -⟩
    have hlength := congrArg List.length hdocuments
    rw [hbefore, hafter] at hlength
    simp only [List.length_append, Collection.documents, List.length_map] at hlength
    have hone : after.toList.length ≤ 1 := by cases after <;> simp
    omega
  · intro hlength
    obtain ⟨after, hadded⟩ : ∃ after : Option Json, Collection.documents added = after.toList := by
      cases added with
      | nil => exact ⟨none, rfl⟩
      | cons kd rest =>
        have hrest : rest.length ≤ 0 := Nat.le_of_succ_le_succ hlength
        obtain rfl : rest = [] := List.length_eq_zero_iff.mp (Nat.le_zero.mp hrest)
        exact ⟨some kd.2, rfl⟩
    refine ⟨none, after, ⟨(s₀.collection name).documents, [], by simp, ?_⟩, h.others⟩
    rw [hdocuments, hadded, List.append_nil]

/-! ## Identities that find nothing -/

/-- An identity that finds nothing selects nothing, where all identities are strings. -/
theorem Sound.not_selects_byId (hs : s.Sound) (hids : s.StringIds)
    (hmissing : s.findOne name (.byId id) = none) {kd : String × Json}
    (hkd : kd ∈ s.collection name) : (Filter.byId id).selects kd.2 = false := by
  by_contra hselects
  rw [Bool.not_eq_false] at hselects
  obtain ⟨t, hid⟩ := hids name kd hkd
  obtain rfl := (Filter.byId_selects_str hid id).mp hselects
  rw [hs.findOne_byId hkd hid] at hmissing
  cases hmissing

/-- Null finds nothing: no document lies under the key of it. -/
theorem Grown.findOne_byId_null (h : s₀.Grown name added s) (hs : s₀.Sound)
    (hids : s₀.StringIds) : s.findOne name (.byId .null) = none := by
  have hkey : Identity.key .null ∉ Members.keys (s.collection name) := by
    rw [h.collection, Members.keys_append, List.mem_append]
    rintro (hold | hnew)
    · obtain ⟨kd, hkd, hkey⟩ := List.mem_map.mp hold
      obtain ⟨t, ht⟩ := hids name kd hkd
      rw [(hs name).strings kd hkd t ht] at hkey
      cases Identity.eq_null_of_key_eq hkey
    · obtain ⟨kd, hkd, hkey⟩ := List.mem_map.mp hnew
      obtain ⟨z, hnull, hz⟩ := h.keyed kd hkd
      exact hnull (Identity.eq_null_of_key_eq (hz.symm.trans hkey))
  refine findOne_of_matching_nil ?_
  rw [Collection.matching_of_idEquality?_some (h.sound name).distinct
    (show (Filter.byId .null).idEquality? = some .null from rfl),
    Members.filter_key_of_not_mem hkey, List.filter_nil]

section Missing

variable (h : s₀.Grown name added s) (hs : s₀.Sound) (hids : s₀.StringIds)
  (hmissing : s₀.findOne name (.byId id) = none)
include h hs hids hmissing

/-- What such an identity finds later was added behind. -/
theorem Grown.mem_of_matching {kd : String × Json} {rest : Collection}
    (hm : (s.collection name).matching (.byId id) = kd :: rest) : kd ∈ added := by
  obtain ⟨hkd, hselects⟩ := Collection.mem_of_mem_matching
    (hm ▸ List.mem_cons_self : kd ∈ (s.collection name).matching (.byId id))
  rw [h.collection] at hkd
  rcases List.mem_append.mp hkd with hold | hnew
  · rw [hs.not_selects_byId hids hmissing hold] at hselects
    cases hselects
  · exact hnew

/-- A write that is addressed by it goes to no document that was there. The document that is found
may lie under another key than that of its present identity, but such an identity is no string. -/
theorem Grown.not_mem_of_targetKey? {key : String}
    (htarget : (s.collection name).targetKey? (.byId id) = some key) :
    key ∉ Members.keys (s₀.collection name) := by
  intro hold
  cases hm : (s.collection name).matching (.byId id) with
  | nil =>
    rw [Collection.targetKey?_of_matching_nil hm] at htarget
    cases htarget
  | cons kd rest =>
    rw [Collection.targetKey?_of_matching hm, Option.map_eq_some_iff] at htarget
    obtain ⟨z, hz, rfl⟩ := htarget
    have hkd := h.mem_of_matching hs hids hmissing hm
    -- a document that was there would have the same string for its identity
    obtain ⟨⟨_, doc⟩, hdoc, hkey⟩ := List.mem_map.mp hold
    obtain ⟨t, ht⟩ := hids name _ hdoc
    obtain rfl : z = .str t := by
      refine Identity.eq_str_of_key_eq ?_
      rw [← hkey, (hs name).strings _ hdoc t ht]
    refine h.not_mem_keys hkd ?_
    rw [(h.sound name).strings kd (h.collection ▸ List.mem_append_right _ hkd) t hz]
    exact hold

/-- Replacing there rewrites a document behind the others, or does nothing. -/
theorem Grown.exists_renewed_of_replace {key : String} {u : Update} {outcome : UpdateOutcome}
    {c : Collection} (htarget : (s.collection name).targetKey? (.byId id) = some key)
    (hreplace : (s.collection name).replace name key u = .ok (outcome, c)) :
    ∃ added', c = s₀.collection name ++ added' ∧ added.Renewed added' := by
  have hkey := h.not_mem_of_targetKey? hs hids hmissing htarget
  rcases Collection.replace_ok (h.sound name).distinct hreplace with
    ⟨-, rfl⟩ | ⟨l, r, old, new, -, hsplit, -, hsame, -, -, rfl⟩
  · exact ⟨added, h.collection, .refl⟩
  · rw [h.collection] at hsplit
    rcases List.append_eq_append_iff.mp hsplit with
      ⟨between, rfl, hadded⟩ | ⟨between, hold, hrest⟩
    · exact ⟨_, List.append_assoc _ _ _, .single ⟨between, r, key, old, new, hadded, hsame, rfl⟩⟩
    · -- otherwise the document would be one of those that were there
      cases between with
      | nil =>
        rw [List.append_nil] at hold
        exact ⟨_, hold ▸ rfl, .single ⟨[], r, key, old, new, hrest.symm, hsame, rfl⟩⟩
      | cons kd between =>
        obtain ⟨rfl, -⟩ := List.cons.inj hrest
        refine absurd ?_ hkey
        rw [hold, Members.keys_append, Members.keys_cons]
        exact List.mem_append_right _ List.mem_cons_self

/-- So does an update that finds a document, or that makes none where it finds none. -/
theorem Grown.exists_renewed_of_update {fresh : String} {u : Update} {upsert : Bool}
    {outcome : UpdateOutcome} {c : Collection}
    (hkept : upsert = true → (s.findOne name (.byId id)).isSome = true)
    (hup : (s.collection name).update name fresh (.byId id) u upsert = .ok (outcome, c)) :
    ∃ added', c = s₀.collection name ++ added' ∧ added.Renewed added' := by
  unfold Collection.update at hup
  cases htarget : (s.collection name).targetKey? (.byId id) with
  | some key =>
    rw [htarget] at hup
    exact h.exists_renewed_of_replace hs hids hmissing htarget hup
  | none =>
    rw [htarget] at hup
    cases upsert with
    | false =>
      obtain ⟨-, rfl⟩ := Prod.mk.inj (Except.ok.inj hup)
      exact ⟨added, h.collection, .refl⟩
    | true =>
      -- what is found has an identity, so that the write has somewhere to go
      cases hm : (s.collection name).matching (.byId id) with
      | nil => exact absurd (hkept rfl) (by simp [findOne_of_matching_nil hm])
      | cons kd rest =>
        obtain ⟨z, hz⟩ := h.identified kd (h.mem_of_matching hs hids hmissing hm)
        rw [Collection.targetKey?_of_matching hm, hz] at htarget
        cases htarget

/-- An update that makes no document only rewrites documents behind the others. -/
theorem Grown.update_renewed {fresh : String} {u : Update} {upsert : Bool}
    {outcome : UpdateOutcome}
    (hkept : upsert = true → (s.findOne name (.byId id)).isSome = true)
    (hup : s.update name fresh (.byId id) u upsert = (.ok outcome, s')) :
    ∃ added', s₀.Grown name added' s' ∧ added.Renewed added' := by
  have hsound := h.sound.of_update hup
  obtain ⟨c, hc, rfl⟩ := exists_of_update_ok hup
  obtain ⟨added', hadded, hrenewed⟩ := h.exists_renewed_of_update hs hids hmissing hkept hc
  have hkeyed : ∀ kd ∈ added', ∃ id, id ≠ .null ∧ kd.1 = Identity.key id :=
    hrenewed.forall_key (p := fun key => ∃ id, id ≠ .null ∧ key = Identity.key id) h.keyed
  refine ⟨added', h.insert hsound hadded hkeyed ?_, hrenewed⟩
  refine hrenewed.forall_mem (P := fun _ doc => ∃ id, Document.id? doc = some id)
    (fun _ old new hsame _ => ?_) h.identified
  obtain ⟨_, z, -, hz, -⟩ := (Document.sameIdentity_iff old new).mp hsame
  exact ⟨z, hz⟩

end Missing

/-- An update that finds nothing and makes a document adds it behind the others. It has started from
a document with nothing but the identity. -/
theorem Grown.update_added (h : s₀.Grown name added s)
    (hmissing : s.findOne name (.byId id) = none) {fresh : String} {u : Update}
    {outcome : UpdateOutcome} (hup : s.update name fresh (.byId id) u true = (.ok outcome, s')) :
    ∃ key stored doc, s₀.Grown name (added ++ [(key, stored)]) s' ∧
      u.run (.obj [("_id", id)]) = .ok doc ∧
      Document.withIdentity fresh doc = .ok (key, stored) := by
  have hsound := h.sound.of_update hup
  obtain ⟨c, hc, rfl⟩ := exists_of_update_ok hup
  have hm : (s.collection name).matching (.byId id) = [] := by
    rw [findOne_eq, Option.map_eq_none_iff, List.head?_eq_none_iff] at hmissing
    exact hmissing
  have hupsert : (s.collection name).upsert name fresh (.byId id) u = .ok (outcome, c) := by
    rwa [Collection.update, Collection.targetKey?_of_matching_nil hm] at hc
  obtain ⟨seed, doc, key, stored, z, hseed, hrun, hstored, hz, hnull, hkey, -, -, hc⟩ :=
    Collection.upsert_ok hupsert
  obtain rfl : .obj [("_id", id)] = seed := Except.ok.inj hseed
  rw [h.collection, List.append_assoc] at hc
  refine ⟨key, stored, doc, h.insert hsound hc ?_ ?_, hrun, hstored⟩
  · refine List.forall_mem_append.mpr ⟨h.keyed, List.forall_mem_singleton.mpr ?_⟩
    exact ⟨z, hnull, hkey⟩
  · refine List.forall_mem_append.mpr ⟨h.identified, List.forall_mem_singleton.mpr ?_⟩
    exact ⟨z, hz⟩

end Store
end DocWatch
