import DocWatch.Proofs.Store.Lists
import DocWatch.Proofs.Update.Avoids

/-!
# Documents that stay marked as deleted

A document that is marked as deleted and has a string for its identity keeps its key, so that no
other document with this identity can be added beside it. Writes reach it like any other document;
it stays marked if their updates do not take marks away.

- `Collection.Buried`: the documents with an identity are there and are marked.
- `Collection.Buried.insert`, `Collection.Buried.update`, `Collection.Buried.delete`: writes keep
  it so.
- `Store.Buried.exists_split`: there is one such document.
- `Store.Buried.not_found`: no live filter finds it.
-/

namespace DocWatch

namespace Collection

/-- There are documents with this identity, and all of them are marked as deleted. -/
structure Buried (c : Collection) (i : String) : Prop where
  stored : ∃ kd ∈ c, Document.id? kd.2 = some (.str i)
  marked : ∀ kd ∈ c, Document.id? kd.2 = some (.str i) → Document.isDeleted kd.2 = true

variable {c c' : Collection} {i : String}

/-- The key of the identity is taken. -/
theorem Buried.mem_keys (h : c.Buried i) (hs : c.Sound) :
    Identity.key (.str i) ∈ Members.keys c := by
  obtain ⟨kd, hmem, hid⟩ := h.stored
  rw [← hs.strings kd hmem i hid]
  exact Members.mem_keys_of_mem hmem

/-- A document that is added has another identity. -/
theorem Buried.add (h : c.Buried i) (hs : c.Sound) {key : String} {doc id : Json}
    (hnew : key ∉ Members.keys c) (hid : Document.id? doc = some id)
    (hkey : key = Identity.key id) : Buried (c ++ [(key, doc)]) i := by
  obtain ⟨kd, hmem, hstr⟩ := h.stored
  refine ⟨⟨kd, List.mem_append_left _ hmem, hstr⟩, fun kd' hmem' hstr' => ?_⟩
  rcases List.mem_append.mp hmem' with hold | hadded
  · exact h.marked kd' hold hstr'
  · rw [List.mem_singleton.mp hadded, hid] at hstr'
    rw [hkey, Option.some.inj hstr'] at hnew
    exact absurd (h.mem_keys hs) hnew

/-- A document keeps its identity, and its mark too. -/
theorem Buried.rewrite {l r : Collection} {key : String} {old new : Json}
    (h : Buried (l ++ (key, old) :: r) i) (hsame : Document.sameIdentity old new = true)
    (hmark : Document.isDeleted old = true → Document.isDeleted new = true) :
    Buried (l ++ (key, new) :: r) i := by
  have hiff := Document.id?_eq_str_iff hsame i
  constructor
  · obtain ⟨kd, hmem, hstr⟩ := h.stored
    rcases List.mem_append.mp hmem with hl | hr
    · exact ⟨kd, List.mem_append_left _ hl, hstr⟩
    rcases List.mem_cons.mp hr with rfl | hr
    · exact ⟨(key, new), List.mem_append_right l List.mem_cons_self, hiff.mpr hstr⟩
    · exact ⟨kd, List.mem_append_right l (List.mem_cons_of_mem _ hr), hstr⟩
  · intro kd hmem hstr
    rcases List.mem_append.mp hmem with hl | hr
    · exact h.marked kd (List.mem_append_left _ hl) hstr
    rcases List.mem_cons.mp hr with rfl | hr
    · exact hmark (h.marked (key, old) (List.mem_append_right l List.mem_cons_self)
        (hiff.mp hstr))
    · exact h.marked kd (List.mem_append_right l (List.mem_cons_of_mem _ hr)) hstr

/-- Another document is taken out. -/
theorem Buried.drop {l r : Collection} {key : String} {doc : Json}
    (h : Buried (l ++ (key, doc) :: r) i) (hne : Document.id? doc ≠ some (.str i)) :
    Buried (l ++ r) i := by
  have hsub : ∀ kd ∈ l ++ r, kd ∈ l ++ (key, doc) :: r :=
    fun kd hkd => ((List.sublist_cons_self _ r).append_left l).subset hkd
  obtain ⟨kd, hmem, hstr⟩ := h.stored
  refine ⟨⟨kd, ?_, hstr⟩, fun kd' hmem' => h.marked kd' (hsub kd' hmem')⟩
  rcases List.mem_append.mp hmem with hl | hr
  · exact List.mem_append_left _ hl
  rcases List.mem_cons.mp hr with rfl | hr
  · exact absurd hstr hne
  · exact List.mem_append_right l hr

/-! ## Writes -/

theorem Buried.insert (h : c.Buried i) (hs : c.Sound) {name fresh : String} {doc id : Json}
    (hins : c.insert name fresh doc = .ok (id, c')) : c'.Buried i := by
  obtain ⟨key, stored, -, hid, -, hkey, hnew, rfl⟩ := insert_ok hins
  exact h.add hs hnew hid hkey

theorem Buried.update (h : c.Buried i) (hs : c.Sound) {name fresh : String} {f : Filter}
    {u : Update} (hu : u.KeepsMark) {upsert : Bool} {outcome : UpdateOutcome}
    (hup : c.update name fresh f u upsert = .ok (outcome, c')) : c'.Buried i := by
  unfold Collection.update at hup
  cases htarget : c.targetKey? f with
  | some key =>
    rw [htarget] at hup
    obtain ⟨-, rfl⟩ | ⟨l, r, old, new, id, rfl, hrun, hsame, -, -, rfl⟩ :=
      replace_ok hs.distinct hup
    · exact h
    · exact h.rewrite hsame (hu old new hrun)
  | none =>
    rw [htarget] at hup
    cases upsert with
    | true =>
      obtain ⟨_, _, key, stored, id, -, -, -, hid, -, hkey, hnew, -, rfl⟩ := upsert_ok hup
      exact h.add hs hnew hid hkey
    | false =>
      obtain ⟨-, rfl⟩ := Prod.mk.inj (Except.ok.inj hup)
      exact h

theorem Buried.delete (h : c.Buried i) (hs : c.Sound) {f : Filter} {doc : Json}
    (hdel : c.delete f = some (doc, c')) (hne : Document.id? doc ≠ some (.str i)) :
    c'.Buried i := by
  obtain ⟨l, r, key, rfl, rfl⟩ := delete_ok hs.distinct hdel
  exact h.drop hne

end Collection

namespace Store

/-- `Collection.Buried` in a collection of the store. -/
def Buried (s : Store) (name i : String) : Prop := (s.collection name).Buried i

variable {s : Store} {name i : String}

/-- Replacing this collection or another one. -/
theorem Buried.insert_collection (h : s.Buried name i) {name' : String} {c : Collection}
    (hc : name' = name → c.Buried i) : Store.Buried (Members.insert s name' c) name i := by
  unfold Buried
  rw [collection_insert]
  by_cases hname : name' = name
  · rw [if_pos hname]
    exact hc hname
  · rw [if_neg hname]
    exact h

theorem Buried.insert (h : s.Buried name i) (hs : s.Sound) (name' fresh : String) (doc : Json) :
    (s.insert name' fresh doc).2.Buried name i := by
  unfold Store.insert
  cases hins : (s.collection name').insert name' fresh doc with
  | error e => exact h
  | ok r =>
    refine h.insert_collection fun hname => ?_
    subst hname
    exact Collection.Buried.insert h (hs name') hins

theorem Buried.update (h : s.Buried name i) (hs : s.Sound) (name' fresh : String) (f : Filter)
    {u : Update} (hu : u.KeepsMark) (upsert : Bool) :
    (s.update name' fresh f u upsert).2.Buried name i := by
  unfold Store.update
  cases hup : (s.collection name').update name' fresh f u upsert with
  | error e => exact h.insert_collection fun hname => hname ▸ h
  | ok r =>
    refine h.insert_collection fun hname => ?_
    subst hname
    exact Collection.Buried.update h (hs name') hu hup

theorem Buried.delete (h : s.Buried name i) (hs : s.Sound) {name' : String} {f : Filter}
    (hspared : name' = name → ∀ doc, (s.delete name' f).1 = some doc →
      Document.id? doc ≠ some (.str i)) : (s.delete name' f).2.Buried name i := by
  unfold Store.delete at hspared ⊢
  cases hdel : (s.collection name').delete f with
  | none => exact h
  | some r =>
    rw [hdel] at hspared
    refine h.insert_collection fun hname => ?_
    have hne := hspared hname r.1 rfl
    subst hname
    exact Collection.Buried.delete h (hs name') hdel hne

/-! ## What readers see -/

/-- There is one such document, and it is marked. -/
theorem Buried.exists_split (h : s.Buried name i) (hs : s.Sound) :
    ∃ l doc r, s.lists name = l ++ doc :: r ∧ Document.id? doc = some (.str i) ∧
      Document.isDeleted doc = true ∧ ∀ other ∈ l ++ r, Document.id? other ≠ some (.str i) := by
  obtain ⟨kd, hmem, hid⟩ := h.stored
  have hmarked := h.marked kd hmem hid
  have hkey := (hs name).strings kd hmem i hid
  obtain ⟨key, doc⟩ := kd
  obtain ⟨l, r, hc⟩ := List.append_of_mem hmem
  have hnd := (hs name).distinct
  rw [hc] at hnd
  obtain ⟨hl, hr⟩ := Members.not_mem_of_split hnd
  refine ⟨l.map Prod.snd, doc, r.map Prod.snd, ?_, hid, hmarked, ?_⟩
  · rw [lists_eq, Collection.documents, hc, List.map_append, List.map_cons]
  · intro other hother hid'
    -- another document with this identity would lie under the same key
    rw [← List.map_append] at hother
    obtain ⟨kd', hmem', rfl⟩ := List.mem_map.mp hother
    have hmemc : kd' ∈ s.collection name := by
      rw [hc]
      exact ((List.sublist_cons_self _ r).append_left l).subset hmem'
    have hkey' : kd'.1 = key := ((hs name).strings kd' hmemc i hid').trans hkey.symm
    rcases List.mem_append.mp hmem' with hl' | hr'
    · exact hl (hkey' ▸ Members.mem_keys_of_mem hl')
    · exact hr (hkey' ▸ Members.mem_keys_of_mem hr')

/-- What a filter finds is in the collection, and is selected by the filter. -/
theorem mem_of_mem_find {f : Filter} {doc : Json} (h : doc ∈ s.find name f) :
    ∃ key, (key, doc) ∈ s.collection name ∧ f.selects doc = true := by
  obtain ⟨⟨key, doc'⟩, hmem, rfl⟩ := List.mem_map.mp h
  obtain ⟨hstored, hselects⟩ := Collection.mem_of_mem_matching hmem
  exact ⟨key, hstored, hselects⟩

/-- No live filter finds it. -/
theorem Buried.not_found (h : s.Buried name i) (f : Filter) {doc : Json}
    (hdoc : doc ∈ s.find name f.live) : Document.id? doc ≠ some (.str i) := by
  intro hid
  obtain ⟨key, hmem, hselects⟩ := mem_of_mem_find hdoc
  have hlive := (Filter.selects_of_live hselects).1
  rw [h.marked (key, doc) hmem hid] at hlive
  cases hlive

end Store
end DocWatch
