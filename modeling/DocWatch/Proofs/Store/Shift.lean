import DocWatch.Proofs.Query
import DocWatch.Proofs.Store.Write

/-!
# What a write does to the documents

A write that succeeds replaces one document of one collection by another one, where either of the
two may be absent (`Store.Shift`), and these are the document that was found before the write and
the one that is found by its identity after it. For this, the identities that are stored before and
after the write have to be strings: a string is equal to nothing but itself.

- `Store.Sound`: what holds of every store, whatever was written to it.
- `Store.StringIds`: all identities are strings. Such a store is keyed.
- `Store.Rewritten`, `Store.Sound.update_byId`: an update that is addressed by a string.
- `Store.insert_shift`, `Store.update_shift`, `Store.delete_shift`: the writes.
- `Store.Shift.admits_of_find_ne`: the result of a query changes only if it admits the document
  before or after.
-/

namespace DocWatch

namespace Collection

/-! ## Identities that are strings -/

/-- No key is there twice, and a document with a string for an identity lies under its key. -/
structure Sound (c : Collection) : Prop where
  distinct : (Members.keys c).Nodup
  strings : ∀ kd ∈ c, ∀ s, Document.id? kd.2 = some (.str s) → kd.1 = Identity.key (.str s)

/-- All identities are strings. -/
def StringIds (c : Collection) : Prop := ∀ kd ∈ c, ∃ s, Document.id? kd.2 = some (.str s)

theorem sound_nil : Sound [] where
  distinct := List.nodup_nil
  strings := fun _ hkd => absurd hkd List.not_mem_nil

/-- Every write keeps a collection sound: an update cannot make a string of another identity. -/
theorem Change.sound {c c' : Collection} (h : Change c c') (hs : c.Sound) : c'.Sound where
  distinct := h.nodup hs.distinct
  strings := by
    refine h.forall_mem
      (P := fun key doc => ∀ s, Document.id? doc = some (.str s) → key = Identity.key (.str s))
      (fun key doc id hid _ hkey s hstr => ?_) (fun key old new hsame hold s hstr => ?_) hs.strings
    · rw [hid, Option.some.injEq] at hstr
      rw [hkey, hstr]
    · exact hold s ((Document.id?_eq_str_iff hsame s).mp hstr)

/-- Where all identities are strings, each document lies under its own key. -/
theorem Sound.keyed {c : Collection} (hs : c.Sound) (hids : c.StringIds) : c.Keyed := by
  intro kd hkd
  obtain ⟨s, hstr⟩ := hids kd hkd
  rw [hstr, hs.strings kd hkd s hstr]
  rfl

/-- A document with a string for an identity is found by it. -/
theorem Sound.matching_byId {c : Collection} (hs : c.Sound) {key s : String} {doc : Json}
    (hmem : (key, doc) ∈ c) (hid : Document.id? doc = some (.str s)) :
    c.matching (.byId (.str s)) = [(key, doc)] := by
  have hkey : key = Identity.key (.str s) := hs.strings (key, doc) hmem s hid
  subst hkey
  exact matching_byId_str ((Members.get?_eq_some_iff hs.distinct _ doc).mpr hmem) hid

theorem documents_append (c c' : Collection) :
    documents (c ++ c') = documents c ++ documents c' := by
  rw [documents, documents, documents, List.map_append]

end Collection

namespace Store

/-- `Collection.Sound` for all collections. -/
def Sound (s : Store) : Prop := ∀ name, (s.collection name).Sound

/-- All identities in all collections are strings. -/
def StringIds (s : Store) : Prop := ∀ name, (s.collection name).StringIds

theorem stringIds_of_forall {s : Store} (h : ∀ named ∈ s, named.2.StringIds) : s.StringIds := by
  intro name
  unfold collection
  cases hc : Members.get? s name with
  | none => exact fun _ hkd => absurd hkd List.not_mem_nil
  | some c => exact h (name, c) (Members.mem_of_get? hc)

/-- A store with one document, which has a string for its identity. -/
theorem stringIds_singleton {name key t : String} {doc : Json}
    (h : Document.id? doc = some (.str t)) : Store.StringIds [(name, [(key, doc)])] := by
  refine stringIds_of_forall fun named hnamed => ?_
  rw [List.mem_singleton.mp hnamed]
  intro kd hkd
  rw [List.mem_singleton.mp hkd]
  exact ⟨t, h⟩

theorem sound_empty : Store.Sound [] := fun _ => Collection.sound_nil

theorem Sound.distinct {s : Store} (hs : s.Sound) : s.Distinct := fun name => (hs name).distinct

theorem Change.sound {s s' : Store} (h : s.Change s') (hs : s.Sound) : s'.Sound :=
  h.forall (P := Collection.Sound) (fun _ _ hc hc' => hc.sound hc') hs

/-- A store with the same documents. -/
theorem Sound.congr {s s' : Store} (hs : s.Sound)
    (hsame : ∀ name, s'.collection name = s.collection name) : s'.Sound :=
  fun name => hsame name ▸ hs name

/-- Updates keep a store sound, whether they succeed or fail. -/
theorem Sound.of_update {s s' : Store} (hs : s.Sound) {name fresh : String} {f : Filter}
    {u : Update} {upsert : Bool} {r : Except Error UpdateOutcome}
    (h : s.update name fresh f u upsert = (r, s')) : s'.Sound := by
  have hchange := (update_change hs.distinct name fresh f u upsert).sound hs
  rwa [h] at hchange

/-- A document with a string for an identity is found by it. -/
theorem Sound.findOne_byId {s : Store} (hs : s.Sound) {name key t : String} {doc : Json}
    (hmem : (key, doc) ∈ s.collection name) (hid : Document.id? doc = some (.str t)) :
    s.findOne name (.byId (.str t)) = some doc :=
  findOne_of_matching ((hs name).matching_byId hmem hid)

/-! ## Updates by identity -/

/-- In a collection, a document with a string for its identity gave way to one with the same
identity, in its place. -/
structure Rewritten (name t : String) (doc new : Json) (s s' : Store) : Prop where
  stored : (Identity.key (.str t), doc) ∈ s.collection name
  id_before : Document.id? doc = some (.str t)
  id_after : Document.id? new = some (.str t)
  collection : s'.collection name =
    Members.insert (s.collection name) (Identity.key (.str t)) new
  others : ∀ other, other ≠ name → s'.collection other = s.collection other

namespace Rewritten

variable {name t : String} {doc mid new : Json} {s s' s'' : Store}

/-- A document may give way to itself. -/
protected theorem refl (hs : s.Sound) {key : String} (hmem : (key, doc) ∈ s.collection name)
    (hid : Document.id? doc = some (.str t)) : s.Rewritten name t doc doc s := by
  obtain rfl : key = Identity.key (.str t) := (hs name).strings (key, doc) hmem t hid
  obtain ⟨l, r, hsplit⟩ := List.append_of_mem hmem
  have hl := (Members.not_mem_of_split (hsplit ▸ (hs name).distinct)).1
  refine ⟨hmem, hid, hid, ?_, fun _ _ => rfl⟩
  rw [hsplit, Members.insert_split l r _ doc doc hl]

/-- A store with the same documents. -/
theorem congr (h : s.Rewritten name t doc new s')
    (hsame : ∀ name, s''.collection name = s'.collection name) :
    s.Rewritten name t doc new s'' where
  stored := h.stored
  id_before := h.id_before
  id_after := h.id_after
  collection := (hsame name).trans h.collection
  others := fun other hne => (hsame other).trans (h.others other hne)

theorem stored_after (h : s.Rewritten name t doc new s') :
    (Identity.key (.str t), new) ∈ s'.collection name := by
  rw [h.collection]
  exact Members.mem_of_get? (by rw [Members.get?_insert, if_pos rfl])

theorem trans (h : s.Rewritten name t doc mid s') (h' : s'.Rewritten name t mid new s'') :
    s.Rewritten name t doc new s'' where
  stored := h.stored
  id_before := h.id_before
  id_after := h'.id_after
  collection := by rw [h'.collection, h.collection, Members.insert_insert]
  others := fun other hne => (h'.others other hne).trans (h.others other hne)

theorem findOne (h : s.Rewritten name t doc new s') (hs : s'.Sound) :
    s'.findOne name (.byId (.str t)) = some new :=
  hs.findOne_byId h.stored_after h.id_after

/-- The other documents stay where they are. -/
theorem exists_split (h : s.Rewritten name t doc new s') (hs : s.Sound) :
    ∃ l r, s.collection name = l ++ (Identity.key (.str t), doc) :: r ∧
      s'.collection name = l ++ (Identity.key (.str t), new) :: r := by
  obtain ⟨l, r, hsplit⟩ := List.append_of_mem h.stored
  have hl := (Members.not_mem_of_split (hsplit ▸ (hs name).distinct)).1
  refine ⟨l, r, hsplit, ?_⟩
  rw [h.collection, hsplit, Members.insert_split l r _ doc new hl]

end Rewritten

/-- An update that is addressed by a string rewrites the document with this identity, or fails with
it. -/
theorem Sound.update_byId {s : Store} (hs : s.Sound) {name key t : String} {doc : Json}
    (hmem : (key, doc) ∈ s.collection name) (hid : Document.id? doc = some (.str t))
    (fresh : String) (u : Update) (upsert : Bool) :
    (s.collection name).update name fresh (.byId (.str t)) u upsert =
      match u.run doc with
      | .error e => .error (.invalidUpdate e)
      | .ok new =>
        if Document.sameIdentity doc new then
          .ok (⟨Document.id? new, none⟩, Members.insert (s.collection name) key new)
        else .error (.invalidPayload (.identityChanged key name)) := by
  have hkey : (Document.id? doc).map Identity.key = some key := by
    rw [hid, Option.map_some, ← (hs name).strings (key, doc) hmem t hid]
  obtain ⟨l, r, hsplit, hl, hupdate⟩ := Collection.update_of_matching (hs name).distinct
    ((hs name).matching_byId hmem hid) hkey name fresh u upsert
  have hinsert : ∀ new, Members.insert (s.collection name) key new = l ++ (key, new) :: r :=
    fun new => by rw [hsplit, Members.insert_split l r key doc new hl]
  rw [hupdate]
  cases u.run doc with
  | error e => rfl
  | ok new => simp only [hinsert]

/-- An update of a document that keeps its identity succeeds if it runs. -/
theorem Sound.update_byId_ok {s : Store} (hs : s.Sound) {name key t : String} {doc new : Json}
    (hmem : (key, doc) ∈ s.collection name) (hid : Document.id? doc = some (.str t))
    {u : Update} (hrun : u.run doc = .ok new) (hnew : Document.id? new = some (.str t))
    (fresh : String) (upsert : Bool) :
    ∃ outcome, (s.update name fresh (.byId (.str t)) u upsert).1 = .ok outcome := by
  have hsame : Document.sameIdentity doc new = true := by
    rw [Document.sameIdentity_iff]
    exact ⟨_, _, hid, hnew, (Json.equiv_str_iff _ t).mpr rfl⟩
  refine ⟨⟨Document.id? new, none⟩, ?_⟩
  unfold update
  rw [hs.update_byId hmem hid fresh u upsert, hrun]
  simp only [hsame, if_true]

/-- An update of a document that succeeds has run, and its result has taken the place of the
document. -/
theorem Sound.rewritten_of_update_byId {s s' : Store} (hs : s.Sound) {name key t fresh : String}
    {doc : Json} (hmem : (key, doc) ∈ s.collection name)
    (hid : Document.id? doc = some (.str t)) {u : Update} {upsert : Bool}
    {outcome : UpdateOutcome}
    (h : s.update name fresh (.byId (.str t)) u upsert = (.ok outcome, s')) :
    ∃ new, u.run doc = .ok new ∧ s.Rewritten name t doc new s' := by
  have hkey := (hs name).strings (key, doc) hmem t hid
  unfold update at h
  rw [hs.update_byId hmem hid fresh u upsert] at h
  cases hrun : u.run doc with
  | error e =>
    rw [hrun] at h
    cases h
  | ok new =>
    rw [hrun] at h
    by_cases hsame : Document.sameIdentity doc new = true
    · simp only [hsame, if_true] at h
      obtain ⟨-, rfl⟩ := Prod.mk.inj h
      refine ⟨new, rfl, hkey ▸ hmem, hid, (Document.id?_eq_str_iff hsame t).mpr hid, ?_, ?_⟩
      · rw [collection_insert, if_pos rfl, ← hkey]
      · intro other hne
        rw [collection_insert, if_neg hne.symm]
    · simp only [hsame, Bool.false_eq_true, if_false] at h
      cases h

/-! ## Shifts -/

/-- In a collection, one document gives way to another, in its place. An absent one has no place. -/
structure Shift (name : String) (before after : Option Json) (s s' : Store) : Prop where
  replaced : ∃ l r, (s.collection name).documents = l ++ before.toList ++ r ∧
    (s'.collection name).documents = l ++ after.toList ++ r
  others : ∀ other, other ≠ name → s'.collection other = s.collection other

theorem shift_of_eq (name : String) {s s' : Store}
    (h : ∀ other, s'.collection other = s.collection other) : s.Shift name none none s' where
  replaced := ⟨(s.collection name).documents, [], by simp, by simp [h name]⟩
  others := fun other _ => h other

/-- Replacing one collection by one in which a document gave way to another. -/
theorem shift_insert {s : Store} {name : String} {c : Collection} {before after : Option Json}
    (l r : List Json) (hs : (s.collection name).documents = l ++ before.toList ++ r)
    (hc : c.documents = l ++ after.toList ++ r) :
    s.Shift name before after (Members.insert s name c) where
  replaced := by
    refine ⟨l, r, hs, ?_⟩
    rw [collection_insert, if_pos rfl]
    exact hc
  others := fun other hne => by rw [collection_insert, if_neg fun he => hne he.symm]

/-- Of a document that was rewritten nothing else has moved. -/
theorem Rewritten.shift {name t : String} {doc new : Json} {s s' : Store}
    (h : s.Rewritten name t doc new s') (hs : s.Sound) :
    s.Shift name (some doc) (some new) s' where
  replaced := by
    obtain ⟨l, r, hbefore, hafter⟩ := h.exists_split hs
    refine ⟨Collection.documents l, Collection.documents r, ?_, ?_⟩
    · rw [hbefore, Collection.documents_append, List.append_assoc]
      rfl
    · rw [hafter, Collection.documents_append, List.append_assoc]
      rfl
  others := h.others

/-- A document at the end is a document that was absent. -/
theorem shift_add (s : Store) (name key : String) (doc : Json) :
    s.Shift name none (some doc) (Members.insert s name (s.collection name ++ [(key, doc)])) := by
  refine shift_insert (s.collection name).documents [] (by simp) ?_
  rw [Collection.documents_append, List.append_nil]
  rfl

/-- Where all identities are strings, each document is found by its identity. -/
theorem Sound.findOne_of_mem {s : Store} (hs : s.Sound) (hids : s.StringIds) {name key : String}
    {doc id : Json} (hmem : (key, doc) ∈ s.collection name) (hid : Document.id? doc = some id) :
    s.findOne name (.byId id) = some doc := by
  obtain ⟨t, hstr⟩ := hids name (key, doc) hmem
  obtain rfl := Option.some.inj (hid.symm.trans hstr)
  exact hs.findOne_byId hmem hstr

/-- An insertion adds the document that is found by the identity that it answers. -/
theorem insert_shift {s s' : Store} (hs : s.Sound) {name fresh : String} {doc id : Json}
    (h : s.insert name fresh doc = (.ok id, s')) (hids : s'.StringIds) :
    s.Shift name none (s'.findOne name (.byId id)) s' := by
  have hsound : s'.Sound := by
    have hchange := (insert_change s name fresh doc).sound hs
    rwa [h] at hchange
  unfold insert at h
  cases hins : (s.collection name).insert name fresh doc with
  | error e => simp [hins] at h
  | ok r =>
    obtain ⟨id', c⟩ := r
    obtain ⟨key, stored, -, hid, -, -, -, rfl⟩ := Collection.insert_ok hins
    rw [hins] at h
    obtain ⟨hok, rfl⟩ := Prod.mk.inj h
    obtain rfl := Except.ok.inj hok
    have hmem : (key, stored) ∈ Store.collection
        (Members.insert s name (s.collection name ++ [(key, stored)])) name := by
      rw [collection_insert, if_pos rfl]
      exact List.mem_append_right _ List.mem_cons_self
    rw [hsound.findOne_of_mem hids hmem hid]
    exact shift_add s name key stored

/-- An update that finds nothing may add the document that is found by the identity that was
touched. -/
theorem update_shift_of_matching_nil {s : Store} {name fresh : String} {f : Filter} {u : Update}
    {upsert : Bool} {outcome : UpdateOutcome} {c : Collection}
    (hm : (s.collection name).matching f = [])
    (hup : (s.collection name).update name fresh f u upsert = .ok (outcome, c))
    (hfound : ∀ key doc id, (key, doc) ∈ c → Document.id? doc = some id →
      findOne (Members.insert s name c) name (.byId id) = some doc) :
    s.Shift name none (outcome.touched.bind fun id =>
      findOne (Members.insert s name c) name (.byId id)) (Members.insert s name c) := by
  unfold Collection.update at hup
  rw [Collection.targetKey?_of_matching_nil hm] at hup
  cases upsert with
  | false =>
    obtain ⟨rfl, rfl⟩ := Prod.mk.inj (Except.ok.inj hup)
    exact shift_of_eq name (collection_insert_self s name)
  | true =>
    obtain ⟨_, _, key, stored, id, -, -, -, hid, -, -, -, rfl, rfl⟩ := Collection.upsert_ok hup
    show s.Shift name none (Store.findOne _ name (.byId id)) _
    rw [hfound key stored id (List.mem_append_right _ List.mem_cons_self) hid]
    exact shift_add s name key stored

/-- An update that finds a document under its own key turns it into the one that is found by the
identity that was touched. -/
theorem update_shift_of_matching {s : Store} (hs : s.Sound) {name fresh key : String}
    {f : Filter} {u : Update} {upsert : Bool} {outcome : UpdateOutcome} {c rest : Collection}
    {doc : Json} (hm : (s.collection name).matching f = (key, doc) :: rest)
    (hkey : (Document.id? doc).map Identity.key = some key)
    (hup : (s.collection name).update name fresh f u upsert = .ok (outcome, c))
    (hfound : ∀ key doc id, (key, doc) ∈ c → Document.id? doc = some id →
      findOne (Members.insert s name c) name (.byId id) = some doc) :
    s.Shift name (some doc) (outcome.touched.bind fun id =>
      findOne (Members.insert s name c) name (.byId id)) (Members.insert s name c) := by
  obtain ⟨l, r, hc, -, hupdate⟩ := Collection.update_of_matching (hs name).distinct hm hkey name
    fresh u upsert
  rw [hupdate] at hup
  cases hrun : u.run doc with
  | error e => simp [hrun] at hup
  | ok new =>
    rw [hrun] at hup
    by_cases hsame : Document.sameIdentity doc new = true
    · simp only [hsame, if_true] at hup
      obtain ⟨rfl, rfl⟩ := Prod.mk.inj (Except.ok.inj hup)
      obtain ⟨_, id, -, hid, -⟩ := (Document.sameIdentity_iff doc new).mp hsame
      -- the touched identity is the one of the rewritten document
      have htouched : UpdateOutcome.touched ⟨Document.id? new, none⟩ = some id := by
        rw [UpdateOutcome.touched, hid]
        rfl
      rw [htouched, Option.bind_some,
        hfound key new id (List.mem_append_right l List.mem_cons_self) hid]
      refine shift_insert (Collection.documents l) (Collection.documents r) ?_ ?_
      · rw [hc, Collection.documents_append, List.append_assoc]
        rfl
      · rw [Collection.documents_append, List.append_assoc]
        rfl
    · simp [hsame] at hup

/-- An update changes the document that the filter finds into the one that is found by the identity
that was touched. -/
theorem update_shift {s s' : Store} (hs : s.Sound) (hids : s.StringIds) {name fresh : String}
    {f : Filter} {u : Update} {upsert : Bool} {outcome : UpdateOutcome}
    (h : s.update name fresh f u upsert = (.ok outcome, s')) (hids' : s'.StringIds) :
    s.Shift name (s.findOne name f)
      (outcome.touched.bind fun id => s'.findOne name (.byId id)) s' := by
  have hsound : s'.Sound := hs.of_update h
  obtain ⟨c, hup, rfl⟩ := exists_of_update_ok h
  -- what is stored afterwards is found by its identity
  have hfound : ∀ key doc id, (key, doc) ∈ c → Document.id? doc = some id →
      findOne (Members.insert s name c) name (.byId id) = some doc := by
    intro key doc id hmem hid
    have hstored : (key, doc) ∈ Store.collection (Members.insert s name c) name := by
      rw [collection_insert, if_pos rfl]
      exact hmem
    exact hsound.findOne_of_mem hids' hstored hid
  cases hm : (s.collection name).matching f with
  | nil =>
    rw [findOne_of_matching_nil hm]
    exact update_shift_of_matching_nil hm hup hfound
  | cons kd rest =>
    rw [findOne_of_matching hm]
    exact update_shift_of_matching hs hm (((hs name).keyed (hids name)).of_matching hm) hup
      hfound

/-- A deletion takes out the document that it answers. -/
theorem delete_shift {s : Store} (hs : s.Sound) (hids : s.StringIds) (name : String) (f : Filter) :
    s.Shift name (s.delete name f).1 none (s.delete name f).2 := by
  have hkeyed := (hs name).keyed (hids name)
  cases hm : (s.collection name).matching f with
  | nil =>
    have hnone : (s.collection name).delete f = none := by
      unfold Collection.delete
      rw [Collection.targetKey?_of_matching_nil hm]
      rfl
    unfold delete
    rw [hnone]
    exact shift_of_eq name fun _ => rfl
  | cons kd rest =>
    obtain ⟨key, doc⟩ := kd
    obtain ⟨l, r, hc, hdel⟩ := Collection.delete_of_matching (hs name).distinct hm
      (hkeyed.of_matching hm)
    unfold delete
    rw [hdel]
    refine shift_insert (Collection.documents l) (Collection.documents r) ?_ ?_
    · rw [hc, Collection.documents_append, List.append_assoc]
      rfl
    · rw [Collection.documents_append]
      simp

/-! ## What a live filter finds -/

/-- A live filter finds the documents that it selects, in order. -/
theorem find_live (s : Store) (name : String) (f : Filter) :
    s.find name f.live = (s.collection name).documents.filter fun doc => f.live.selects doc := by
  rw [find, Collection.matching_of_idEquality?_none _ (Filter.idEquality?_live f),
    Collection.documents, Collection.documents, List.filter_map]
  rfl

/-- The result of a live filter changes only if it selects the document before or the one after. -/
theorem Shift.selects_of_find_ne {name : String} {before after : Option Json} {s s' : Store}
    (h : s.Shift name before after s') {collection : String} {f : Filter}
    (hne : s.find collection f.live ≠ s'.find collection f.live) :
    collection = name ∧
      ∃ doc, (before = some doc ∨ after = some doc) ∧ f.live.selects doc = true := by
  by_cases hname : collection = name
  · refine ⟨hname, ?_⟩
    by_contra hnone
    push Not at hnone
    obtain ⟨l, r, hs, hs'⟩ := h.replaced
    refine hne ?_
    have hbefore : before.toList.filter (fun doc => f.live.selects doc) = [] := by
      rw [List.filter_eq_nil_iff]
      exact fun doc hdoc => hnone doc (.inl (Option.mem_toList.mp hdoc))
    have hafter : after.toList.filter (fun doc => f.live.selects doc) = [] := by
      rw [List.filter_eq_nil_iff]
      exact fun doc hdoc => hnone doc (.inr (Option.mem_toList.mp hdoc))
    rw [find_live, find_live, hname, hs, hs']
    simp only [List.filter_append, hbefore, hafter]
  · refine absurd ?_ hne
    rw [find_live, find_live, h.others collection hname]

/-- The result of a query changes only if it admits the document before or the one after. -/
theorem Shift.admits_of_find_ne {name : String} {before after : Option Json} {s s' : Store}
    (h : s.Shift name before after s') {collection : String} {q : Query}
    (hne : s.find collection q.filter.live ≠ s'.find collection q.filter.live) :
    collection = name ∧ (q.admits before = true ∨ q.admits after = true) := by
  obtain ⟨hname, doc, hdoc, hlive⟩ := h.selects_of_find_ne hne
  obtain ⟨hdeleted, hselects⟩ := Filter.selects_of_live hlive
  refine ⟨hname, ?_⟩
  rw [Query.admits_iff, Query.admits_iff]
  exact hdoc.imp (fun hb => ⟨doc, hb, hdeleted, hselects⟩) fun ha => ⟨doc, ha, hdeleted, hselects⟩

end Store

end DocWatch
