import DocWatch.Proofs.Identity

/-!
# What a write does to a collection

A write of the store changes at most one place of one collection. `Collection.Change` says what may
happen there; every write is such a change, whatever the collection looked like before, so that an
invariant of stores has to be checked against four cases and not against the writes.

- `Collection.Change`: nothing, one more document at the end, one document rewritten in its place,
  or one document less.
- `Collection.insert_change`, `Collection.update_change`, `Collection.delete_change`: the writes.
- `Collection.Keyed`: each document lies under the key of its own identity. Updates and deletions
  of such a document act on it when the filter finds it first (`update_of_matching`,
  `delete_of_matching`).
- `Store.collection_insert`: a write leaves the other collections alone.
-/

namespace DocWatch

namespace Collection

/-! ## What a filter finds -/

/-- What is found is stored, under the key that it is found with, and the filter selects it. -/
theorem mem_of_mem_matching {c : Collection} {f : Filter} {kd : String × Json}
    (h : kd ∈ c.matching f) : kd ∈ c ∧ f.selects kd.2 = true := by
  unfold matching at h
  cases hid : f.idEquality? with
  | none =>
    rw [hid] at h
    exact List.mem_filter.mp h
  | some id =>
    rw [hid] at h
    simp only at h
    -- a filter for one identity looks under one key
    cases hget : Members.get? c (Identity.key id) with
    | none =>
      rw [hget] at h
      exact absurd h List.not_mem_nil
    | some doc =>
      rw [hget] at h
      by_cases hs : f.selects doc = true
      · simp only [hs, if_true, List.mem_singleton] at h
        rw [h]
        exact ⟨Members.mem_of_get? hget, hs⟩
      · simp only [hs, Bool.false_eq_true, if_false] at h
        exact absurd h List.not_mem_nil

/-- A filter that does not go through the identity finds what it selects, in order. -/
theorem matching_of_idEquality?_none (c : Collection) {f : Filter} (h : f.idEquality? = none) :
    c.matching f = List.filter (fun kd => f.selects kd.2) c := by
  unfold matching
  rw [h]

/-- A string identity is found under its key. -/
theorem matching_byId_str {c : Collection} {s : String} {doc : Json}
    (hget : Members.get? c (Identity.key (.str s)) = some doc)
    (hid : Document.id? doc = some (.str s)) :
    c.matching (.byId (.str s)) = [(Identity.key (.str s), doc)] := by
  unfold matching
  rw [Filter.idEquality?_byId_str]
  simp only [hget, (Filter.byId_selects_str hid (.str s)).mpr rfl, if_true]

/-! ## Changes -/

/-- What one write may do to a collection. -/
inductive Change (c : Collection) : Collection → Prop
  /-- Nothing changes. -/
  | keep : Change c c
  /-- A document with a new key is added. -/
  | add (key : String) (doc id : Json) : key ∉ Members.keys c → Document.id? doc = some id →
      id ≠ .null → key = Identity.key id → Change c (c ++ [(key, doc)])
  /-- A document gives way to one with an identity that is equal to a query. -/
  | rewrite (l r : Collection) (key : String) (old new : Json) : c = l ++ (key, old) :: r →
      Document.sameIdentity old new = true → Change c (l ++ (key, new) :: r)
  /-- A document disappears. -/
  | drop (l r : Collection) (key : String) (old : Json) : c = l ++ (key, old) :: r →
      Change c (l ++ r)

/-- An insertion that succeeds adds the document that it answers the identity of. -/
theorem insert_ok {name fresh : String} {doc id : Json} {c c' : Collection}
    (h : c.insert name fresh doc = .ok (id, c')) :
    ∃ key stored, Document.withIdentity fresh doc = .ok (key, stored) ∧
      Document.id? stored = some id ∧ id ≠ .null ∧ key = Identity.key id ∧
      key ∉ Members.keys c ∧ c' = c ++ [(key, stored)] := by
  unfold insert at h
  cases hw : Document.withIdentity fresh doc with
  | error e => simp [hw] at h
  | ok ks =>
    obtain ⟨key, stored⟩ := ks
    simp only [hw] at h
    cases hc : Members.contains c key with
    | true => simp [hc] at h
    | false =>
      simp only [hc, Bool.false_eq_true, if_false] at h
      obtain ⟨hid', rfl⟩ := Prod.mk.inj (Except.ok.inj h)
      obtain ⟨id', hid, hnull, hkey⟩ := Document.withIdentity_ok hw
      have hmem := (Members.contains_eq_false_iff c key).mp hc
      rw [hid, Option.getD_some] at hid'
      subst hid'
      exact ⟨key, stored, rfl, hid, hnull, hkey, hmem,
        Members.insert_of_not_mem c key stored hmem⟩

theorem insert_change {name fresh : String} {doc id : Json} {c c' : Collection}
    (h : c.insert name fresh doc = .ok (id, c')) : Change c c' := by
  obtain ⟨key, stored, -, hid, hnull, hkey, hmem, rfl⟩ := insert_ok h
  exact .add key stored id hmem hid hnull hkey

/-- An upsert that succeeds adds the updated seed of the filter. -/
theorem upsert_ok {name fresh : String} {f : Filter} {u : Update} {c c' : Collection}
    {outcome : UpdateOutcome} (h : c.upsert name fresh f u = .ok (outcome, c')) :
    ∃ seed doc key stored id, f.seed = .ok seed ∧ u.run seed = .ok doc ∧
      Document.withIdentity fresh doc = .ok (key, stored) ∧ Document.id? stored = some id ∧
      id ≠ .null ∧ key = Identity.key id ∧ key ∉ Members.keys c ∧ outcome = ⟨none, some id⟩ ∧
      c' = c ++ [(key, stored)] := by
  unfold upsert at h
  cases hs : f.seed with
  | error e => simp [hs] at h
  | ok seed =>
    simp only [hs] at h
    cases hu : u.run seed with
    | error e => simp [hu] at h
    | ok doc =>
      simp only [hu] at h
      cases hw : Document.withIdentity fresh doc with
      | error e => simp [hw] at h
      | ok ks =>
        obtain ⟨key, stored⟩ := ks
        simp only [hw] at h
        cases hc : Members.contains c key with
        | true => simp [hc] at h
        | false =>
          simp only [hc, Bool.false_eq_true, if_false] at h
          obtain ⟨rfl, rfl⟩ := Prod.mk.inj (Except.ok.inj h)
          obtain ⟨id, hid, hnull, hkey⟩ := Document.withIdentity_ok hw
          have hmem := (Members.contains_eq_false_iff c key).mp hc
          exact ⟨seed, doc, key, stored, id, rfl, hu, hw, hid, hnull, hkey, hmem, by rw [hid],
            Members.insert_of_not_mem c key stored hmem⟩

theorem upsert_change {name fresh : String} {f : Filter} {u : Update} {c c' : Collection}
    {outcome : UpdateOutcome} (h : c.upsert name fresh f u = .ok (outcome, c')) : Change c c' := by
  obtain ⟨_, _, key, stored, id, -, -, -, hid, hnull, hkey, hmem, -, rfl⟩ := upsert_ok h
  exact .add key stored id hmem hid hnull hkey

/-- The first binding of a key, with what stands before and after it. -/
theorem exists_split_of_get? {c : Collection} (hnd : (Members.keys c).Nodup) {key : String}
    {doc : Json} (h : Members.get? c key = some doc) :
    ∃ l r, c = l ++ (key, doc) :: r ∧ key ∉ Members.keys l := by
  obtain ⟨l, r, rfl⟩ := List.append_of_mem (Members.mem_of_get? h)
  exact ⟨l, r, rfl, (Members.not_mem_of_split hnd).1⟩

/-- Replacing under a key finds nothing there, or rewrites the document in its place. -/
theorem replace_ok {name key : String} {u : Update} {c c' : Collection}
    {outcome : UpdateOutcome} (hnd : (Members.keys c).Nodup)
    (h : c.replace name key u = .ok (outcome, c')) :
    (outcome = .nothing ∧ c' = c) ∨
      ∃ l r old new id, c = l ++ (key, old) :: r ∧ u.run old = .ok new ∧
        Document.sameIdentity old new = true ∧ Document.id? new = some id ∧
        outcome = ⟨some id, none⟩ ∧ c' = l ++ (key, new) :: r := by
  unfold replace at h
  cases hget : Members.get? c key with
  | none =>
    rw [hget] at h
    obtain ⟨rfl, rfl⟩ := Prod.mk.inj (Except.ok.inj h)
    exact .inl ⟨rfl, rfl⟩
  | some old =>
    simp only [hget] at h
    cases hu : u.run old with
    | error e => simp [hu] at h
    | ok new =>
      simp only [hu] at h
      by_cases hsame : Document.sameIdentity old new = true
      · rw [if_pos hsame] at h
        obtain ⟨rfl, rfl⟩ := Prod.mk.inj (Except.ok.inj h)
        obtain ⟨l, r, hsplit, hl⟩ := exists_split_of_get? hnd hget
        obtain ⟨_, id, -, hid, -⟩ := (Document.sameIdentity_iff old new).mp hsame
        refine .inr ⟨l, r, old, new, id, hsplit, hu, hsame, hid, by rw [hid], ?_⟩
        rw [hsplit, Members.insert_split l r key old new hl]
      · rw [if_neg hsame] at h
        exact absurd h (by simp)

theorem replace_change {name key : String} {u : Update} {c c' : Collection}
    {outcome : UpdateOutcome} (hnd : (Members.keys c).Nodup)
    (h : c.replace name key u = .ok (outcome, c')) : Change c c' := by
  obtain ⟨-, rfl⟩ | ⟨l, r, old, new, _, hc, -, hsame, -, -, rfl⟩ := replace_ok hnd h
  · exact .keep
  · exact .rewrite l r key old new hc hsame

theorem update_change {name fresh : String} {f : Filter} {u : Update} {upsert : Bool}
    {c c' : Collection} {outcome : UpdateOutcome} (hnd : (Members.keys c).Nodup)
    (h : c.update name fresh f u upsert = .ok (outcome, c')) : Change c c' := by
  unfold update at h
  cases htarget : c.targetKey? f with
  | some key =>
    rw [htarget] at h
    exact replace_change hnd h
  | none =>
    rw [htarget] at h
    cases upsert with
    | true => exact upsert_change h
    | false =>
      obtain ⟨-, rfl⟩ := Prod.mk.inj (Except.ok.inj h)
      exact .keep

/-- A deletion takes out the document that it answers. -/
theorem delete_ok {f : Filter} {c c' : Collection} {doc : Json}
    (hnd : (Members.keys c).Nodup) (h : c.delete f = some (doc, c')) :
    ∃ l r key, c = l ++ (key, doc) :: r ∧ c' = l ++ r := by
  unfold delete at h
  cases htarget : c.targetKey? f with
  | none => simp [htarget] at h
  | some key =>
    cases hget : Members.get? c key with
    | none => simp [htarget, hget] at h
    | some old =>
      simp only [htarget, hget, Option.bind_eq_bind, Option.bind_some, Option.pure_def,
        Option.some.injEq, Prod.mk.injEq] at h
      obtain ⟨rfl, rfl⟩ := h
      obtain ⟨l, r, rfl, -⟩ := exists_split_of_get? hnd hget
      exact ⟨l, r, key, rfl, Members.remove_split hnd⟩

theorem delete_change {f : Filter} {c c' : Collection} {doc : Json}
    (hnd : (Members.keys c).Nodup) (h : c.delete f = some (doc, c')) : Change c c' := by
  obtain ⟨l, r, key, hc, rfl⟩ := delete_ok hnd h
  exact .drop l r key doc hc

/-! ## Keys stay distinct -/

theorem Change.nodup {c c' : Collection} (h : Change c c') (hnd : (Members.keys c).Nodup) :
    (Members.keys c').Nodup := by
  cases h with
  | keep => exact hnd
  | add key doc id hnew _ _ _ =>
    rw [Members.keys_append]
    refine List.nodup_append.mpr ⟨hnd, List.nodup_singleton key, fun k hk k' hk' he => ?_⟩
    rw [he, List.mem_singleton.mp hk'] at hk
    exact hnew hk
  | rewrite l r key old new hc _ =>
    subst hc
    simpa only [Members.keys_append, Members.keys_cons] using hnd
  | drop l r key old hc =>
    subst hc
    rw [Members.keys_append]
    rw [Members.keys_append, Members.keys_cons] at hnd
    exact hnd.sublist ((List.Sublist.refl _).append (List.sublist_cons_self key _))

/-! ## What holds of every binding -/

/-- What a new value keeps, rewriting keeps of every document, with its key. -/
theorem forall_mem_rewrite {P : String → Json → Prop} {l r : Collection} {key : String}
    {old new : Json} (hnew : P key old → P key new)
    (hall : ∀ kd ∈ l ++ (key, old) :: r, P kd.1 kd.2) :
    ∀ kd ∈ l ++ (key, new) :: r, P kd.1 kd.2 := by
  rw [List.forall_mem_append, List.forall_mem_cons] at hall ⊢
  exact ⟨hall.1, hnew hall.2.1, hall.2.2⟩

/-- What holds of each document that is added and is kept by rewriting holds of every document,
with its key. -/
theorem Change.forall_mem {P : String → Json → Prop}
    (hadd : ∀ key doc id, Document.id? doc = some id → id ≠ .null → key = Identity.key id →
      P key doc)
    (hrewrite : ∀ key old new, Document.sameIdentity old new = true → P key old → P key new)
    {c c' : Collection} (h : Change c c') (hall : ∀ kd ∈ c, P kd.1 kd.2) :
    ∀ kd ∈ c', P kd.1 kd.2 := by
  cases h with
  | keep => exact hall
  | add key doc id _ hid hne hkey =>
    intro kd hmem
    rcases List.mem_append.mp hmem with hold | hnew
    · exact hall kd hold
    · rw [List.mem_singleton.mp hnew]
      exact hadd key doc id hid hne hkey
  | rewrite l r key old new hc hsame =>
    exact forall_mem_rewrite (hrewrite key old new hsame) (hc ▸ hall)
  | drop l r key old hc =>
    intro kd hmem
    subst hc
    rcases List.mem_append.mp hmem with hl | hr
    · exact hall kd (List.mem_append_left _ hl)
    · exact hall kd (List.mem_append_right l (List.mem_cons_of_mem _ hr))

/-! ## Documents under their own keys -/

/-- Each document lies under the key of its own identity. -/
def Keyed (c : Collection) : Prop :=
  ∀ kd ∈ c, (Document.id? kd.2).map Identity.key = some kd.1

/-- Adding a document under its own key. -/
theorem Keyed.add {c : Collection} (hk : c.Keyed) {key : String} {doc id : Json}
    (hid : Document.id? doc = some id) (hkey : key = Identity.key id) :
    Keyed (c ++ [(key, doc)]) := by
  intro kd hmem
  rcases List.mem_append.mp hmem with h | h
  · exact hk kd h
  · rw [List.mem_singleton.mp h, hid, hkey]
    rfl

/-- Rewriting a document keeps a collection keyed exactly when the new identity has the same
key. -/
theorem keyed_rewrite_iff {l r : Collection} {key : String} {old new : Json}
    (hk : Keyed (l ++ (key, old) :: r)) :
    Keyed (l ++ (key, new) :: r) ↔ (Document.id? new).map Identity.key = some key := by
  constructor
  · intro h
    exact h (key, new) (List.mem_append_right l List.mem_cons_self)
  · intro h kd hmem
    rcases List.mem_append.mp hmem with hl | hr
    · exact hk kd (List.mem_append_left _ hl)
    · rcases List.mem_cons.mp hr with rfl | hr
      · exact h
      · exact hk kd (List.mem_append_right l (List.mem_cons_of_mem _ hr))

/-- Dropping a document. -/
theorem Keyed.drop {l r : Collection} {kd : String × Json} (hk : Keyed (l ++ kd :: r)) :
    Keyed (l ++ r) := by
  intro kd' hmem
  rcases List.mem_append.mp hmem with h | h
  · exact hk kd' (List.mem_append_left _ h)
  · exact hk kd' (List.mem_append_right l (List.mem_cons_of_mem _ h))

/-- What is found in a keyed collection lies under its own key. -/
theorem Keyed.of_matching {c : Collection} (hk : c.Keyed) {f : Filter} {key : String} {doc : Json}
    {rest : Collection} (h : c.matching f = (key, doc) :: rest) :
    (Document.id? doc).map Identity.key = some key := by
  have hmem : (key, doc) ∈ c.matching f := by
    rw [h]
    exact List.mem_cons_self
  exact hk (key, doc) (mem_of_mem_matching hmem).1

/-- A write goes to the key of the present identity of the document that is found first. -/
theorem targetKey?_of_matching {c : Collection} {f : Filter} {key : String} {doc : Json}
    {rest : Collection} (h : c.matching f = (key, doc) :: rest) :
    c.targetKey? f = (Document.id? doc).map Identity.key := by
  unfold targetKey?
  rw [h]

theorem targetKey?_of_matching_nil {c : Collection} {f : Filter} (h : c.matching f = []) :
    c.targetKey? f = none := by
  unfold targetKey?
  rw [h]

/-- The document that a filter finds first, with what stands before and after it. -/
theorem exists_split_of_matching {c : Collection} (hnd : (Members.keys c).Nodup) {f : Filter}
    {key : String} {doc : Json} {rest : Collection} (h : c.matching f = (key, doc) :: rest) :
    ∃ l r, c = l ++ (key, doc) :: r ∧ key ∉ Members.keys l ∧ Members.get? c key = some doc := by
  have hmem : (key, doc) ∈ c.matching f := by
    rw [h]
    exact List.mem_cons_self
  have hget := (Members.get?_eq_some_iff hnd key doc).mpr (mem_of_mem_matching hmem).1
  obtain ⟨l, r, hc, hl⟩ := exists_split_of_get? hnd hget
  exact ⟨l, r, hc, hl, hget⟩

/-- An update rewrites the document that is found first, in its place, or fails, if that document
lies under its own key. -/
theorem update_of_matching {c : Collection} (hnd : (Members.keys c).Nodup) {f : Filter}
    {key : String} {doc : Json} {rest : Collection} (h : c.matching f = (key, doc) :: rest)
    (hk : (Document.id? doc).map Identity.key = some key) (name fresh : String) (u : Update)
    (upsert : Bool) :
    ∃ l r, c = l ++ (key, doc) :: r ∧ key ∉ Members.keys l ∧
      c.update name fresh f u upsert =
        match u.run doc with
        | .error e => .error (.invalidUpdate e)
        | .ok new =>
          if Document.sameIdentity doc new then
            .ok (⟨Document.id? new, none⟩, l ++ (key, new) :: r)
          else .error (.invalidPayload (.identityChanged key name)) := by
  obtain ⟨l, r, hc, hl, hget⟩ := exists_split_of_matching hnd h
  refine ⟨l, r, hc, hl, ?_⟩
  have hins : ∀ new, Members.insert c key new = l ++ (key, new) :: r := by
    intro new
    rw [hc, Members.insert_split l r key doc new hl]
  rw [update, targetKey?_of_matching h, hk]
  show c.replace name key u = _
  cases hrun : u.run doc with
  | error e => simp only [replace, hget, hrun]
  | ok new => simp only [replace, hget, hrun, hins]

/-- A deletion takes out the document that is found first, if that lies under its own key. -/
theorem delete_of_matching {c : Collection} (hnd : (Members.keys c).Nodup) {f : Filter}
    {key : String} {doc : Json} {rest : Collection} (h : c.matching f = (key, doc) :: rest)
    (hk : (Document.id? doc).map Identity.key = some key) :
    ∃ l r, c = l ++ (key, doc) :: r ∧ c.delete f = some (doc, l ++ r) := by
  obtain ⟨l, r, hc, -, hget⟩ := exists_split_of_matching hnd h
  refine ⟨l, r, hc, ?_⟩
  have hrem : Members.remove c key = l ++ r := by
    rw [hc] at hnd ⊢
    exact Members.remove_split hnd
  unfold delete
  simp [targetKey?_of_matching h, hk, hget, hrem]

end Collection

/-! ## Stores -/

namespace Store

/-- A write of one collection leaves the other ones alone. -/
@[simp] theorem collection_insert (s : Store) (name name' : String) (c : Collection) :
    Store.collection (Members.insert s name c) name' =
      if name = name' then c else s.collection name' := by
  unfold collection
  rw [Members.get?_insert]
  by_cases h : name = name' <;> simp [h]

/-- Writing back what was read changes no collection. -/
theorem collection_insert_self (s : Store) (name name' : String) :
    Store.collection (Members.insert s name (s.collection name)) name' = s.collection name' := by
  rw [collection_insert]
  by_cases h : name = name'
  · rw [if_pos h, h]
  · rw [if_neg h]

/-- Each document of each collection lies under the key of its own identity. -/
def Keyed (s : Store) : Prop := ∀ name, (s.collection name).Keyed

/-- No collection has a key twice. -/
def Distinct (s : Store) : Prop := ∀ name, (Members.keys (s.collection name)).Nodup

/-- What one write may do to a store: at most one collection changes. -/
def Change (s s' : Store) : Prop :=
  ∃ name, (s.collection name).Change (s'.collection name) ∧
    ∀ name', name' ≠ name → s'.collection name' = s.collection name'

/-- A store whose documents are the same has changed by nothing. -/
theorem change_of_eq {s s' : Store} (h : ∀ name, s'.collection name = s.collection name) :
    s.Change s' :=
  ⟨"", by rw [h]; exact .keep, fun name' _ => h name'⟩

/-- Replacing one collection by a change of it. -/
theorem change_insert {s : Store} {name : String} {c : Collection}
    (h : (s.collection name).Change c) : s.Change (Members.insert s name c) := by
  refine ⟨name, ?_, fun name' hne => ?_⟩
  · rw [collection_insert, if_pos rfl]
    exact h
  · rw [collection_insert, if_neg (fun he => hne he.symm)]

theorem insert_change (s : Store) (name fresh : String) (doc : Json) :
    s.Change (s.insert name fresh doc).2 := by
  unfold insert
  cases h : (s.collection name).insert name fresh doc with
  | error e => exact change_of_eq fun _ => rfl
  | ok r => exact change_insert (Collection.insert_change h)

theorem update_change {s : Store} (hnd : s.Distinct) (name fresh : String) (f : Filter)
    (u : Update) (upsert : Bool) : s.Change (s.update name fresh f u upsert).2 := by
  unfold update
  cases h : (s.collection name).update name fresh f u upsert with
  | error e => exact change_of_eq (collection_insert_self s name)
  | ok r => exact change_insert (Collection.update_change (hnd name) h)

theorem delete_change {s : Store} (hnd : s.Distinct) (name : String) (f : Filter) :
    s.Change (s.delete name f).2 := by
  unfold delete
  cases h : (s.collection name).delete f with
  | none => exact change_of_eq fun _ => rfl
  | some r => exact change_insert (Collection.delete_change (hnd name) h)

/-- A property of collections that every change keeps is kept in all collections of a store. -/
theorem Change.forall {P : Collection → Prop} {s s' : Store} (h : s.Change s')
    (hP : ∀ c c' : Collection, c.Change c' → P c → P c') (hs : ∀ name, P (s.collection name))
    (name : String) : P (s'.collection name) := by
  obtain ⟨name', hchange, hother⟩ := h
  by_cases hn : name = name'
  · subst hn
    exact hP _ _ hchange (hs name)
  · rw [hother name hn]
    exact hs name

/-- Keys stay distinct. -/
theorem Change.distinct {s s' : Store} (h : s.Change s') (hnd : s.Distinct) : s'.Distinct :=
  h.forall (P := fun c => (Members.keys c).Nodup) (fun _ _ hc hc' => hc.nodup hc') hnd

/-! ## The document that is found first -/

/-- The first document is that of the first binding that a filter finds. -/
theorem findOne_eq (s : Store) (name : String) (f : Filter) :
    s.findOne name f = ((s.collection name).matching f).head?.map Prod.snd := by
  unfold findOne find Collection.documents
  exact List.head?_map

theorem findOne_of_matching {s : Store} {name : String} {f : Filter} {kd : String × Json}
    {rest : Collection} (h : (s.collection name).matching f = kd :: rest) :
    s.findOne name f = some kd.2 := by
  rw [findOne_eq, h]
  rfl

theorem findOne_of_matching_nil {s : Store} {name : String} {f : Filter}
    (h : (s.collection name).matching f = []) : s.findOne name f = none := by
  rw [findOne_eq, h]
  rfl

/-! ## Updates that succeed and writes that fail -/

/-- An update that succeeds updates a collection. -/
theorem exists_of_update_ok {s s' : Store} {name fresh : String} {f : Filter} {u : Update}
    {upsert : Bool} {outcome : UpdateOutcome}
    (h : s.update name fresh f u upsert = (.ok outcome, s')) :
    ∃ c, (s.collection name).update name fresh f u upsert = .ok (outcome, c) ∧
      s' = Members.insert s name c := by
  unfold update at h
  cases hc : (s.collection name).update name fresh f u upsert with
  | error e =>
    rw [hc] at h
    cases h
  | ok answer =>
    rw [hc] at h
    obtain ⟨houtcome, rfl⟩ := Prod.mk.inj h
    exact ⟨answer.2, by rw [← Except.ok.inj houtcome], rfl⟩

/-- A failing insertion changes nothing. -/
theorem insert_error {s : Store} {name fresh : String} {doc : Json} {e : Error}
    (h : (s.insert name fresh doc).1 = .error e) : (s.insert name fresh doc).2 = s := by
  unfold insert at h ⊢
  cases hc : (s.collection name).insert name fresh doc with
  | error e' => rfl
  | ok r => simp [hc] at h

/-- A failing update changes no document. -/
theorem update_error {s : Store} {name fresh : String} {f : Filter} {u : Update} {upsert : Bool}
    {e : Error} (h : (s.update name fresh f u upsert).1 = .error e) (name' : String) :
    (s.update name fresh f u upsert).2.collection name' = s.collection name' := by
  unfold update at h ⊢
  cases hc : (s.collection name).update name fresh f u upsert with
  | error e' => exact collection_insert_self s name name'
  | ok r => simp [hc] at h

end Store
end DocWatch
