import DocWatch.Database
import DocWatch.Proofs.Action
import DocWatch.Proofs.Dispatch
import DocWatch.Proofs.Store.Shift
import DocWatch.Proofs.Update.Attribution

/-!
# Single writes of the database

A write of a connected database is a write of its store, and the dispatch of what it did. A write
that fails leaves documents and dispatch as they were (`Database.Unchanged`). One that succeeds
replaces a document, and the dispatch is told of just that document before and after
(`Database.Replaced`), if all identities are strings.

- `Database.perform_insert`, `Database.perform_update`, `Database.perform_delete`: what the writes
  come to.
- `Database.insert_replaced`, `Database.update_replaced`, `Database.delete_replaced`: each of them
  is dispatched as what it is.
-/

namespace DocWatch.Database

variable {db : Database} {d : Dispatch}

/-! ## The steps of writes -/

/-- The identity that is drawn next. -/
def fresh (db : Database) : String := db.supply.identity db.supply.drawn

/-- The database after an identity was drawn. -/
def drawn (db : Database) : Database :=
  { db with supply := { db.supply with drawn := db.supply.drawn + 1 } }

/-- The record of a write that is made now, if writes are attributed. -/
def author (db : Database) (d : Dispatch) (client : Option String) : Option Provenance :=
  if d.settings.provenance then some ⟨client, db.supply.clock db.supply.drawn⟩ else none

/-- A document with the record of its insertion. -/
def attributed (doc : Json) : Option Provenance → Json
  | some p => Document.attribute doc p
  | none => doc

theorem perform_connected (hd : db.dispatch = some d) :
    connected.perform db = (.ok d, db) := by
  rw [connected, Action.perform_attempt, hd]

theorem perform_attribution (hd : db.dispatch = some d) (client : Option String) :
    (attribution client).perform db = (.ok (db.author d client), db) := by
  rw [attribution, Action.perform_bind_ok (perform_connected hd), author]
  cases d.settings.provenance <;> rfl

theorem perform_freshIdentity (db : Database) :
    freshIdentity.perform db = (.ok db.fresh, db.drawn) := rfl

theorem perform_onStore {α : Type} (f : Store → Except Error α × Store) (db : Database) :
    (onStore f).perform db = ((f db.store).1, { db with store := (f db.store).2 }) := rfl

theorem perform_findOne (collection : String) (f : Filter) (db : Database) :
    (findOne collection f).perform db = (.ok (db.store.findOne collection f), db) := rfl

/-! ## What writes come to -/

/-- The state after a write of the store: the store, and the dispatch of a change. -/
def wrote (db : Database) (s : Store) (collection : String) (before after : Option Json) :
    Database :=
  { db with
    store := s
    dispatch := db.dispatch.map fun d => (d.notify collection before after).2 }

theorem perform_insert (hd : db.dispatch = some d) (collection : String)
    (client : Option String) (doc : Json) :
    (insert collection client doc).perform db =
      match db.store.insert collection db.fresh (attributed doc (db.author d client)) with
      | (.error e, s) => (.error e, { db.drawn with store := s })
      | (.ok id, s) => (.ok id, db.drawn.wrote s collection none (s.findOne collection (.byId id)))
    := by
  unfold insert
  rw [Action.perform_bind_ok (perform_attribution hd client),
    Action.perform_bind_ok (perform_freshIdentity db)]
  cases hins : db.store.insert collection db.fresh (attributed doc (db.author d client)) with
  | mk r s =>
    have hstore := perform_onStore
      (Store.insert collection db.fresh (attributed doc (db.author d client))) db.drawn
    rw [show db.drawn.store = db.store from rfl, hins] at hstore
    cases r with
    | error e => exact Action.perform_bind_error hstore
    | ok id => exact Action.perform_bind_ok hstore

theorem perform_update (hd : db.dispatch = some d) (collection : String)
    (client : Option String) (f : Filter) (u : Update) (upsert : Bool) :
    (update collection client f u upsert).perform db =
      match db.store.update collection db.fresh f
          (u.attributed (db.author d client)) upsert with
      | (.error e, s) => (.error e, { db.drawn with store := s })
      | (.ok outcome, s) => (.ok outcome.touched, db.drawn.wrote s collection
          (db.store.findOne collection f)
          (outcome.touched.bind fun id => s.findOne collection (.byId id))) := by
  unfold update
  rw [Action.perform_bind_ok (perform_attribution hd client),
    Action.perform_bind_ok (perform_findOne collection f db),
    Action.perform_bind_ok (perform_freshIdentity db)]
  cases hup : db.store.update collection db.fresh f
      (u.attributed (db.author d client)) upsert with
  | mk r s =>
    have hstore := perform_onStore (Store.update collection db.fresh f
      (u.attributed (db.author d client)) upsert) db.drawn
    rw [show db.drawn.store = db.store from rfl, hup] at hstore
    cases r with
    | error e => exact Action.perform_bind_error hstore
    | ok outcome =>
      refine (Action.perform_bind_ok hstore).trans ?_
      show _ = (Except.ok outcome.touched, db.drawn.wrote s collection
        (db.store.findOne collection f)
        (outcome.touched.bind fun id => s.findOne collection (.byId id)))
      -- nothing is looked up when nothing was touched
      cases outcome.touched <;> rfl

theorem perform_delete (hd : db.dispatch = some d) (collection : String) (f : Filter) :
    (delete collection f).perform db =
      (.ok (db.store.delete collection f).1, db.wrote (db.store.delete collection f).2 collection
        (db.store.delete collection f).1 none) := by
  unfold delete
  rw [Action.perform_bind_ok (perform_connected hd)]
  cases hdel : db.store.delete collection f with
  | mk removed s =>
    have hstore := perform_onStore
      (fun store => (.ok (store.delete collection f).1, (store.delete collection f).2)) db
    rw [hdel] at hstore
    refine (Action.perform_bind_ok hstore).trans ?_
    cases removed with
    | some doc => rfl
    | none =>
      -- nothing is dispatched, and dispatching nothing would change nothing
      have hnothing : (d.notify collection none none).2 = d :=
        Dispatch.notify_of_affected_nil (QueryTable.affected_none _ _)
      show (Except.ok none, { db with store := s }) =
        (Except.ok none, db.wrote s collection none none)
      rw [wrote, hd, Option.map_some, hnothing, ← hd]

/-! ## Without a dispatch -/

theorem perform_connected_none (hd : db.dispatch = none) :
    connected.perform db = (.error (.config .usedBeforeInit), db) := by
  rw [connected, Action.perform_attempt, hd]

theorem perform_insert_none (hd : db.dispatch = none) (collection : String)
    (client : Option String) (doc : Json) :
    (insert collection client doc).perform db = (.error (.config .usedBeforeInit), db) :=
  Action.perform_bind_error (Action.perform_bind_error (perform_connected_none hd))

theorem perform_update_none (hd : db.dispatch = none) (collection : String)
    (client : Option String) (f : Filter) (u : Update) (upsert : Bool) :
    (update collection client f u upsert).perform db = (.error (.config .usedBeforeInit), db) :=
  Action.perform_bind_error (Action.perform_bind_error (perform_connected_none hd))

theorem perform_delete_none (hd : db.dispatch = none) (collection : String) (f : Filter) :
    (delete collection f).perform db = (.error (.config .usedBeforeInit), db) :=
  Action.perform_bind_error (perform_connected_none hd)

/-! ## Writes that fail -/

/-- No document, no registration and no delivery has changed. -/
structure Unchanged (db db' : Database) : Prop where
  documents : ∀ name, db'.store.collection name = db.store.collection name
  dispatch : db'.dispatch = db.dispatch

theorem unchanged_refl (db : Database) : db.Unchanged db where
  documents := fun _ => rfl
  dispatch := rfl

/-- A failing insertion changes nothing. -/
theorem insert_failed {collection : String} {client : Option String} {doc : Json} {e : Error}
    {db' : Database} (h : (insert collection client doc).perform db = (.error e, db')) :
    db.Unchanged db' := by
  cases hd : db.dispatch with
  | none =>
    rw [perform_insert_none hd] at h
    rw [← (Prod.mk.inj h).2]
    exact unchanged_refl db
  | some d =>
    rw [perform_insert hd] at h
    cases hins : db.store.insert collection db.fresh (attributed doc (db.author d client)) with
    | mk r s =>
      rw [hins] at h
      cases r with
      | ok id => cases h
      | error e' =>
        have hsame := Store.insert_error (congrArg Prod.fst hins)
        rw [hins] at hsame
        rw [← (Prod.mk.inj h).2]
        exact { documents := fun name => by rw [← hsame], dispatch := rfl }

/-- A failing update changes nothing. -/
theorem update_failed {collection : String} {client : Option String} {f : Filter} {u : Update}
    {upsert : Bool} {e : Error} {db' : Database}
    (h : (update collection client f u upsert).perform db = (.error e, db')) :
    db.Unchanged db' := by
  cases hd : db.dispatch with
  | none =>
    rw [perform_update_none hd] at h
    rw [← (Prod.mk.inj h).2]
    exact unchanged_refl db
  | some d =>
    rw [perform_update hd] at h
    cases hup : db.store.update collection db.fresh f
        (u.attributed (db.author d client)) upsert with
    | mk r s =>
      rw [hup] at h
      cases r with
      | ok outcome => cases h
      | error e' =>
        have hsame := Store.update_error (congrArg Prod.fst hup)
        rw [hup] at hsame
        rw [← (Prod.mk.inj h).2]
        exact { documents := hsame, dispatch := rfl }

/-- A deletion fails only without a dispatch. -/
theorem delete_failed {collection : String} {f : Filter} {e : Error} {db' : Database}
    (h : (delete collection f).perform db = (.error e, db')) : db.Unchanged db' := by
  cases hd : db.dispatch with
  | none =>
    rw [perform_delete_none hd] at h
    rw [← (Prod.mk.inj h).2]
    exact unchanged_refl db
  | some d =>
    rw [perform_delete hd] at h
    cases h

/-! ## Writes that succeed -/

/-- A document gave way to another one, and this was dispatched. -/
structure Replaced (collection : String) (before after : Option Json) (db db' : Database) :
    Prop where
  store : db.store.Shift collection before after db'.store
  dispatch : db'.dispatch = db.dispatch.map fun d => (d.notify collection before after).2

/-- An insertion is dispatched with the document that it adds. -/
theorem insert_replaced (hs : db.store.Sound) {collection : String} {client : Option String}
    {doc id : Json} {db' : Database}
    (h : (insert collection client doc).perform db = (.ok id, db'))
    (hids : db'.store.StringIds) : ∃ after, db.Replaced collection none after db' := by
  cases hd : db.dispatch with
  | none =>
    rw [perform_insert_none hd] at h
    cases h
  | some d =>
    rw [perform_insert hd] at h
    cases hins : db.store.insert collection db.fresh (attributed doc (db.author d client)) with
    | mk r s =>
      rw [hins] at h
      cases r with
      | error e => cases h
      | ok id' =>
        obtain ⟨-, rfl⟩ := Prod.mk.inj h
        exact ⟨_, Store.insert_shift hs hins hids, rfl⟩

/-- An update is dispatched with the document that it finds, and with what it makes of it or makes
anew. -/
theorem update_replaced (hs : db.store.Sound) (hids : db.store.StringIds) {collection : String}
    {client : Option String} {f : Filter} {u : Update} {upsert : Bool} {touched : Option Json}
    {db' : Database}
    (h : (update collection client f u upsert).perform db = (.ok touched, db'))
    (hids' : db'.store.StringIds) :
    ∃ before after, db.Replaced collection before after db' := by
  cases hd : db.dispatch with
  | none =>
    rw [perform_update_none hd] at h
    cases h
  | some d =>
    rw [perform_update hd] at h
    cases hup : db.store.update collection db.fresh f
        (u.attributed (db.author d client)) upsert with
    | mk r s =>
      rw [hup] at h
      cases r with
      | error e => cases h
      | ok outcome =>
        obtain ⟨-, rfl⟩ := Prod.mk.inj h
        exact ⟨_, _, Store.update_shift hs hids hup hids', rfl⟩

/-- A deletion is dispatched with the document that it takes out. -/
theorem delete_replaced (hs : db.store.Sound) (hids : db.store.StringIds) {collection : String}
    {f : Filter} {removed : Option Json} {db' : Database}
    (h : (delete collection f).perform db = (.ok removed, db')) :
    db.Replaced collection removed none db' := by
  cases hd : db.dispatch with
  | none =>
    rw [perform_delete_none hd] at h
    cases h
  | some d =>
    rw [perform_delete hd] at h
    obtain ⟨hremoved, rfl⟩ := Prod.mk.inj h
    rw [← Except.ok.inj hremoved]
    exact { store := Store.delete_shift hs hids collection f, dispatch := rfl }

end DocWatch.Database
