import DocWatch.Proofs.Database.Record
import DocWatch.Proofs.Database.Watch
import DocWatch.Proofs.Mutation.Avoids
import DocWatch.Proofs.Store.Buried

/-!
# Deleted documents stay deleted

A record of a deletion takes no document out of its collection. It marks the document, and the
document can still be found and written to by its identity, since only reads leave out what is
marked. As long as no write is aimed at the mark and the document is not taken out, it stays marked
and keeps its identity to itself, whatever else clients do.

- `Write.Spares`, `WriteOp.Spares`, `Watch.Spares`: writes that are not aimed at the mark, and that
  do not take out the document.
- `Database.buried_of_delete`: what a record of a deletion does.
- `Watch.buried_run`: what one call keeps.
- `Watch.deleted_is_permanent`: what readers see from then on.
-/

namespace DocWatch

/-! ## Writes that spare a document -/

/-- The write is not aimed at marks of deletion and does not take out the document with this
identity. -/
def Write.Spares (name i : String) (db : Database) : Write → Prop
  | .insert .. => True
  | .update _ _ _ u _ => u.Avoids Document.deletedField
  | .delete collection f => collection = name → ∀ removed db',
      (Database.delete collection f).perform db = (.ok (some removed), db') →
        Document.id? removed ≠ some (.str i)

/-- So is each of the records of a payload. -/
def Payload.Avoids (key : String) (p : Payload) : Prop :=
  (∀ m ∈ p.mutations, m.Avoids key) ∧
    ∀ record m, p.rejected = some record → Mutation.ofJson record = .ok m → m.Avoids key

/-- `Write.Spares` for the writes of batches. -/
def WriteOp.Spares (name i : String) (db : Database) : WriteOp → Prop
  | .insertOne .. => True
  | .updateOne _ _ source _ =>
    ∀ u, Update.parse source = .ok u → Update.Avoids Document.deletedField u
  | .deleteOne collection filter =>
    ∀ f, Filter.compile filter = .ok f → (Write.delete collection f).Spares name i db
  | .push payload => payload.Avoids Document.deletedField

/-- Each write of a batch spares the document, in the state that it meets. -/
def WriteOp.AllSpare (options : SessionOptions) (name i : String) :
    List WriteOp → Database → Prop
  | [], _ => True
  | op :: rest, db => op.Spares name i db ∧
      ∀ answer db', (Database.execute options op).perform db = (.ok answer, db') →
        AllSpare options name i rest db'

namespace Database

variable {name i : String}

/-! ## What writes keep -/

/-- The store is sound, and the documents with an identity are marked. -/
structure Buried (name i : String) (db : Database) : Prop where
  sound : db.store.Sound
  buried : db.store.Buried name i

/-- If this was so then it still is. -/
def KeepsBuried (name i : String) (db db' : Database) : Prop :=
  db.Buried name i → db'.Buried name i

instance : IsPreorder Database (KeepsBuried name i) where
  refl _ := id
  trans _ _ _ h h' := h' ∘ h

theorem keepsBuried_insert (collection : String) (client : Option String) (doc : Json) :
    Action.Within (KeepsBuried name i) (insert collection client doc) := by
  intro db h
  refine ⟨(within_insert collection client doc db).sound h.sound, ?_⟩
  cases hd : db.dispatch with
  | none =>
    rw [perform_insert_none hd]
    exact h.buried
  | some d =>
    rw [perform_insert hd]
    have hburied := h.buried.insert h.sound collection db.fresh
      (attributed doc (db.author d client))
    cases hins : db.store.insert collection db.fresh (attributed doc (db.author d client)) with
    | mk r s =>
      rw [hins] at hburied
      cases r <;> exact hburied

theorem keepsBuried_update (collection : String) (client : Option String) (f : Filter)
    {u : Update} (hu : u.KeepsMark) (upsert : Bool) :
    Action.Within (KeepsBuried name i) (update collection client f u upsert) := by
  intro db h
  refine ⟨(within_update collection client f u upsert db).sound h.sound, ?_⟩
  cases hd : db.dispatch with
  | none =>
    rw [perform_update_none hd]
    exact h.buried
  | some d =>
    rw [perform_update hd]
    have hburied := h.buried.update h.sound collection db.fresh f
      (hu.attributed (db.author d client)) upsert
    cases hup : db.store.update collection db.fresh f (u.attributed (db.author d client))
        upsert with
    | mk r s =>
      rw [hup] at hburied
      cases r <;> exact hburied

/-- A deletion that spares the document. -/
theorem Buried.delete {db : Database} (h : db.Buried name i) {collection : String} {f : Filter}
    (hspares : (Write.delete collection f).Spares name i db) :
    ((Database.delete collection f).perform db).2.Buried name i := by
  refine ⟨(within_delete collection f db).sound h.sound, ?_⟩
  cases hd : db.dispatch with
  | none =>
    rw [perform_delete_none hd]
    exact h.buried
  | some d =>
    have hperform := perform_delete hd collection f
    rw [hperform]
    refine h.buried.delete h.sound fun hname doc hdoc => ?_
    rw [hdoc] at hperform
    exact hspares hname doc _ hperform

theorem keepsBuried_writer (collection : String) (client : Option String) :
    (writer collection client).WithinFor (KeepsBuried name i)
      (fun _ op _ => Update.KeepsMark [op]) where
  find := fun _ => Action.within_view _
  update := fun f _ upsert hop =>
    (keepsBuried_update collection client f hop upsert).bind fun _ => Action.within_pure ()
  freshIdentity := fun _ h => ⟨h.sound, h.buried⟩
  now := Action.within_view _

theorem keepsBuried_record (collection : String) (client user : Option String) (id : Json)
    {m : Mutation} (hm : m.Avoids Document.deletedField) :
    Action.Within (KeepsBuried name i) (m.apply (writer collection client) user id) :=
  Mutation.within_apply_of_makes (keepsBuried_writer collection client) user
    (fun _ _ hop _ => hop.keepsMark hm) fun _ => keepsBuried_insert collection client

theorem keepsBuried_push (options : SessionOptions) {p : Payload}
    (hp : p.Avoids Document.deletedField) :
    Action.Within (KeepsBuried name i) (push options p) :=
  Payload.within_apply_of_records
    (fun m hm => keepsBuried_record p.collection options.client options.user p.id (hp.1 m hm))
    fun record m hrecord hread =>
      keepsBuried_record p.collection options.client options.user p.id (hp.2 record m hrecord hread)

theorem compileFilter_ok {source : Json} {f : Filter} {db db' : Database}
    (h : (compileFilter source).perform db = (.ok f, db')) :
    Filter.compile source = .ok f ∧ db' = db := by
  obtain ⟨hlift, rfl⟩ := Prod.mk.inj h
  cases hcompile : Filter.compile source with
  | error e =>
    rw [hcompile] at hlift
    cases hlift
  | ok f' =>
    rw [hcompile] at hlift
    rw [Except.ok.inj hlift]
    exact ⟨rfl, rfl⟩

theorem parseUpdate_ok {source : Json} {u : Update} {db db' : Database}
    (h : (parseUpdate source).perform db = (.ok u, db')) :
    Update.parse source = .ok u ∧ db' = db := by
  obtain ⟨hlift, rfl⟩ := Prod.mk.inj h
  cases hparse : Update.parse source with
  | error e =>
    rw [hparse] at hlift
    cases hlift
  | ok u' =>
    rw [hparse] at hlift
    rw [Except.ok.inj hlift]
    exact ⟨rfl, rfl⟩

/-- A write of a batch that spares the document. -/
theorem Buried.execute {db : Database} (h : db.Buried name i) (options : SessionOptions)
    {op : WriteOp} (hspares : op.Spares name i db) :
    ((Database.execute options op).perform db).2.Buried name i := by
  cases op with
  | insertOne collection doc => exact keepsBuried_insert collection options.client doc db h
  | updateOne collection filter source upsert =>
    refine Action.state_bind h fun f db' hf => ?_
    obtain ⟨-, rfl⟩ := compileFilter_ok hf
    refine Action.state_bind h fun u db'' hu => ?_
    obtain ⟨hparse, rfl⟩ := parseUpdate_ok hu
    rw [Action.perform_bind_pure_snd]
    exact keepsBuried_update collection options.client f
      (Update.keepsMark_of_avoids (hspares u hparse)) upsert _ h
  | deleteOne collection filter =>
    refine Action.state_bind h fun f db' hf => ?_
    obtain ⟨hcompile, rfl⟩ := compileFilter_ok hf
    rw [Action.perform_bind_pure_snd]
    exact h.delete (hspares f hcompile)
  | push payload =>
    have hstate := Action.perform_bind_pure_snd (push options payload) (fun _ => Json.bool true) db
    show Buried name i ((push options payload >>= fun _ => pure (Json.bool true)).perform db).2
    rw [hstate]
    exact keepsBuried_push options hspares db h

/-- A batch whose writes spare the document. -/
theorem Buried.call {db : Database} (h : db.Buried name i) (options : SessionOptions)
    {ops : List WriteOp} (hspare : WriteOp.AllSpare options name i ops db) :
    ((Database.call options ops).perform db).2.Buried name i := by
  induction ops generalizing db with
  | nil => exact h
  | cons op rest ih =>
    obtain ⟨hop, hrest⟩ := hspare
    have hfirst := h.execute options hop
    refine Action.state_bind hfirst fun answer db' hanswer => ?_
    rw [hanswer] at hfirst
    rw [Action.perform_bind_pure_snd]
    exact ih hfirst (hrest answer db' hanswer)

/-! ## Reads -/

/-- A read answers what a live filter finds, and leaves the documents as they are. -/
theorem read_ok {db db' : Database} {options : SessionOptions} {collection : String}
    {method : ReadMethod} {filter : Json} {response : ReadResponse}
    (h : (read options collection method filter).perform db = (.ok response, db')) :
    ∃ f : Filter, response = respond options method response.query
      (db.store.find collection f.live) := by
  cases hd : db.dispatch with
  | none =>
    have hfails : (read options collection method filter).perform db =
        (.error (.config .usedBeforeInit), db) :=
      Action.perform_bind_error (Action.perform_bind_error (perform_connected_none hd))
    cases hfails.symm.trans h
  | some d =>
    rw [perform_read hd] at h
    have hresponse := (Prod.mk.inj h).1
    cases hregister : (d.register collection method.name filter).1 with
    | error e =>
      rw [hregister] at hresponse
      cases hresponse
    | ok q =>
      rw [hregister] at hresponse
      rw [← Except.ok.inj hresponse]
      exact ⟨q.filter, rfl⟩

/-! ## Records of deletions -/

/-- A record of a deletion marks the document with its identity. -/
theorem buried_of_delete {db db' : Database} (hs : db.store.Sound) {doc : Json}
    (hstored : doc ∈ db.store.lists name) (hid : Document.id? doc = some (.str i))
    {client user : Option String}
    (h : (Mutation.delete.apply (writer name client) user (.str i)).perform db = (.ok (), db')) :
    db'.Buried name i := by
  rw [Store.lists_eq] at hstored
  obtain ⟨⟨key, doc'⟩, hmem, rfl⟩ := List.mem_map.mp hstored
  -- the mark is made from the clock, which changes nothing
  have hbind : (Mutation.mark (writer name client) user >>= fun mark =>
      (writer name client).update (.byId (.str i)) [.set ["_deleted"] mark] false).perform db =
        (.ok (), db') := h
  obtain ⟨mark, db₁, hmark, hwrite⟩ := Action.perform_bind_eq_ok hbind
  obtain rfl : db₁ = db := (congrArg Prod.snd hmark).symm
  obtain ⟨touched, db₂, hupdate, hpure⟩ := Action.perform_bind_eq_ok hwrite
  obtain rfl : db₂ = db' := congrArg Prod.snd hpure
  obtain ⟨d, d', new, -, -, -, hs', hrun, hnew⟩ := exists_run_of_update hs hmem hid hupdate
  obtain ⟨plain, hplain, hfields⟩ := Update.exists_run_of_attributed hrun
  have hdeleted : Document.isDeleted new = true := by
    rw [Document.isDeleted, hfields _ (by decide)]
    exact Update.isDeleted_of_run_mark (Document.isObject_of_id? hid) hplain
  refine ⟨hs', ⟨(_, new), hnew.stored_after, hnew.id_after⟩, fun kd hmem' hid' => ?_⟩
  obtain ⟨key', doc'⟩ := kd
  -- there is one document with this identity
  have hfound := (hs' name).matching_byId hnew.stored_after hnew.id_after
  rw [(hs' name).matching_byId hmem' hid'] at hfound
  obtain ⟨-, rfl⟩ := Prod.mk.inj (List.head_eq_of_cons_eq hfound)
  exact hdeleted

end Database

namespace Watch

/-! ## Runs -/

/-- The call spares the document with this identity. -/
def Call.Spares (name i : String) (w : Watch) : Call → Prop
  | .write op => op.Spares name i w.database
  | .batch options ops => WriteOp.AllSpare options name i ops w.database
  | _ => True

/-- Each of the calls spares the document, in the state that it meets. -/
def AllSpare (name i : String) : List Call → Watch → Prop
  | [], _ => True
  | call :: rest, w => call.Spares name i w ∧ AllSpare name i rest (call.run w)

/-- The state after more calls. -/
def continued (w : Watch) (calls : List Call) : Watch := calls.foldl Call.run w

/-- A call that spares the document leaves it as it is. -/
theorem buried_run {name i : String} {w : Watch} (h : w.database.Buried name i) {call : Call}
    (hspares : call.Spares name i w) : (call.run w).database.Buried name i := by
  have hstore := store_run w call
  cases call with
  | write op =>
    cases op with
    | insert collection client doc =>
      exact Database.keepsBuried_insert collection client doc _ h
    | update collection client f u upsert =>
      exact Database.keepsBuried_update collection client f (Update.keepsMark_of_avoids hspares)
        upsert _ h
    | delete collection f => exact h.delete hspares
  | batch options ops => exact h.call options hspares
  | _ => exact ⟨hstore ▸ h.sound, hstore ▸ h.buried⟩

/-- So do several calls. -/
theorem buried_continued {name i : String} {w : Watch} (h : w.database.Buried name i)
    {calls : List Call} (hspare : AllSpare name i calls w) :
    (w.continued calls).database.Buried name i := by
  induction calls generalizing w with
  | nil => exact h
  | cons call rest ih => exact ih (buried_run h hspare.1) hspare.2

/-- **Deletion is permanent for readers.** After any calls, let a record of a deletion succeed on a
stored document with a string for its identity, and let more calls follow, of which none is aimed at
marks of deletion and none takes out the document. Then there is one document with this identity in
the collection, no query admits it, and no read of the collection answers a document with this
identity. -/
theorem deleted_is_permanent (supply : Supply) (settings : Settings) (options : SessionOptions)
    (calls : List Call) {name i : String} {doc : Json}
    (hstored : doc ∈ (after supply settings options calls).database.store.lists name)
    (hid : Document.id? doc = some (.str i)) {client user : Option String} {db : Database}
    (hdelete : (Mutation.delete.apply (Database.writer name client) user (.str i)).perform
      (after supply settings options calls).database = (.ok (), db)) (more : List Call)
    (hspare : AllSpare name i more ⟨db, (after supply settings options calls).reader⟩) :
    let w := continued ⟨db, (after supply settings options calls).reader⟩ more
    (∃ l buried r, w.database.store.lists name = l ++ buried :: r ∧
      Document.id? buried = some (.str i) ∧
      (∀ other ∈ l ++ r, Document.id? other ≠ some (.str i)) ∧
      ∀ q : Query, q.admits (some buried) = false) ∧
    ∀ options' method filter response db',
      (Database.read options' name method filter).perform w.database = (.ok response, db') →
      ∃ found, response = Database.respond options' method response.query found ∧
        ∀ other ∈ found, Document.id? other ≠ some (.str i) := by
  obtain ⟨d, htraced⟩ : ∃ d, Traced supply settings options calls
      (after supply settings options calls) d := traced_after calls
  intro w
  have hburied : w.database.Buried name i :=
    buried_continued (Database.buried_of_delete htraced.sound hstored hid hdelete) hspare
  constructor
  · obtain ⟨l, buried, r, hlists, hburiedid, hdeleted, hothers⟩ :=
      hburied.buried.exists_split hburied.sound
    refine ⟨l, buried, r, hlists, hburiedid, hothers, fun q => ?_⟩
    rw [Query.admits, hdeleted]
    rfl
  · intro options' method filter response db' hread
    obtain ⟨f, hresponse⟩ := Database.read_ok hread
    exact ⟨_, hresponse, fun other hother => hburied.buried.not_found f hother⟩

/-- A document with a string for its identity is added. -/
def oneAdded : List Call := [.write (.insert "t" none (.obj [("_id", .str "a")]))]

/-- The database after the document was deleted by a record. -/
def oneDeleted : Database :=
  ((Mutation.delete.apply (Database.writer "t" none) none (.str "a")).perform
    (after stillSupply .standard .anonymous oneAdded).database).2

/-- Later on it is written to by its identity, an upsert is asked for, and it is added again. -/
def writtenAgain : List Call :=
  [.write (.update "t" none (.byId (.str "a")) [.set ["n"] (.nat 1)] true),
    .batch .anonymous [.insertOne "t" (.obj [("_id", .str "a")])]]

/-- All this leaves it as it is for readers. -/
theorem deleted_stays_deleted : ∃ l buried r,
    (continued ⟨oneDeleted, (after stillSupply .standard .anonymous oneAdded).reader⟩
      writtenAgain).database.store.lists "t" = l ++ buried :: r ∧
    Document.id? buried = some (.str "a") ∧
    (∀ other ∈ l ++ r, Document.id? other ≠ some (.str "a")) ∧
    ∀ q : Query, q.admits (some buried) = false := by
  have hstored : .obj [("_id", .str "a")] ∈
      (after stillSupply .standard .anonymous oneAdded).database.store.lists "t" := by decide
  have hdelete : (Mutation.delete.apply (Database.writer "t" none) none (.str "a")).perform
      (after stillSupply .standard .anonymous oneAdded).database = (.ok (), oneDeleted) :=
    Prod.ext rfl rfl
  have hspares : AllSpare "t" "a" writtenAgain
      ⟨oneDeleted, (after stillSupply .standard .anonymous oneAdded).reader⟩ := by
    refine ⟨fun op hop => ?_, ⟨trivial, fun _ _ _ => trivial⟩, trivial⟩
    rw [List.mem_singleton.mp hop]
    exact ⟨by decide, by decide⟩
  exact (deleted_is_permanent stillSupply .standard .anonymous oneAdded hstored rfl hdelete
    writtenAgain hspares).1

end Watch
end DocWatch
