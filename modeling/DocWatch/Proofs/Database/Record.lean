import DocWatch.Proofs.Database.Keeps
import DocWatch.Proofs.Mutation.Records

/-!
# Failing records change nothing

A record of a payload looks at the document and then makes one write, which changes nothing when
it fails. Only a removal by position makes two writes. If the first one has succeeded, then the
document is there, its identity is a string, and the place that was written to is a slot of an
array; so the second one finds the document and the array, and it can write the entry that the
first one has written.

- `Database.FailsClean`: an action that changes nothing when it fails.
- `Database.removeAt_failsClean`: removal by position.
- `Database.record_failsClean`, `Database.applyWire_failsClean`: all records.
-/

namespace DocWatch.Database

variable {db : Database} {α β : Type}

/-! ## Actions that change nothing when they fail -/

/-- When the action fails in this state, then nothing has changed. -/
def FailsClean (db : Database) (x : Action Database α) : Prop :=
  ∀ e db', x.perform db = (.error e, db') → db.Unchanged db'

/-- What comes after an action that changes nothing at all. -/
theorem failsClean_bind_of_silent {x : Action Database α} {f : α → Action Database β}
    (hx : (x.perform db).2 = db)
    (hf : ∀ a, (x.perform db).1 = .ok a → db.FailsClean (f a)) : db.FailsClean (x >>= f) := by
  intro e db' hperform
  rcases Action.perform_bind_cases x f db with ⟨e', s, hxs, hbind⟩ | ⟨a, s, hxs, hbind⟩
  · obtain rfl : s = db := (congrArg Prod.snd hxs).symm.trans hx
    rw [hbind] at hperform
    rw [← (Prod.mk.inj hperform).2]
    exact unchanged_refl s
  · obtain rfl : s = db := (congrArg Prod.snd hxs).symm.trans hx
    exact hf a (congrArg Prod.fst hxs) e db' (hbind.symm.trans hperform)

/-- An answer that is computed after the action. -/
theorem FailsClean.bind_pure {x : Action Database α} (h : db.FailsClean x) (f : α → β) :
    db.FailsClean (x >>= fun a => pure (f a)) := fun e db' hperform =>
  h e db' ((Action.perform_bind_pure_error_iff x f db db' e).mp hperform)

variable {collection : String} {client user : Option String}

theorem writer_update_failsClean (f : Filter) (u : Update) (upsert : Bool) :
    db.FailsClean ((writer collection client).update f u upsert) :=
  FailsClean.bind_pure (fun _ _ h => update_failed h) fun _ => ()

/-! ## Removal by position -/

/-- The document that is found by an identity lies in the collection, and the identity is the
string that it has. -/
theorem exists_of_findOne_byId {s : Store} (hids : s.StringIds) {name : String} {id doc : Json}
    (h : s.findOne name (.byId id) = some doc) :
    ∃ key t, (key, doc) ∈ s.collection name ∧ Document.id? doc = some (.str t) ∧
      id = .str t := by
  cases hm : (s.collection name).matching (.byId id) with
  | nil =>
    rw [Store.findOne_of_matching_nil hm] at h
    cases h
  | cons kd rest =>
    obtain ⟨key, doc'⟩ := kd
    rw [Store.findOne_of_matching hm] at h
    obtain rfl := Option.some.inj h
    obtain ⟨hmem, hselects⟩ := Collection.mem_of_mem_matching (hm ▸ List.mem_cons_self :
      (key, doc') ∈ (s.collection name).matching (.byId id))
    obtain ⟨t, hid⟩ := hids name (key, doc') hmem
    exact ⟨key, t, hmem, hid, (Filter.byId_selects_str hid id).mp hselects⟩

/-- A write to a document that succeeds has run on it, and its result has taken the place of the
document. -/
theorem exists_run_of_update (hs : db.store.Sound) {key t : String} {doc : Json}
    (hmem : (key, doc) ∈ db.store.collection collection)
    (hid : Document.id? doc = some (.str t)) {u : Update} {upsert : Bool} {db' : Database}
    {a : Option Json}
    (h : (update collection client (.byId (.str t)) u upsert).perform db = (.ok a, db')) :
    ∃ d d' new, db.dispatch = some d ∧ db'.dispatch = some d' ∧ d'.settings = d.settings ∧
      db'.store.Sound ∧ Update.run (u.attributed (db.author d client)) doc = .ok new ∧
      db.store.Rewritten collection t doc new db'.store := by
  cases hd : db.dispatch with
  | none =>
    rw [perform_update_none hd] at h
    cases h
  | some d =>
    have hkeeps := within_update collection client (.byId (.str t)) u upsert db
    rw [h] at hkeeps
    rw [perform_update hd] at h
    cases hup : db.store.update collection db.fresh (.byId (.str t))
        (u.attributed (db.author d client)) upsert with
    | mk r s =>
      rw [hup] at h
      cases r with
      | error e => cases h
      | ok outcome =>
        obtain ⟨-, rfl⟩ := Prod.mk.inj h
        obtain ⟨new, hrun, hnew⟩ := hs.rewritten_of_update_byId hmem hid hup
        have hdispatch : (db.drawn.wrote s collection
            (db.store.findOne collection (.byId (.str t)))
            (outcome.touched.bind fun id => s.findOne collection (.byId id))).dispatch =
            some (d.notify collection (db.store.findOne collection (.byId (.str t)))
              (outcome.touched.bind fun id => s.findOne collection (.byId id))).2 := by
          show Option.map _ db.dispatch = _
          rw [hd]
          rfl
        exact ⟨d, _, new, rfl, hdispatch, rfl, hkeeps.sound hs, hrun, hnew⟩

/-- So has the write of one operator by a record. -/
theorem rewritten_of_writer_update (hs : db.store.Sound) {key t : String} {doc : Json}
    (hmem : (key, doc) ∈ db.store.collection collection)
    (hid : Document.id? doc = some (.str t)) {op : Operator} {upsert : Bool} {db' : Database}
    (h : ((writer collection client).update (.byId (.str t)) [op] upsert).perform db =
      (.ok (), db')) :
    ∃ new author, Update.run (Update.attributed [op] author) doc = .ok new ∧
      db.store.Rewritten collection t doc new db'.store ∧ db'.store.Sound := by
  obtain ⟨a, s, hupdate, hpure⟩ := Action.perform_bind_eq_ok h
  obtain ⟨-, rfl⟩ := Prod.mk.inj hpure
  obtain ⟨d, d', new, -, -, -, hs', hrun, hnew⟩ := exists_run_of_update hs hmem hid hupdate
  exact ⟨new, _, hrun, hnew, hs'⟩

/-- A write of a document that is there and that keeps its identity does not fail. -/
theorem update_ne_error (hs : db.store.Sound) {d : Dispatch} (hd : db.dispatch = some d)
    {key t : String} {doc new : Json} (hmem : (key, doc) ∈ db.store.collection collection)
    (hid : Document.id? doc = some (.str t)) {u : Update}
    (hrun : Update.run (u.attributed (db.author d client)) doc = .ok new)
    (hnew : Document.id? new = some (.str t)) {e : Error} {db' : Database} :
    (update collection client (.byId (.str t)) u false).perform db ≠ (.error e, db') := by
  intro h
  rw [perform_update hd] at h
  obtain ⟨outcome, hok⟩ := hs.update_byId_ok hmem hid hrun hnew db.fresh false
  cases hup : db.store.update collection db.fresh (.byId (.str t))
      (u.attributed (db.author d client)) false with
  | mk r s =>
    rw [hup] at h hok
    obtain rfl : r = .ok outcome := hok
    cases h

/-- A removal from an array of the document changes nothing when it fails. -/
theorem removeAt_failsClean (hs : db.store.Sound) (hids : db.store.StringIds) {id doc : Json}
    (hdoc : db.store.findOne collection (.byId id) = some doc) {array : FieldPath} {slot : String}
    {items : List Json} (harray : doc.get? array = some (.arr items)) (hroot : array ≠ []) :
    db.FailsClean (Mutation.removeAt (writer collection client) id (array ++ [slot]) array) := by
  obtain ⟨key, t, hmem, hid, rfl⟩ := exists_of_findOne_byId hids hdoc
  intro e db' h
  -- drawing the mark changes the supply alone
  have hfresh : (writer collection client).freshIdentity.perform db = (.ok db.fresh, db.drawn) :=
    perform_freshIdentity db
  rw [Mutation.removeAt, Action.perform_bind_ok hfresh] at h
  have hdrawn : ∀ {db' : Database}, db.drawn.Unchanged db' → db.Unchanged db' :=
    fun hu => { documents := hu.documents, dispatch := hu.dispatch }
  rcases Action.perform_bind_cases ((writer collection client).update (.byId (.str t))
      [.set (array ++ [slot]) (.str db.fresh)] false)
      (fun _ => (writer collection client).update (.byId (.str t))
        [.pull array (.equals (.str db.fresh))] false) db.drawn with
    ⟨e', s, hfirst, hbind⟩ | ⟨_, s, hfirst, hbind⟩
  · rw [hbind] at h
    rw [← (Prod.mk.inj h).2]
    exact hdrawn (writer_update_failsClean _ _ _ _ _ hfirst)
  · -- the second write cannot fail
    obtain ⟨a, s', hset, hpure⟩ := Action.perform_bind_eq_ok hfirst
    obtain ⟨-, rfl⟩ := Prod.mk.inj hpure
    obtain ⟨d, d', new, -, hd', hsettings, hs', hrun, hnew⟩ :=
      exists_run_of_update (show db.drawn.store.Sound from hs) hmem hid hset
    have hauthor : (author s' d' client).isSome = (db.drawn.author d client).isSome := by
      rw [author, author, hsettings]
      cases d.settings.provenance <;> rfl
    obtain ⟨new', hrun', hnewid, hnewid'⟩ := Update.exists_pull_after_set hid harray hrun hroot
      hauthor (.equals (.str db.fresh))
    rw [hbind] at h
    rcases Action.perform_bind_cases (update collection client (.byId (.str t))
        [.pull array (.equals (.str db.fresh))] false) (fun _ => pure ()) s' with
      ⟨e', s'', hsecond, -⟩ | ⟨a', s'', -, hbind'⟩
    · exact absurd hsecond (update_ne_error hs' hd' hnew.stored_after hnewid hrun' hnewid')
    · cases hbind'.symm.trans h

/-! ## All records -/

/-- The place of a removal by position is a slot of an array of the document. -/
theorem slot_of_removalTarget {doc : Option Json} {resolved : MutationPath} {index : Option Nat}
    {slot array : FieldPath}
    (h : Mutation.removalTarget doc resolved index = .ok (slot, array)) :
    ∃ d items segment, doc = some d ∧ d.get? array = some (.arr items) ∧ array ≠ [] ∧
      slot = array ++ [segment] := by
  obtain ⟨place, position, items, -, hslot, harray, ⟨d, hd, hitems⟩, -⟩ :=
    Mutation.removalTarget_ok h
  obtain ⟨rfl, -⟩ := MutationPath.target_ok hslot
  obtain ⟨rfl, hroot⟩ := MutationPath.target_ok harray
  exact ⟨d, items, (Segment.index position).text, hd, hitems, hroot, List.map_append⟩

/-- Looking up where a path leads changes nothing. -/
theorem perform_resolveTarget_snd (id : Json) (path : MutationPath) (db : Database) :
    ((Mutation.resolveTarget (writer collection client) id path).perform db).2 = db := by
  unfold Mutation.resolveTarget
  by_cases href : path.hasRefs = true
  · rw [if_pos href]
    exact Action.perform_bind_silent rfl fun doc =>
      Action.perform_bind_silent rfl fun resolved => rfl
  · rw [if_neg href]
    rfl

/-- A record that fails changes nothing. -/
theorem record_failsClean (hs : db.store.Sound) (hids : db.store.StringIds) (id : Json)
    (m : Mutation) : db.FailsClean (m.apply (writer collection client) user id) := by
  cases m with
  | set path value =>
    exact failsClean_bind_of_silent (perform_resolveTarget_snd id path db) fun field _ =>
      writer_update_failsClean _ _ _
  | unset path =>
    exact failsClean_bind_of_silent (perform_resolveTarget_snd id path db) fun field _ =>
      writer_update_failsClean _ _ _
  | remove path key index =>
    refine failsClean_bind_of_silent rfl fun doc hdoc => ?_
    refine failsClean_bind_of_silent rfl fun resolved _ => ?_
    cases key with
    | some key =>
      refine failsClean_bind_of_silent rfl fun array _ => ?_
      exact failsClean_bind_of_silent rfl fun selector _ => writer_update_failsClean _ _ _
    | none =>
      refine failsClean_bind_of_silent rfl fun place hplace => ?_
      obtain ⟨slot, array⟩ := place
      obtain ⟨d, items, segment, rfl, harray, hroot, rfl⟩ := slot_of_removalTarget hplace
      exact removeAt_failsClean hs hids (Except.ok.inj hdoc) harray hroot
  | insert path index element =>
    refine failsClean_bind_of_silent rfl fun doc _ => ?_
    refine failsClean_bind_of_silent rfl fun resolved _ => ?_
    exact failsClean_bind_of_silent rfl fun place _ => writer_update_failsClean _ _ _
  | create document =>
    refine failsClean_bind_of_silent rfl fun created _ => ?_
    exact FailsClean.bind_pure (fun _ _ h => insert_failed h) fun _ => ()
  | delete =>
    exact failsClean_bind_of_silent rfl fun deleted _ => writer_update_failsClean _ _ _

/-- So does a record that cannot be read. -/
theorem applyWire_failsClean (hs : db.store.Sound) (hids : db.store.StringIds) (id record : Json) :
    db.FailsClean (Payload.applyWire (writer collection client) user id record) :=
  failsClean_bind_of_silent rfl fun m _ => record_failsClean hs hids id m

end DocWatch.Database
