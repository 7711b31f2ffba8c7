import DocWatch.Proofs.Database.Watch
import DocWatch.Proofs.Store.Lookup
import DocWatch.Proofs.Store.Numbered

/-!
# Documents change by calls of the store only

Whatever clients do with a database, alone or in batches, the documents in it are those that some
calls of the store lead to. So what holds after every run of such calls holds of every database that
clients meet. In particular the documents are objects, and tables that number documents as they are
added show the same ones in the order of these numbers.

- `Database.Reaches`: calls of the store lead from one database to another.
- `Watch.History`, `Watch.exists_history`: the calls of the store that a run comes to.
- `Watch.isObject_of_mem_lists`: all documents are objects.
-/

namespace DocWatch

namespace Database

/-- Some calls of the store lead from the documents of one database to those of another. -/
def Reaches (db db' : Database) : Prop :=
  ∃ history : List Store.Call, db'.store = history.foldl (fun s call => call.run s) db.store

instance : IsPreorder Database Reaches where
  refl _ := ⟨[], rfl⟩
  trans _ _ _ := by
    rintro ⟨history, hstore⟩ ⟨history', hstore'⟩
    refine ⟨history ++ history', ?_⟩
    rw [List.foldl_append, ← hstore, hstore']

theorem reaches_of_same {db db' : Database} (h : db'.store = db.store) : db.Reaches db' := ⟨[], h⟩

theorem reaches_of_call {db db' : Database} (call : Store.Call)
    (h : db'.store = call.run db.store) : db.Reaches db' := ⟨[call], h⟩

theorem reaches_singleWrites : SingleWrites Reaches where
  insert := by
    intro collection client doc db
    cases hd : db.dispatch with
    | none => exact reaches_of_same (by rw [perform_insert_none hd])
    | some d =>
      refine reaches_of_call
        (.insert collection db.fresh (attributed doc (db.author d client))) ?_
      rw [perform_insert hd, Store.Call.run]
      cases db.store.insert collection db.fresh (attributed doc (db.author d client)) with
      | mk r s => cases r <;> rfl
  update := by
    intro collection client f u upsert db
    cases hd : db.dispatch with
    | none => exact reaches_of_same (by rw [perform_update_none hd])
    | some d =>
      refine reaches_of_call
        (.update collection db.fresh f (u.attributed (db.author d client)) upsert) ?_
      rw [perform_update hd, Store.Call.run]
      cases db.store.update collection db.fresh f (u.attributed (db.author d client)) upsert with
      | mk r s => cases r <;> rfl
  delete := by
    intro collection f db
    cases hd : db.dispatch with
    | none => exact reaches_of_same (by rw [perform_delete_none hd])
    | some d =>
      refine reaches_of_call (.delete collection f) ?_
      rw [perform_delete hd, Store.Call.run]
      rfl
  freshIdentity := fun _ => reaches_of_same rfl

end Database

theorem Write.reaches_run (db : Database) (op : Write) : db.Reaches (op.run db) := by
  cases op with
  | insert collection client doc =>
    exact Database.reaches_singleWrites.insert collection client doc db
  | update collection client f u upsert =>
    exact Database.reaches_singleWrites.update collection client f u upsert db
  | delete collection f => exact Database.reaches_singleWrites.delete collection f db

namespace Watch

theorem reaches_run (w : Watch) (call : Call) : w.database.Reaches (call.run w).database := by
  have hstore := store_run w call
  cases call with
  | write op => exact op.reaches_run w.database
  | batch options ops => exact Database.reaches_singleWrites.call options ops w.database
  | _ => exact Database.reaches_of_same hstore

/-! ## Runs -/

/-- Calls of the store that do to the documents what the calls of a run do, one after another. -/
inductive History (supply : Supply) (settings : Settings) (options : SessionOptions) :
    List Call → List Store.Call → Prop
  | nil : History supply settings options [] []
  | concat {calls : List Call} {history more : List Store.Call} {call : Call}
      (h : History supply settings options calls history)
      (hmore : (call.run (after supply settings options calls)).database.store =
        more.foldl (fun s call => call.run s)
          (after supply settings options calls).database.store) :
      History supply settings options (calls ++ [call]) (history ++ more)

variable {supply : Supply} {settings : Settings} {options : SessionOptions}

/-- The documents after a run are those that its history leads to. -/
theorem History.store {calls : List Call} {history : List Store.Call}
    (h : History supply settings options calls history) :
    (after supply settings options calls).database.store = Store.after history := by
  induction h with
  | nil => rfl
  | concat h hmore ih =>
    rw [after_concat, hmore, ih, Store.after, Store.after, List.foldl_append]

/-- Every run has a history. -/
theorem exists_history (supply : Supply) (settings : Settings) (options : SessionOptions)
    (calls : List Call) : ∃ history, History supply settings options calls history := by
  induction calls using List.reverseRecOn with
  | nil => exact ⟨[], .nil⟩
  | append_singleton calls call ih =>
    obtain ⟨history, h⟩ := ih
    obtain ⟨more, hmore⟩ := reaches_run (after supply settings options calls) call
    exact ⟨history ++ more, .concat h hmore⟩

/-- All documents after a run are objects. -/
theorem isObject_of_mem_lists {calls : List Call} {name : String} {doc : Json}
    (h : doc ∈ (after supply settings options calls).database.store.lists name) :
    doc.isObject = true := by
  obtain ⟨history, hhistory⟩ := exists_history supply settings options calls
  rw [hhistory.store, Store.lists_eq] at h
  obtain ⟨⟨key, doc'⟩, hmem, rfl⟩ := List.mem_map.mp h
  obtain ⟨origin, id, -, hid, -⟩ := Store.rooted_after history name (key, doc') hmem
  exact Document.isObject_of_id? hid

end Watch
end DocWatch
