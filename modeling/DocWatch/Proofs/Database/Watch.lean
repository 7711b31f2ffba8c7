import DocWatch.Proofs.Database.Keeps
import DocWatch.Proofs.Database.Read
import DocWatch.Proofs.History

/-!
# No change goes unnoticed

Clients write, read, observe and stop observing in any order; one session records its reads. When
an observer is subscribed to all queries that were recorded, and one more write changes the answer
of one of these reads, then the observer is told once, and told of each read that has changed.

The invariant of such runs (`Watch.Traced`) is that the store is sound, and that the signature of
each recorded read still finds the query that was recorded. So reading once more before and after
the write answers from the documents that one live filter finds, and these change only if the query
admits the document before the write or the one after it, which is what the dispatch asks.

- `Write`: a single write by any client.
- `Watch`, `Watch.Call`, `Watch.after`: runs.
- `Watch.traced_after`: the invariant.
- `Watch.write_tells_changed_reads`: what one more write does.
-/

namespace DocWatch

/-! ## Single writes -/

/-- A single write of a client. -/
inductive Write where
  | insert (collection : String) (client : Option String) (document : Json)
  | update (collection : String) (client : Option String) (filter : Filter) (update : Update)
    (upsert : Bool)
  | delete (collection : String) (filter : Filter)

namespace Write

/-- The database after a write, whether it succeeded or not. -/
def run (db : Database) : Write → Database
  | .insert collection client doc => ((Database.insert collection client doc).perform db).2
  | .update collection client f u upsert =>
    ((Database.update collection client f u upsert).perform db).2
  | .delete collection f => ((Database.delete collection f).perform db).2

theorem keeps_run (db : Database) (write : Write) : db.Keeps (write.run db) := by
  cases write with
  | insert collection client doc => exact Database.within_insert collection client doc db
  | update collection client f u upsert =>
    exact Database.within_update collection client f u upsert db
  | delete collection f => exact Database.within_delete collection f db

/-- A write changes nothing, or it replaces a document and this is dispatched. -/
theorem unchanged_or_replaced {db : Database} (hs : db.store.Sound) (hids : db.store.StringIds)
    (write : Write) (hids' : (write.run db).store.StringIds) :
    db.Unchanged (write.run db) ∨
      ∃ collection before after, db.Replaced collection before after (write.run db) := by
  cases write with
  | insert collection client doc =>
    cases h : (Database.insert collection client doc).perform db with
    | mk r db' =>
      have hrun : (Write.insert collection client doc).run db = db' := congrArg Prod.snd h
      rw [hrun] at hids' ⊢
      cases r with
      | error e => exact .inl (Database.insert_failed h)
      | ok id => exact .inr ⟨collection, none, Database.insert_replaced hs h hids'⟩
  | update collection client f u upsert =>
    cases h : (Database.update collection client f u upsert).perform db with
    | mk r db' =>
      have hrun : (Write.update collection client f u upsert).run db = db' := congrArg Prod.snd h
      rw [hrun] at hids' ⊢
      cases r with
      | error e => exact .inl (Database.update_failed h)
      | ok touched => exact .inr ⟨collection, Database.update_replaced hs hids h hids'⟩
  | delete collection f =>
    cases h : (Database.delete collection f).perform db with
    | mk r db' =>
      have hrun : (Write.delete collection f).run db = db' := congrArg Prod.snd h
      rw [hrun]
      cases r with
      | error e => exact .inl (Database.delete_failed h)
      | ok removed => exact .inr ⟨collection, removed, none, Database.delete_replaced hs hids h⟩

end Write

/-! ## What calls do to a dispatch -/

/-- Subscriptions stay unique, queries are registered by reads only, and signatures keep their
queries. -/
structure Dispatch.Extends (d d' : Dispatch) : Prop where
  unique : d.subscriptions.Unique → d'.subscriptions.Unique
  read : d.queries.Read → d'.queries.Read
  find? : ∀ signature q, d.queries.find? signature = some q → d'.queries.find? signature = some q

theorem Dispatch.extends_refl (d : Dispatch) : d.Extends d where
  unique := id
  read := id
  find? := fun _ _ h => h

/-- What else a dispatch knows does not matter. -/
theorem Dispatch.Extends.of_same {d d' d'' : Dispatch} (h : d.Extends d')
    (hqueries : d''.queries = d'.queries) (hsubscriptions : d''.subscriptions = d'.subscriptions) :
    d.Extends d'' where
  unique := by rw [hsubscriptions]; exact h.unique
  read := by rw [hqueries]; exact h.read
  find? := by rw [hqueries]; exact h.find?

theorem Dispatch.extends_register (d : Dispatch) (collection : String) (method : ReadMethod)
    (filter : Json) : d.Extends (d.register collection method.name filter).2 where
  unique := id
  read := fun h => QueryTable.read_register h collection method filter
  find? := fun _ _ h => QueryTable.find?_register h collection method.name filter

theorem Dispatch.extends_observe (d : Dispatch) (query : QueryId) (observer : Observer)
    (tag : Option String) : d.Extends (d.observe query observer tag).2 where
  unique := fun h => Subscriptions.unique_observe h query observer tag
  read := id
  find? := fun _ _ h => h

theorem Dispatch.extends_stop (d : Dispatch) (query : QueryId) (observer : Observer) :
    d.Extends (d.stop query observer).2 where
  unique := fun h => Subscriptions.unique_stop h query observer
  read := id
  find? := fun _ _ h => h

/-- A database, and a session that records its reads. -/
structure Watch where
  database : Database
  reader : Session

namespace Watch

/-! ## Runs -/

/-- What clients do with a database, and what happens to the deliveries. -/
inductive Call where
  | write (op : Write)
  | batch (options : SessionOptions) (ops : List WriteOp)
  | read (options : SessionOptions) (collection : String) (method : ReadMethod) (filter : Json)
  /-- A read that is recorded. -/
  | record (collection : String) (method : ReadMethod) (filter : Json)
  | observe (session : Session) (query : QueryId) (observer : Observer) (tag : Option String)
  | stop (query : QueryId) (observer : Observer)
  | settle (blocks : Observer → Bool)
  | shutDown

/-- A read that is recorded, and what comes of it. -/
def recordRead (w : Watch) (collection : String) (method : ReadMethod) (filter : Json) :
    Except Error ReadResponse × Watch :=
  match (w.reader.read collection method filter).perform w.database with
  | (.ok (response, reader), database) => (.ok response, ⟨database, reader⟩)
  | (.error e, database) => (.error e, ⟨database, w.reader⟩)

/-- The state after a call. -/
def Call.run (w : Watch) : Call → Watch
  | .write op => { w with database := op.run w.database }
  | .batch options ops =>
    { w with database := ((Database.call options ops).perform w.database).2 }
  | .read options collection method filter =>
    { w with database := ((Database.read options collection method filter).perform w.database).2 }
  | .record collection method filter => (w.recordRead collection method filter).2
  | .observe session query observer tag =>
    { w with database := ((session.observe query observer tag).perform w.database).2 }
  | .stop query observer =>
    { w with database := ((Session.stop query observer).perform w.database).2 }
  | .settle blocks =>
    { w with database := { w.database with
        dispatch := w.database.dispatch.map (Dispatch.settle blocks) } }
  | .shutDown =>
    { w with database := { w.database with
        dispatch := w.database.dispatch.map Dispatch.shutDown } }

/-- A connected database without documents, and a session that has recorded nothing. -/
def start (supply : Supply) (settings : Settings) (options : SessionOptions) : Watch :=
  ⟨((Database.connect settings).perform (.create supply)).2, Session.root.recording options⟩

variable (supply : Supply) (settings : Settings) (options : SessionOptions)

/-- The state after some calls. -/
def after (calls : List Call) : Watch := calls.foldl Call.run (start supply settings options)

theorem after_concat (calls : List Call) (call : Call) :
    after supply settings options (calls ++ [call]) =
      call.run (after supply settings options calls) := by
  rw [after, List.foldl_append]
  rfl

/-- A read was recorded under the identifier of a query. -/
def Recorded (calls : List Call) (collection : String) (method : ReadMethod) (filter : Json)
    (query : QueryId) : Prop :=
  Happened (after supply settings options) (fun w call =>
    call = .record collection method filter ∧
      ∃ response, (w.recordRead collection method filter).1 = .ok response ∧
        response.query = query) calls

/-- The queries that were recorded. -/
def reads (w : Watch) : List QueryId := w.reader.reads.getD []

/-- The subscriptions that stand. -/
def subscriptions (w : Watch) : Subscriptions :=
  (w.database.dispatch.map Dispatch.subscriptions).getD []

/-- What an observer has been told when all deliveries have been made. -/
def messages (w : Watch) (identity : Nat) : List Invalidation :=
  (w.database.dispatch.map fun d => d.messages identity).getD []

/-- What a recorded read would answer now. -/
def reread (w : Watch) (collection : String) (method : ReadMethod) (filter : Json) :
    Except Error ReadResponse :=
  ((Database.read w.reader.options collection method filter).perform w.database).1

/-! ## The invariant of runs -/

variable {supply settings options}

/-- Recording a read registers its query and remembers it, or fails and remembers nothing. -/
theorem recordRead_eq {w : Watch} {d : Dispatch} (hd : w.database.dispatch = some d)
    (collection : String) (method : ReadMethod) (filter : Json) :
    w.recordRead collection method filter =
      match (d.register collection method.name filter).1 with
      | .ok q => (.ok (Database.respond w.reader.options method q.id
            (w.database.store.find collection q.filter.live)),
          ⟨{ w.database with dispatch := some (d.register collection method.name filter).2 },
            w.reader.visit q.id⟩)
      | .error e => (.error e,
          ⟨{ w.database with dispatch := some (d.register collection method.name filter).2 },
            w.reader⟩) := by
  have hread := Database.perform_read hd w.reader.options collection method filter
  unfold recordRead Session.read
  cases hregister : (d.register collection method.name filter).1 with
  | error e =>
    rw [hregister] at hread
    rw [Action.perform_bind_error hread]
  | ok q =>
    rw [hregister] at hread
    rw [Action.perform_bind_ok hread]
    rfl

/-- A visit remembers a query once. -/
theorem reads_visit {s : Session} {ids : List QueryId} (h : s.reads = some ids)
    (query : QueryId) :
    (s.visit query).reads = some (if query ∈ ids then ids else ids ++ [query]) := by
  show s.reads.map _ = _
  rw [h]
  rfl

theorem perform_observe {db : Database} {d : Dispatch} (hd : db.dispatch = some d)
    (session : Session) (query : QueryId) (observer : Observer) (tag : Option String) :
    (session.observe query observer tag).perform db =
      (.ok (d.observe query observer (tag.or session.options.tag)).1, { db with
        dispatch := some (d.observe query observer (tag.or session.options.tag)).2 }) := by
  rw [Session.observe, Action.perform_bind_ok (Database.perform_connected hd)]
  rfl

theorem perform_stop {db : Database} {d : Dispatch} (hd : db.dispatch = some d)
    (query : QueryId) (observer : Observer) :
    (Session.stop query observer).perform db =
      (.ok (d.stop query observer).1, { db with
        dispatch := some (d.stop query observer).2 }) := by
  rw [Session.stop, Action.perform_bind_ok (Database.perform_connected hd)]
  rfl

theorem store_recordRead (w : Watch) (collection : String) (method : ReadMethod) (filter : Json) :
    (w.recordRead collection method filter).2.database.store = w.database.store := by
  have hread := Database.store_read w.database w.reader.options collection method filter
  have hstate := Action.perform_bind_pure_snd
    (Database.read w.reader.options collection method filter)
    (fun response => (response, w.reader.visit response.query)) w.database
  rw [← hread, ← hstate, recordRead]
  unfold Session.read
  split
  · rename_i heq
    rw [heq]
  · rename_i heq
    rw [heq]

/-- Only writes and batches change documents. -/
theorem store_run (w : Watch) (call : Call) :
    (call.run w).database.store =
      match call with
      | .write op => (op.run w.database).store
      | .batch options ops => ((Database.call options ops).perform w.database).2.store
      | _ => w.database.store := by
  cases call with
  | write op => rfl
  | batch options ops => rfl
  | read options collection method filter => exact Database.store_read _ _ _ _ _
  | record collection method filter => exact store_recordRead w collection method filter
  | observe session query observer tag => exact Database.store_connected_bind fun _ => rfl
  | stop query observer => exact Database.store_connected_bind fun _ => rfl
  | settle blocks => rfl
  | shutDown => rfl

/-- All calls leave the store sound. -/
theorem sound_run {w : Watch} (h : w.database.store.Sound) (call : Call) :
    (call.run w).database.store.Sound := by
  have hstore := store_run w call
  cases call with
  | write op => exact (op.keeps_run w.database).sound h
  | batch options ops => exact (Database.within_call options ops w.database).sound h
  | _ => exact hstore ▸ h

/-- What a call does to queries and subscriptions. Writes do nothing to them. -/
def Call.dispatched (d : Dispatch) : Call → Dispatch
  | .read _ collection method filter => (d.register collection method.name filter).2
  | .record collection method filter => (d.register collection method.name filter).2
  | .observe session query observer tag =>
    (d.observe query observer (tag.or session.options.tag)).2
  | .stop query observer => (d.stop query observer).2
  | _ => d

/-- Reads register queries, observers subscribe and leave, and no other call changes queries or
subscriptions. -/
theorem dispatch_run {w : Watch} {d : Dispatch} (hd : w.database.dispatch = some d) (call : Call) :
    ∃ d', (call.run w).database.dispatch = some d' ∧ d'.queries = (call.dispatched d).queries ∧
      d'.subscriptions = (call.dispatched d).subscriptions := by
  cases call with
  | write op => exact (op.keeps_run w.database).exists_dispatch hd
  | batch options ops => exact (Database.within_call options ops w.database).exists_dispatch hd
  | read options collection method filter =>
    exact ⟨_, by rw [Call.run, Database.perform_read hd]; rfl, rfl, rfl⟩
  | record collection method filter =>
    refine ⟨(d.register collection method.name filter).2, ?_, rfl, rfl⟩
    rw [Call.run, recordRead_eq hd]
    cases (d.register collection method.name filter).1 <;> rfl
  | observe session query observer tag =>
    exact ⟨_, by rw [Call.run, perform_observe hd]; rfl, rfl, rfl⟩
  | stop query observer => exact ⟨_, by rw [Call.run, perform_stop hd]; rfl, rfl, rfl⟩
  | settle blocks => exact ⟨d.settle blocks, by rw [Call.run, hd]; rfl, rfl, rfl⟩
  | shutDown => exact ⟨d.shutDown, by rw [Call.run, hd]; rfl, rfl, rfl⟩

theorem Call.extends_dispatched (call : Call) (d : Dispatch) : d.Extends (call.dispatched d) := by
  cases call with
  | read options collection method filter => exact d.extends_register collection method filter
  | record collection method filter => exact d.extends_register collection method filter
  | observe session query observer tag => exact d.extends_observe query observer _
  | stop query observer => exact d.extends_stop query observer
  | _ => exact d.extends_refl

/-- The store is sound, and the signature of each recorded read finds the query that was
recorded. -/
structure Traced (supply : Supply) (settings : Settings) (options : SessionOptions)
    (calls : List Call) (w : Watch) (d : Dispatch) : Prop where
  sound : w.database.store.Sound
  dispatch : w.database.dispatch = some d
  unique : d.subscriptions.Unique
  read : d.queries.Read
  recording : w.reader.reads.isSome = true
  recorded : ∀ collection method filter query,
    Recorded supply settings options calls collection method filter query →
      query ∈ w.reads ∧ ∃ q, q.id = query ∧ d.queries.find? (Query.signatureOf collection
        (ReadMethod.name method) (QueryTable.sourceOf filter)) = some q

theorem traced_start : Traced supply settings options [] (start supply settings options)
    (.create settings) where
  sound := Store.sound_empty
  dispatch := rfl
  unique := List.Pairwise.nil
  read := fun _ hq => absurd hq List.not_mem_nil
  recording := rfl
  recorded := fun _ _ _ _ h => absurd h not_happened_nil

/-- A call keeps the invariant if it extends the dispatch, forgets no read, and registers and
remembers the query of a read that it records. -/
theorem Traced.step {calls : List Call} {d d' : Dispatch}
    (h : Traced supply settings options calls (after supply settings options calls) d)
    {call : Call} {w : Watch} (hsound : w.database.store.Sound)
    (hd : w.database.dispatch = some d') (hextends : d.Extends d')
    (hrecording : w.reader.reads.isSome = true)
    (hreads : ∀ query ∈ (after supply settings options calls).reads, query ∈ w.reads)
    (hnew : ∀ collection method filter response, call = .record collection method filter →
      ((after supply settings options calls).recordRead collection method filter).1 =
        .ok response →
      response.query ∈ w.reads ∧ ∃ q, q.id = response.query ∧
        d'.queries.find? (Query.signatureOf collection (ReadMethod.name method)
          (QueryTable.sourceOf filter)) = some q) :
    Traced supply settings options (calls ++ [call]) w d' where
  sound := hsound
  dispatch := hd
  unique := hextends.unique h.unique
  read := hextends.read h.read
  recording := hrecording
  recorded := by
    intro collection method filter query hrecorded
    rw [Recorded, happened_concat] at hrecorded
    rcases hrecorded with hold | ⟨hcall, response, hresponse, rfl⟩
    · obtain ⟨hmem, q, hid, hfind⟩ := h.recorded collection method filter query hold
      exact ⟨hreads query hmem, q, hid, hextends.find? _ q hfind⟩
    · exact hnew collection method filter response hcall hresponse

/-- A call that records nothing keeps the invariant if it extends the dispatch. -/
theorem Traced.of_extends {calls : List Call} {d d' : Dispatch}
    (h : Traced supply settings options calls (after supply settings options calls) d)
    {call : Call} {db : Database} (hdb : call.run (after supply settings options calls) =
      ⟨db, (after supply settings options calls).reader⟩)
    (hcall : ∀ collection method filter, call ≠ .record collection method filter)
    (hsound : db.store.Sound) (hd : db.dispatch = some d') (hextends : d.Extends d') :
    Traced supply settings options (calls ++ [call])
      (call.run (after supply settings options calls)) d' := by
  rw [hdb]
  exact h.step hsound hd hextends h.recording (fun _ hmem => hmem)
    fun collection method filter _ hrecord => absurd hrecord (hcall collection method filter)

/-- Recording one more read keeps the invariant. -/
theorem Traced.run_record {calls : List Call} {d : Dispatch}
    (h : Traced supply settings options calls (after supply settings options calls) d)
    (collection : String) (method : ReadMethod) (filter : Json) :
    Traced supply settings options (calls ++ [.record collection method filter])
      ((Call.record collection method filter).run (after supply settings options calls))
      (d.register collection method.name filter).2 := by
  have hextends := d.extends_register collection method filter
  have hrecord := recordRead_eq h.dispatch collection method filter
  rw [Call.run]
  cases hregister : (d.register collection method.name filter).1 with
  | error e =>
    -- nothing is recorded
    rw [hregister] at hrecord
    rw [hrecord]
    refine h.step h.sound rfl hextends h.recording (fun _ hmem => hmem) ?_
    intro collection' method' filter' response hcall hresponse
    cases hcall
    rw [hrecord] at hresponse
    cases hresponse
  | ok q =>
    rw [hregister] at hrecord
    rw [hrecord]
    obtain ⟨ids, hids⟩ := Option.isSome_iff_exists.mp h.recording
    have hreads : (after supply settings options calls).reads = ids := by
      rw [reads, hids]
      rfl
    have hvisit := reads_visit hids q.id
    refine h.step h.sound rfl hextends (by rw [hvisit]; rfl) ?_ ?_
    · intro query hmem
      rw [hreads] at hmem
      rw [reads, hvisit, Option.getD_some]
      split
      · exact hmem
      · exact List.mem_append_left _ hmem
    · intro collection' method' filter' response hcall hresponse
      cases hcall
      rw [hrecord] at hresponse
      obtain rfl := Except.ok.inj hresponse
      refine ⟨?_, q, rfl, QueryTable.find?_of_register hregister⟩
      rw [reads, hvisit, Option.getD_some]
      show q.id ∈ _
      split
      · assumption
      · exact List.mem_append_right _ List.mem_cons_self

/-- One more call keeps the invariant. -/
theorem Traced.run {calls : List Call} {d : Dispatch}
    (h : Traced supply settings options calls (after supply settings options calls) d)
    (call : Call) : ∃ d', Traced supply settings options (calls ++ [call])
      (call.run (after supply settings options calls)) d' := by
  obtain ⟨d', hd', hqueries, hsubscriptions⟩ := dispatch_run h.dispatch call
  have hextends : d.Extends d' := (call.extends_dispatched d).of_same hqueries hsubscriptions
  have hsound := sound_run h.sound call
  cases call with
  | record collection method filter => exact ⟨_, h.run_record collection method filter⟩
  | _ => exact ⟨d', h.of_extends rfl (fun _ _ _ => Call.noConfusion) hsound hd' hextends⟩

/-- The invariant of runs. -/
theorem traced_after (calls : List Call) :
    ∃ d, Traced supply settings options calls (after supply settings options calls) d := by
  induction calls using List.reverseRecOn with
  | nil => exact ⟨_, traced_start⟩
  | append_singleton calls call ih =>
    obtain ⟨d, hd⟩ := ih
    rw [after_concat]
    exact hd.run call

/-- The store of a run is sound. -/
theorem sound_after (calls : List Call) :
    (after supply settings options calls).database.store.Sound := by
  obtain ⟨d, htraced⟩ : ∃ d, Traced supply settings options calls
      (after supply settings options calls) d := traced_after calls
  exact htraced.sound

/-! ## One more write -/

/-- A read that was recorded answers from what the live filter of its query finds. -/
theorem reread_eq {w : Watch} {d : Dispatch} (hd : w.database.dispatch = some d)
    {collection : String} {method : ReadMethod} {filter : Json} {q : Query}
    (hfind : d.queries.find? (Query.signatureOf collection method.name
      (QueryTable.sourceOf filter)) = some q) :
    w.reread collection method filter = .ok (Database.respond w.reader.options method q.id
      (w.database.store.find collection q.filter.live)) := by
  rw [reread, Database.read_of_find? hd w.reader.options hfind]

/-- A write that changes the answer of a recorded read replaces a document of its collection, and
affects the query that was recorded. -/
theorem Traced.affected_of_reread_ne {calls : List Call} {w : Watch} {d : Dispatch}
    (h : Traced supply settings options calls w d) {db : Database} {name : String}
    {before after : Option Json} (hreplaced : w.database.Replaced name before after db)
    {collection : String} {method : ReadMethod} {filter : Json} {query : QueryId}
    (hrecorded : Recorded supply settings options calls collection method filter query)
    (hne : w.reread collection method filter ≠
      Watch.reread { w with database := db } collection method filter) :
    query ∈ d.queries.affected name before after := by
  obtain ⟨-, q, rfl, hfind⟩ := h.recorded collection method filter query hrecorded
  obtain ⟨hq, hcollection⟩ := QueryTable.collection_of_find? h.read hfind
  have hd' : db.dispatch = some (d.notify name before after).2 := by
    rw [hreplaced.dispatch, h.dispatch]
    rfl
  -- both answers come from what one live filter finds
  have hfound : w.database.store.find collection q.filter.live ≠
      db.store.find collection q.filter.live := by
    intro heq
    refine hne ?_
    rw [reread_eq h.dispatch hfind, reread_eq (w := { w with database := db }) hd' hfind, heq]
  obtain ⟨rfl, hadmits⟩ := hreplaced.store.admits_of_find_ne hfound
  exact (QueryTable.mem_affected_iff _ _ _ _ _).mpr ⟨q, hq, rfl, hcollection, hadmits⟩

/-- What changes nothing changes the answer of no recorded read. -/
theorem Traced.reread_eq_of_unchanged {calls : List Call} {w : Watch} {d : Dispatch}
    (h : Traced supply settings options calls w d) {db : Database}
    (hunchanged : w.database.Unchanged db) {collection : String} {method : ReadMethod}
    {filter : Json} {query : QueryId}
    (hrecorded : Recorded supply settings options calls collection method filter query) :
    w.reread collection method filter =
      Watch.reread { w with database := db } collection method filter := by
  obtain ⟨-, q, -, hfind⟩ := h.recorded collection method filter query hrecorded
  let w' : Watch := { w with database := db }
  have hd' : w'.database.dispatch = some d := hunchanged.dispatch.trans h.dispatch
  rw [reread_eq h.dispatch hfind, reread_eq hd' hfind, Store.find_live, Store.find_live,
    hunchanged.documents]

/-- A recorded read whose answer changes is among the hits of an observer of its query. -/
theorem Traced.exists_hit_of_reread_ne {calls : List Call} {w : Watch} {d : Dispatch}
    (h : Traced supply settings options calls w d) {db : Database} {name : String}
    {before after : Option Json} (hreplaced : w.database.Replaced name before after db)
    {identity : Nat} (hobserved : ∀ query ∈ w.reads, ∃ s ∈ w.subscriptions,
      s.query = query ∧ s.observer.identity = identity)
    {collection : String} {method : ReadMethod} {filter : Json} {query : QueryId}
    (hrecorded : Recorded supply settings options calls collection method filter query)
    (hne : w.reread collection method filter ≠
      Watch.reread { w with database := db } collection method filter) :
    ∃ hit ∈ d.subscriptions.hitsOf (d.queries.affected name before after) identity,
      hit.query = query := by
  have haffected := h.affected_of_reread_ne hreplaced hrecorded hne
  obtain ⟨hread, -⟩ := h.recorded collection method filter query hrecorded
  obtain ⟨s, hs, hquery⟩ := hobserved query hread
  rw [subscriptions, h.dispatch] at hs
  obtain ⟨tag, htag⟩ := Option.isSome_iff_exists.mp
    ((Subscriptions.tagOf_isSome_iff d.subscriptions query identity).mpr ⟨s, hs, hquery⟩)
  exact ⟨⟨query, tag⟩, (Subscriptions.mem_hitsOf_iff _ _ _ _).mpr ⟨haffected, htag⟩, rfl⟩

/-- **No change goes unnoticed.** After any calls, let an observer be subscribed to all queries
that a session has recorded, and let all identities be strings before and after one more write. If
the write changes what a recorded read answers, then it adds just one message for the observer, and
this message names the query of each recorded read whose answer has changed. -/
theorem write_tells_changed_reads (supply : Supply) (settings : Settings)
    (options : SessionOptions) (calls : List Call) (op : Write) (identity : Nat)
    (hids : (after supply settings options calls).database.store.StringIds)
    (hids' : (after supply settings options (calls ++ [.write op])).database.store.StringIds)
    (hobserved : ∀ query ∈ (after supply settings options calls).reads,
      ∃ s ∈ (after supply settings options calls).subscriptions,
        s.query = query ∧ s.observer.identity = identity)
    (hchanged : ∃ collection method filter query,
      Recorded supply settings options calls collection method filter query ∧
      (after supply settings options calls).reread collection method filter ≠
        (after supply settings options (calls ++ [.write op])).reread collection method filter) :
    ∃ invalidation,
      ((after supply settings options (calls ++ [.write op])).messages identity).Perm
        (invalidation :: (after supply settings options calls).messages identity) ∧
      ∀ collection method filter query,
        Recorded supply settings options calls collection method filter query →
        (after supply settings options calls).reread collection method filter ≠
          (after supply settings options (calls ++ [.write op])).reread collection method filter →
        ∃ hit ∈ invalidation.hits, hit.query = query := by
  obtain ⟨d, htraced⟩ : ∃ d, Traced supply settings options calls
      (after supply settings options calls) d := traced_after calls
  rw [after_concat] at hids' hchanged ⊢
  generalize hw : after supply settings options calls = w at *
  rw [Call.run] at hids' hchanged ⊢
  obtain ⟨collection₀, method₀, filter₀, query₀, hrecorded₀, hne₀⟩ := hchanged
  rcases op.unchanged_or_replaced htraced.sound hids hids' with
    hunchanged | ⟨name, before, after', hreplaced⟩
  · -- a write that changes nothing changes no answer
    exact absurd (htraced.reread_eq_of_unchanged hunchanged hrecorded₀) hne₀
  · have hmessages :=
      Dispatch.messages_notify_of_unique htraced.unique name before after' identity
    obtain ⟨hit, hmem, -⟩ :=
      htraced.exists_hit_of_reread_ne hreplaced hobserved hrecorded₀ hne₀
    rw [if_neg (List.ne_nil_of_mem hmem)] at hmessages
    refine ⟨⟨name, d.subscriptions.hitsOf (d.queries.affected name before after') identity⟩, ?_,
      fun collection method filter query hrecorded hne =>
        htraced.exists_hit_of_reread_ne hreplaced hobserved hrecorded hne⟩
    rw [messages, messages, htraced.dispatch]
    show ((Option.map _ (op.run w.database).dispatch).getD []).Perm _
    rw [hreplaced.dispatch, htraced.dispatch]
    exact hmessages

/-- Fresh identities that are all the same, and a clock that stands still. -/
def stillSupply : Supply := ⟨fun _ => "fresh", fun _ => ⟨0, 0⟩, 0⟩

/-- A recorded read of all documents of a collection, and an observer of it. -/
def watching : List Call := [.record "t" .find .null, .observe .root 1 ⟨7, false⟩ none]

/-- A document that is added to the collection. -/
def addition : Write := .insert "t" none (.obj [("_id", .str "n")])

/-- The observer is told of the document that is added. -/
theorem addition_is_told :
    ∃ invalidation,
      ((after stillSupply .standard .anonymous (watching ++ [.write addition])).messages 7).Perm
        (invalidation :: (after stillSupply .standard .anonymous watching).messages 7) ∧
      ∃ hit ∈ invalidation.hits, hit.query = 1 := by
  have hempty : (after stillSupply .standard .anonymous watching).database.store = [] := by decide
  have hadded : (after stillSupply .standard .anonymous
      (watching ++ [.write addition])).database.store =
        [("t", [("\"n\"", .obj [("_id", .str "n")])])] := by decide
  have hids' : (after stillSupply .standard .anonymous
      (watching ++ [.write addition])).database.store.StringIds := by
    rw [hadded]
    exact Store.stringIds_singleton (t := "n") rfl
  have hrecorded : Recorded stillSupply .standard .anonymous watching "t" .find .null 1 :=
    ⟨[], _, _, rfl, rfl, _, rfl, rfl⟩
  have hne : (after stillSupply .standard .anonymous watching).reread "t" .find .null ≠
      (after stillSupply .standard .anonymous (watching ++ [.write addition])).reread "t" .find
        .null := by
    intro heq
    have hresult := congrArg (Except.map ReadResponse.result) heq
    revert hresult
    show Except.ok (Json.arr []) = Except.ok (Json.arr [.obj [("_id", .str "n")]]) → False
    simp
  obtain ⟨invalidation, hperm, hhits⟩ := write_tells_changed_reads stillSupply .standard .anonymous
    watching addition 7 (by rw [hempty]; exact fun _ kd hkd => absurd hkd List.not_mem_nil) hids'
    (fun query hquery => ⟨_, List.mem_cons_self, (List.mem_singleton.mp hquery).symm, rfl⟩)
    ⟨"t", .find, .null, 1, hrecorded, hne⟩
  exact ⟨invalidation, hperm, hhits "t" .find .null 1 hrecorded hne⟩

end Watch
end DocWatch
