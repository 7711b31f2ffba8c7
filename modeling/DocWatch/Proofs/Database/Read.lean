import DocWatch.Database
import DocWatch.Proofs.Database.Write
import DocWatch.Proofs.Query
import DocWatch.Proofs.Signature

/-!
# Reads of the database

A read registers its query, and answers from the documents that the live filter of the registered
query finds. So once the signature of a read is registered, its answer depends on these documents
alone.

- `Database.perform_read`: what a read comes to.
- `Database.read_of_find?`: a read whose signature is registered.
- `QueryTable.collection_of_find?`: the query that a read finds is one of its own collection.
-/

namespace DocWatch

/-- All queries were registered by reads. -/
def QueryTable.Read (t : QueryTable) : Prop := ∀ q ∈ t.queries, ∃ m : ReadMethod, q.method = m.name

/-- The query that the signature of a read finds is one of its collection. -/
theorem QueryTable.collection_of_find? {t : QueryTable} (ht : t.Read) {collection : String}
    {m : ReadMethod} {source : Json} {q : Query}
    (h : t.find? (Query.signatureOf collection m.name source) = some q) :
    q ∈ t.queries ∧ q.collection = collection := by
  have hq := List.mem_of_find?_eq_some h
  have hsignature : q.signature = Query.signatureOf collection m.name source := by
    simpa using List.find?_some h
  obtain ⟨m', hm'⟩ := ht q hq
  rw [Query.signature, hm'] at hsignature
  exact ⟨hq, (Query.signatureOf_inj hsignature).1⟩

theorem QueryTable.read_register {t : QueryTable} (ht : t.Read) (collection : String)
    (m : ReadMethod) (filter : Json) : (t.register collection m.name filter).2.Read := by
  intro q hq
  rcases method_of_mem_register hq with hold | hnew
  · exact ht q hold
  · exact ⟨m, hnew⟩

namespace Database

variable {db : Database} {d : Dispatch}

/-- The answer of a read from the documents that it finds. -/
def respond (options : SessionOptions) (method : ReadMethod) (query : QueryId)
    (found : List Json) : ReadResponse :=
  let docs := if method.isSingle then found.take 1 else found
  ⟨query, if method.isSingle then docs.head?.getD .null else .arr docs,
    if options.withProvenance then some (Document.fieldProvenance docs) else none⟩

theorem perform_registerQuery (hd : db.dispatch = some d) (collection : String)
    (method : ReadMethod) (filter : Json) :
    (registerQuery collection method filter).perform db =
      ((d.register collection method.name filter).1,
        { db with dispatch := some (d.register collection method.name filter).2 }) := by
  rw [registerQuery, Action.perform_bind_ok (perform_connected hd)]
  rfl

/-- A read registers its query and answers from what its live filter finds, or fails to register
it. -/
theorem perform_read (hd : db.dispatch = some d) (options : SessionOptions) (collection : String)
    (method : ReadMethod) (filter : Json) :
    (read options collection method filter).perform db =
      ((d.register collection method.name filter).1.map fun q =>
          respond options method q.id (db.store.find collection q.filter.live),
        { db with dispatch := some (d.register collection method.name filter).2 }) := by
  unfold read
  have hregister := perform_registerQuery hd collection method filter
  cases hanswer : (d.register collection method.name filter).1 with
  | error e =>
    rw [hanswer] at hregister
    exact Action.perform_bind_error hregister
  | ok q =>
    rw [hanswer] at hregister
    exact Action.perform_bind_ok hregister

/-- A read whose signature is registered answers from what the live filter of that query finds, and
changes nothing. -/
theorem read_of_find? (hd : db.dispatch = some d) (options : SessionOptions) {collection : String}
    {method : ReadMethod} {filter : Json} {q : Query}
    (h : d.queries.find? (Query.signatureOf collection method.name
      (QueryTable.sourceOf filter)) = some q) :
    (read options collection method filter).perform db =
      (.ok (respond options method q.id (db.store.find collection q.filter.live)), db) := by
  have hregister : d.register collection method.name filter = (.ok q, d) := by
    unfold Dispatch.register QueryTable.register
    simp only [h]
  rw [perform_read hd, hregister, ← hd]
  rfl

/-- What is done with the dispatch leaves the documents as they are. -/
theorem store_connected_bind {α : Type} {f : Dispatch → Action Database α} {db : Database}
    (hf : ∀ d, ((f d).perform db).2.store = db.store) :
    ((connected >>= f).perform db).2.store = db.store := by
  cases hd : db.dispatch with
  | none => rw [Action.perform_bind_error (perform_connected_none hd)]
  | some d =>
    rw [Action.perform_bind_ok (perform_connected hd)]
    exact hf d

/-- A read leaves the documents as they are. -/
theorem store_read (db : Database) (options : SessionOptions) (collection : String)
    (method : ReadMethod) (filter : Json) :
    ((read options collection method filter).perform db).2.store = db.store := by
  have hregister : ((registerQuery collection method filter).perform db).2.store = db.store :=
    store_connected_bind fun _ => rfl
  refine Action.state_bind (P := fun t : Database => t.store = db.store) hregister ?_
  intro q t ht
  rw [ht] at hregister
  exact hregister

end Database
end DocWatch
