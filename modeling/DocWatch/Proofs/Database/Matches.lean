import DocWatch.Proofs.Database.Queries
import DocWatch.Proofs.Database.Reached

/-!
# Reads and the dispatch look at documents alike

Documents that are marked as deleted are left out twice. A read adds a clause to its filter, and a
registered query looks for the mark itself when the dispatch asks whether it admits a document. All
documents of a database are objects, and of objects both say the same. So a read answers just those
documents that the query under which it is answered admits.

- `Store.shown`: the documents that a filter shows to readers.
- `Store.find_live_eq_shown`, `Query.admits_iff_mem_shown`: what a live filter finds, and what a
  query admits.
- `Filter.compile_sourceOf`: a read without a filter.
- `Watch.reads_match`: what a read answers, and what its query admits.
-/

namespace DocWatch

/-! ## What readers see -/

/-- The documents of a collection that a filter selects and that are not marked as deleted, in
order. -/
def Store.shown (s : Store) (name : String) (f : Filter) : List Json :=
  (s.lists name).filter fun doc => f.selects doc && (doc.field? "_deleted").isNone

theorem Document.isDeleted_eq (doc : Json) :
    (!Document.isDeleted doc) = (doc.field? "_deleted").isNone := by
  rw [Document.isDeleted, Document.deletedField, Option.not_isSome]

/-- A live filter finds what the filter shows. -/
theorem Store.find_live_eq_shown {s : Store} {name : String}
    (h : ∀ doc ∈ s.lists name, doc.isObject = true) (f : Filter) :
    s.find name f.live = s.shown name f := by
  rw [find_live, ← lists_eq, shown]
  refine List.filter_congr fun doc hdoc => ?_
  rw [Filter.live_selects (h doc hdoc), Document.isDeleted_eq]

/-- A query admits a document of a collection just if its filter shows it. -/
theorem Query.admits_iff_mem_shown (q : Query) {s : Store} {name : String} {doc : Json}
    (h : doc ∈ s.lists name) : q.admits (some doc) = true ↔ doc ∈ s.shown name q.filter := by
  rw [Query.admits, Document.isDeleted_eq, Bool.and_comm, Store.shown, List.mem_filter]
  exact (and_iff_right h).symm

/-- Without a filter, a read compiles the empty one. It selects the same. -/
theorem Filter.compile_sourceOf (filter : Json) :
    Filter.compile (QueryTable.sourceOf filter) =
      (Filter.compile filter).map fun f => { f with source := QueryTable.sourceOf filter } := by
  cases filter with
  | null => rfl
  | _ =>
    rw [QueryTable.sourceOf, if_neg (by simp [Json.isNull])]
    cases hcompile : Filter.compile _ with
    | error e => rfl
    | ok f =>
      rw [Except.map, ← Filter.source_of_compile hcompile]

/-- A read of several documents answers what it finds, and a read of one document answers the first
of them. -/
theorem Database.result_respond (options : SessionOptions) (method : ReadMethod) (query : QueryId)
    (found : List Json) : (respond options method query found).result =
      match method with
      | .find => .arr found
      | .findOne => found.head?.getD .null := by
  cases method with
  | find => rfl
  | findOne => cases found <;> rfl

/-- What a filter shows, from tables that number the documents as they are added. -/
theorem Tables.shown_of_matching {s : Store} {visited : List (Store.Call × Visit)}
    (hs : s = Store.after (visited.map Prod.fst)) {name : String}
    (hobjects : ∀ doc ∈ s.lists name, doc.isObject = true) (visit : Visit) (f : Filter) :
    (((Tables.after visited).table name).matching visit f.live).map Numbered.doc =
        s.shown name f ∧
      (((Tables.after visited).table name).matching visit f.live).Pairwise
        fun a b => a.number < b.number := by
  have hshows := Tables.shows_after visited name
  rw [← hs] at hshows
  have hnd : s.Distinct := hs ▸ Store.distinct_after _
  refine ⟨?_, hshows.matching_pairwise visit (Filter.idEquality?_live f)⟩
  rw [hshows.matching (hnd name), ← Store.find_live_eq_shown hobjects]
  rfl

namespace Watch

/-- **Reads answer what their queries admit.** After any calls, a read of several documents answers
the documents of its collection that its filter selects and that have no mark of a deletion, and a
read of one document the first of these or nothing. They stand in the order in which they were
added: tables that give each added document the next number, in the history of these calls, find the
same ones in the order of these numbers. The query under which the read is answered admits a
document of the collection just if it is among them. A filter that does not compile changes
nothing. -/
theorem reads_match (supply : Supply) (settings : Settings) (options : SessionOptions)
    (calls : List Call) (options' : SessionOptions) (collection : String) (method : ReadMethod)
    (filter : Json) :
    let db := (after supply settings options calls).database
    match Filter.compile filter with
    | .error e => (Database.read options' collection method filter).perform db =
        (.error (.compilation e), db)
    | .ok f => ∃ response d q,
        (Database.read options' collection method filter).perform db =
          (.ok response, { db with dispatch := some d }) ∧
        d.queries.get? response.query = some q ∧ q.collection = collection ∧
        response.result = (match method with
          | .find => .arr (db.store.shown collection f)
          | .findOne => (db.store.shown collection f).head?.getD .null) ∧
        (∀ doc ∈ db.store.lists collection,
          q.admits (some doc) = true ↔ doc ∈ db.store.shown collection f) ∧
        ∃ history, History supply settings options calls history ∧
          ∀ visited : List (Store.Call × Visit), visited.map Prod.fst = history → ∀ visit,
            (((Tables.after visited).table collection).matching visit f.live).map Numbered.doc =
                db.store.shown collection f ∧
              (((Tables.after visited).table collection).matching visit f.live).Pairwise
                fun a b => a.number < b.number := by
  intro db
  obtain ⟨d, hd, hregisters⟩ := exists_registers supply settings options calls
  have hread := Database.read_describes hd hregisters options' ⟨collection, method, filter⟩
  rw [Reading.source, Filter.compile_sourceOf] at hread
  cases hcompile : Filter.compile filter with
  | error e =>
    rw [hcompile] at hread
    exact hread
  | ok f =>
    rw [hcompile] at hread
    obtain ⟨q, d', hperform, hget, hfilter, hdescribes⟩ := hread
    have hobjects : ∀ doc ∈ db.store.lists collection, doc.isObject = true :=
      fun doc hdoc => isObject_of_mem_lists hdoc
    obtain ⟨history, hhistory⟩ := exists_history supply settings options calls
    refine ⟨_, d', q, hperform, hget, hdescribes.collection, ?_, fun doc hdoc => ?_, history,
      hhistory, ?_⟩
    · rw [Database.result_respond, Store.find_live_eq_shown hobjects]
      rfl
    · rw [q.admits_iff_mem_shown hdoc, hfilter]
      rfl
    · intro visited hvisited visit
      exact Tables.shown_of_matching (hvisited ▸ hhistory.store) hobjects visit f

/-- Writes are not attributed. -/
def unattributed : Settings := { Settings.standard with provenance := false }

/-- Two documents, one of them with a mark of a deletion. -/
def halfDeleted : List Call :=
  [.write (.insert "t" none (.obj [("_id", .str "a")])),
    .write (.insert "t" none (.obj [("_id", .str "b"), ("_deleted", .null)]))]

/-- A read without a filter answers the other one, and its query admits just this one. -/
theorem halfDeleted_read : ∃ response d q,
    ((Database.read .anonymous "t" .find .null).perform
        (after stillSupply unattributed .anonymous halfDeleted).database).1 = .ok response ∧
      QueryTable.get? d response.query = some q ∧
      response.result = .arr [.obj [("_id", .str "a")]] ∧
      q.admits (some (.obj [("_id", .str "a")])) = true ∧
      q.admits (some (.obj [("_id", .str "b"), ("_deleted", .null)])) = false := by
  obtain ⟨response, d, q, hread, hget, -, hresult, hadmits, -⟩ :=
    reads_match stillSupply unattributed .anonymous halfDeleted .anonymous "t" .find .null
  have hshown : (after stillSupply unattributed .anonymous halfDeleted).database.store.shown "t"
      ⟨.all [], .null⟩ = [.obj [("_id", .str "a")]] := by decide
  rw [hshown] at hresult hadmits
  refine ⟨response, d.queries, q, congrArg Prod.fst hread, hget, hresult, ?_, ?_⟩
  · exact (hadmits _ (by decide)).mpr List.mem_cons_self
  · rw [← Bool.not_eq_true, hadmits _ (by decide)]
    decide

end Watch
end DocWatch
