import DocWatch.Proofs.Database.Watch
import DocWatch.Proofs.Query.Index

/-!
# Reads and their identifiers

Reads are the only calls that register queries. So after any calls the registered queries are those
of the distinct reads among them, and each read was answered with the identifier of the query that
describes it.

- `Watch.readings`: the reads of a run, and `Watch.Answered`: what they were answered with.
- `Watch.queries_run`: what one call does to the registered queries.
- `Database.read_describes`: what one more read comes to.
- `Watch.reads_identified`: two reads share their identifier just if they share their key.
-/

namespace DocWatch

namespace Database

variable {db : Database} {d : Dispatch}

/-- A read of a database with the queries of some reads. If the filter compiles, then the read is
answered under a query that describes it; otherwise it changes nothing. -/
theorem read_describes (hd : db.dispatch = some d) {reads : List Reading}
    (hregisters : d.queries.Registers reads) (options : SessionOptions) (r : Reading) :
    match Filter.compile r.source with
    | .error e => (read options r.collection r.method r.filter).perform db =
        (.error (.compilation e), db)
    | .ok f => ∃ q d', (read options r.collection r.method r.filter).perform db =
          (.ok (respond options r.method q.id (db.store.find r.collection f.live)),
            { db with dispatch := some d' }) ∧
        d'.queries.get? q.id = some q ∧ q.filter = f ∧ q.Describes r := by
  have hread := perform_read hd options r.collection r.method r.filter
  obtain ⟨hregisters', ⟨q, hq, hdescribes, hanswer⟩ | ⟨e, hcompile, hreg⟩⟩ :=
    hregisters.register r
  · rw [hdescribes.filter]
    have hanswer' : (d.register r.collection r.method.name r.filter).1 = .ok q := hanswer
    rw [hanswer'] at hread
    exact ⟨q, _, hread, hregisters'.get?_of_mem hq, rfl, hdescribes⟩
  · rw [hcompile]
    have hreg' : d.register r.collection r.method.name r.filter = (.error (.compilation e), d) := by
      show ((r.register d.queries).1, { d with queries := (r.register d.queries).2 }) = _
      rw [hreg]
    rw [hreg', ← hd] at hread
    exact hread

end Database

namespace Watch

/-! ## The reads of a run -/

/-- What a call reads. -/
def Call.reading? : Call → Option Reading
  | .read _ collection method filter => some ⟨collection, method, filter⟩
  | .record collection method filter => some ⟨collection, method, filter⟩
  | _ => none

/-- What a call that reads answers. -/
def Call.response? (w : Watch) : Call → Option (Except Error ReadResponse)
  | .read options collection method filter =>
    some ((Database.read options collection method filter).perform w.database).1
  | .record collection method filter => some (w.recordRead collection method filter).1
  | _ => none

/-- The reads of a run, in order. -/
def readings (calls : List Call) : List Reading := calls.filterMap Call.reading?

theorem readings_concat (calls : List Call) (call : Call) :
    readings (calls ++ [call]) = readings calls ++ call.reading?.toList := by
  rw [readings, List.filterMap_append, readings]
  cases h : call.reading? <;> simp [h]

variable (supply : Supply) (settings : Settings) (options : SessionOptions)

/-- A read of the run succeeded under an identifier. -/
def Answered (calls : List Call) (r : Reading) (id : QueryId) : Prop :=
  Happened (after supply settings options) (fun w call => call.reading? = some r ∧
    ∃ response, call.response? w = some (.ok response) ∧ response.query = id) calls

variable {supply settings options}

/-! ## What calls do to the registered queries -/

/-- A read registers its query; no other call registers any. -/
theorem queries_run {w : Watch} {d : Dispatch} (hd : w.database.dispatch = some d) (call : Call) :
    ∃ d', (call.run w).database.dispatch = some d' ∧ d'.queries =
      match call.reading? with
      | some r => (r.register d.queries).2
      | none => d.queries := by
  obtain ⟨d', hd', hqueries, -⟩ := dispatch_run hd call
  refine ⟨d', hd', hqueries.trans ?_⟩
  cases call <;> rfl

/-- The registered queries after a run are those of its reads. -/
theorem queries_after (supply : Supply) (settings : Settings) (options : SessionOptions)
    (calls : List Call) : ∃ d,
    (after supply settings options calls).database.dispatch = some d ∧
      d.queries = QueryTable.after (readings calls) := by
  induction calls using List.reverseRecOn with
  | nil => exact ⟨.create settings, rfl, rfl⟩
  | append_singleton calls call ih =>
    obtain ⟨d, hd, hqueries⟩ := ih
    obtain ⟨d', hd', hqueries'⟩ := queries_run hd call
    refine ⟨d', by rw [after_concat, hd'], ?_⟩
    rw [hqueries', hqueries, readings_concat]
    cases call.reading? with
    | none => rw [Option.toList_none, List.append_nil]
    | some r => rw [Option.toList_some, QueryTable.after_concat]

/-- The registered queries after a run are those of its distinct reads. -/
theorem exists_registers (supply : Supply) (settings : Settings) (options : SessionOptions)
    (calls : List Call) : ∃ d,
    (after supply settings options calls).database.dispatch = some d ∧
      d.queries.Registers (readings calls) := by
  obtain ⟨d, hd, hqueries⟩ := queries_after supply settings options calls
  exact ⟨d, hd, hqueries ▸ QueryTable.registers_after (readings calls)⟩

/-! ## What reads are answered with -/

/-- A read that succeeds answers the identifier of the query that it registers. -/
theorem query_of_response {w : Watch} {d : Dispatch} (hd : w.database.dispatch = some d)
    {call : Call} {r : Reading} {response : ReadResponse} (hr : call.reading? = some r)
    (h : call.response? w = some (.ok response)) :
    ∃ q, (r.register d.queries).1 = .ok q ∧ response.query = q.id := by
  have hanswer : ∃ options, ((r.register d.queries).1.map fun q => Database.respond options
      r.method q.id (w.database.store.find r.collection q.filter.live)) = .ok response := by
    cases call with
    | read options collection method filter =>
      obtain rfl := Option.some.inj hr
      have hread := Option.some.inj h
      rw [Database.perform_read hd] at hread
      exact ⟨options, hread⟩
    | record collection method filter =>
      obtain rfl := Option.some.inj hr
      have hrecord := Option.some.inj h
      rw [recordRead_eq hd] at hrecord
      refine ⟨w.reader.options, ?_⟩
      show (d.register collection method.name filter).1.map _ = _
      revert hrecord
      cases (d.register collection method.name filter).1 with
      | error e => exact fun hrecord => hrecord
      | ok q => exact fun hrecord => hrecord
    | _ => cases hr
  obtain ⟨options, hanswer⟩ := hanswer
  cases hreg : (r.register d.queries).1 with
  | error e =>
    rw [hreg] at hanswer
    cases hanswer
  | ok q =>
    rw [hreg] at hanswer
    obtain rfl := Except.ok.inj hanswer
    exact ⟨q, rfl, rfl⟩

/-- Each read was answered with the identifier of the query that describes it, which is still
registered. -/
theorem exists_describes_of_answered {calls : List Call} {r : Reading} {id : QueryId}
    (h : Answered supply settings options calls r id) :
    ∃ q ∈ (QueryTable.after (readings calls)).queries, q.id = id ∧ q.Describes r := by
  induction calls using List.reverseRecOn with
  | nil => exact absurd h not_happened_nil
  | append_singleton calls call ih =>
    rw [Answered, happened_concat] at h
    rcases h with hold | ⟨hr, response, hresponse, rfl⟩
    · -- registrations only add queries
      obtain ⟨q, hq, hid, hdescribes⟩ := ih hold
      refine ⟨q, ?_, hid, hdescribes⟩
      rw [readings_concat]
      cases call.reading? with
      | none => rwa [Option.toList_none, List.append_nil]
      | some r' =>
        rw [Option.toList_some, QueryTable.after_concat]
        exact QueryTable.mem_register_of_mem hq _ _ _
    · obtain ⟨d, hd, hqueries⟩ := queries_after supply settings options calls
      obtain ⟨q, hanswer, hquery⟩ := query_of_response hd hr hresponse
      rw [hqueries] at hanswer
      obtain ⟨hq, hdescribes⟩ :=
        (QueryTable.registers_after (readings calls)).describes_of_register hanswer
      rw [readings_concat, hr, Option.toList_some, QueryTable.after_concat]
      exact ⟨q, hq, hquery.symm, hdescribes⟩

/-- **Reads share identifiers just if they are the same.** After any calls the registered queries
are those of the distinct reads among the calls, in the order in which these were first read, with
1, 2, 3, … for their identifiers. Look-ups by identifier and by collection answer just these, and an
index of three tables answers the same. Each read was answered with the identifier of a query of its
own collection, method and filter, so that two of them have one identifier just if they have one
collection, one method and one text of the filter. One more read is answered under such a query, or
changes nothing if its filter does not compile. -/
theorem reads_identified (supply : Supply) (settings : Settings) (options : SessionOptions)
    (calls : List Call) :
    ∃ d, (after supply settings options calls).database.dispatch = some d ∧
      d.queries.queries.map Query.key = Reading.distinct (readings calls) ∧
      d.queries.queries.map Query.id = List.range' 1 d.queries.size ∧
      (∀ id q, d.queries.get? id = some q ↔ q ∈ d.queries.queries ∧ q.id = id) ∧
      (∀ collection, ((d.queries.ofCollection collection).map Query.id).Pairwise (· < ·) ∧
        ∀ q, q ∈ d.queries.ofCollection collection ↔
          q ∈ d.queries.queries ∧ q.collection = collection) ∧
      (QueryIndex.after (readings calls)).Shows d.queries ∧
      (∀ r id, Answered supply settings options calls r id →
        ∃ q, d.queries.get? id = some q ∧ q.Describes r) ∧
      (∀ r id r' id', Answered supply settings options calls r id →
        Answered supply settings options calls r' id' →
        (id = id' ↔ r.collection = r'.collection ∧ r.method = r'.method ∧
          r.source.text = r'.source.text)) ∧
      ∀ options' r,
        match Filter.compile r.source with
        | .error e => (Database.read options' r.collection r.method r.filter).perform
              (after supply settings options calls).database =
            (.error (.compilation e), (after supply settings options calls).database)
        | .ok f => ∃ q d', (Database.read options' r.collection r.method r.filter).perform
              (after supply settings options calls).database =
            (.ok (Database.respond options' r.method q.id
              ((after supply settings options calls).database.store.find r.collection f.live)),
              { (after supply settings options calls).database with dispatch := some d' }) ∧
          d'.queries.get? q.id = some q ∧ q.Describes r := by
  obtain ⟨d, hd, hqueries⟩ := queries_after supply settings options calls
  have hregisters : d.queries.Registers (readings calls) :=
    hqueries ▸ QueryTable.registers_after (readings calls)
  have hanswered : ∀ r id, Answered supply settings options calls r id →
      ∃ q ∈ d.queries.queries, q.id = id ∧ q.Describes r :=
    fun r id h => hqueries ▸ exists_describes_of_answered h
  refine ⟨d, hd, hregisters.keys, hregisters.numbered,
    QueryTable.get?_eq_some_iff hregisters.numbered,
    fun collection => ⟨QueryTable.ofCollection_pairwise hregisters.numbered collection,
      QueryTable.mem_ofCollection_iff d.queries collection⟩,
    hqueries ▸ QueryIndex.shows_after (readings calls), ?_, ?_, ?_⟩
  · intro r id h
    obtain ⟨q, hq, rfl, hdescribes⟩ := hanswered r id h
    exact ⟨q, hregisters.get?_of_mem hq, hdescribes⟩
  · intro r id r' id' h h'
    obtain ⟨q, hq, rfl, hdescribes⟩ := hanswered r id h
    obtain ⟨q', hq', rfl, hdescribes'⟩ := hanswered r' id' h'
    rw [hregisters.id_eq_iff hq hq', hdescribes.key, hdescribes'.key, Reading.key_eq_iff]
  · intro options' r
    have hread := Database.read_describes hd hregisters options' r
    cases hcompile : Filter.compile r.source with
    | error e =>
      rw [hcompile] at hread
      exact hread
    | ok f =>
      rw [hcompile] at hread
      obtain ⟨q, d', hperform, hget, -, hdescribes⟩ := hread
      exact ⟨q, d', hperform, hget, hdescribes⟩

/-- A read without a filter, one with an empty filter, and one of a single document. -/
def rereads : List Call :=
  [.read .anonymous "t" .find .null, .record "t" .find (.obj []),
    .read .anonymous "t" .findOne .null]

/-- The first two are the same, the third is another one. -/
theorem rereads_identified :
    Answered stillSupply .standard .anonymous rereads ⟨"t", .find, .null⟩ 1 ∧
      Answered stillSupply .standard .anonymous rereads ⟨"t", .find, .obj []⟩ 1 ∧
      Answered stillSupply .standard .anonymous rereads ⟨"t", .findOne, .null⟩ 2 ∧
      (Reading.source ⟨"t", .find, .null⟩).text = (Reading.source ⟨"t", .find, .obj []⟩).text ∧
      ReadMethod.find ≠ ReadMethod.findOne := by
  have hnull : Answered stillSupply .standard .anonymous rereads ⟨"t", .find, .null⟩ 1 :=
    ⟨[], _, _, rfl, rfl, _, rfl, rfl⟩
  have hempty : Answered stillSupply .standard .anonymous rereads ⟨"t", .find, .obj []⟩ 1 :=
    ⟨[_], _, _, rfl, rfl, _, rfl, rfl⟩
  have hsingle : Answered stillSupply .standard .anonymous rereads ⟨"t", .findOne, .null⟩ 2 :=
    ⟨[_, _], _, _, rfl, rfl, _, rfl, rfl⟩
  obtain ⟨d, -, -, -, -, -, -, -, hsame, -⟩ :=
    reads_identified stillSupply .standard .anonymous rereads
  refine ⟨hnull, hempty, hsingle, ((hsame _ _ _ _ hnull hempty).mp rfl).2.2, fun hmethod => ?_⟩
  exact absurd ((hsame _ _ _ _ hnull hsingle).mpr ⟨rfl, hmethod, rfl⟩) (by decide)

end Watch
end DocWatch
