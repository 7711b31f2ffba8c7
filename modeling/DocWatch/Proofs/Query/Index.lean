import DocWatch.Proofs.Members
import DocWatch.Proofs.Query.Registered

/-!
# Queries in three tables

The list of all queries need not be searched. The queries can be kept in three tables, by signature,
by identifier and by collection, beside a count of the identifiers that were given away. A
registration looks only into the first one and writes all three. Such an index answers every
registration and every look-up like the list.

- `QueryIndex`, `QueryIndex.register`: the tables and what a registration does to them.
- `QueryIndex.Shows`: the index of a list of queries.
- `QueryIndex.Shows.register`: one registration on both sides.
- `QueryIndex.shows_after`: every run of reads.
-/

namespace DocWatch

/-- Queries by signature, by identifier and by collection, and the next identifier. -/
structure QueryIndex where
  bySignature : Members Query
  byId : List (QueryId × Query)
  byCollection : Members (List Query)
  next : QueryId

namespace QueryIndex

/-- No query yet. -/
def empty : QueryIndex := ⟨[], [], [], 1⟩

/-- The query of a signature. -/
def find? (x : QueryIndex) (signature : String) : Option Query := x.bySignature.get? signature

/-- The query with an identifier. -/
def get? (x : QueryIndex) (id : QueryId) : Option Query := x.byId.lookup id

/-- The queries of a collection. -/
def ofCollection (x : QueryIndex) (collection : String) : List Query :=
  (x.byCollection.get? collection).getD []

/-- How many queries there are. -/
def size (x : QueryIndex) : Nat := x.byId.length

/-- Writes a query with the next identifier to each of the tables. -/
def add (x : QueryIndex) (signature : String) (q : Query) : QueryIndex :=
  ⟨x.bySignature.insert signature q, (q.id, q) :: x.byId,
    x.byCollection.insert q.collection (x.ofCollection q.collection ++ [q]), x.next + 1⟩

/-- The query of a collection, a method and a filter. It is registered if it is new; a filter that
does not compile changes nothing. -/
def register (collection method : String) (filter : Json) (x : QueryIndex) :
    Except Error Query × QueryIndex :=
  let source := QueryTable.sourceOf filter
  let signature := Query.signatureOf collection method source
  match x.find? signature with
  | some q => (.ok q, x)
  | none =>
    match Filter.compile source with
    | .error e => (.error (.compilation e), x)
    | .ok f =>
      let q : Query := ⟨x.next, collection, method, f⟩
      (.ok q, x.add signature q)

/-- The index after some reads. -/
def after (reads : List Reading) : QueryIndex :=
  reads.foldl (fun x r => (x.register r.collection r.method.name r.filter).2) empty

theorem after_concat (reads : List Reading) (r : Reading) :
    after (reads ++ [r]) =
      ((after reads).register r.collection r.method.name r.filter).2 := by
  rw [after, List.foldl_append]
  rfl

/-! ## The index of a list of queries -/

/-- Each look-up in the index answers what it answers on the list. -/
structure Shows (x : QueryIndex) (t : QueryTable) : Prop where
  find? : ∀ signature, x.find? signature = t.find? signature
  get? : ∀ id, x.get? id = t.get? id
  ofCollection : ∀ collection, x.ofCollection collection = t.ofCollection collection
  size : x.size = t.size
  next : x.next = t.size + 1

theorem shows_empty : empty.Shows .empty where
  find? := fun _ => rfl
  get? := fun _ => rfl
  ofCollection := fun _ => rfl
  size := rfl
  next := rfl

namespace Shows

variable {x : QueryIndex} {t : QueryTable}

/-- A new query is written to the tables just as it is added to the list. -/
theorem add (h : x.Shows t) (ht : t.Numbered) {q : Query} (hnew : t.find? q.signature = none)
    (hid : q.id = t.queries.length + 1) : (x.add q.signature q).Shows ⟨t.queries ++ [q]⟩ where
  find? := by
    intro signature
    rw [QueryTable.find?_concat, QueryIndex.find?, QueryIndex.add, Members.get?_insert]
    by_cases hs : q.signature = signature
    · rw [if_pos hs, if_pos hs, ← hs, hnew, Option.none_or]
    · rw [if_neg hs, if_neg hs, Option.or_none]
      exact h.find? signature
  get? := by
    intro id
    rw [QueryTable.get?_concat, QueryIndex.get?, QueryIndex.add, List.lookup_cons]
    by_cases hi : q.id = id
    · -- the identifier is new
      have hnone : t.get? id = none := by
        rw [← hi, hid]
        exact QueryTable.get?_eq_none_of_size_lt ht (Nat.lt_succ_self _)
      rw [if_pos hi, hnone, Option.none_or, beq_iff_eq.mpr hi.symm]
    · rw [if_neg hi, Option.or_none, beq_false_of_ne (Ne.symm hi)]
      exact h.get? id
  ofCollection := by
    intro collection
    rw [QueryIndex.ofCollection, QueryIndex.add, Members.get?_insert, QueryTable.ofCollection,
      List.filter_append]
    by_cases hc : q.collection = collection
    · rw [if_pos hc, Option.getD_some, h.ofCollection, hc]
      simp [QueryTable.ofCollection, hc]
    · rw [if_neg hc, List.filter_cons_of_neg (by simp [hc]), List.filter_nil, List.append_nil]
      exact h.ofCollection collection
  size := by
    have hsize : x.byId.length = t.queries.length := h.size
    simp [QueryIndex.size, QueryIndex.add, QueryTable.size, hsize]
  next := by
    have hnext : x.next = t.queries.length + 1 := h.next
    simp [QueryIndex.add, QueryTable.size, hnext]

/-- A registration has the same answer on both sides, and the index shows the list after it. -/
theorem register (h : x.Shows t) (ht : t.Numbered) (collection method : String) (filter : Json) :
    (x.register collection method filter).1 = (t.register collection method filter).1 ∧
      (x.register collection method filter).2.Shows (t.register collection method filter).2 := by
  unfold QueryIndex.register QueryTable.register
  simp only [h.find?]
  cases hfind : t.find? (Query.signatureOf collection method (QueryTable.sourceOf filter)) with
  | some q => exact ⟨rfl, h⟩
  | none =>
    cases hcompile : Filter.compile (QueryTable.sourceOf filter) with
    | error e => exact ⟨rfl, h⟩
    | ok f =>
      have hnext : x.next = t.queries.length + 1 := h.next
      rw [hnext]
      refine ⟨rfl, ?_⟩
      have hsignature : Query.signature ⟨t.queries.length + 1, collection, method, f⟩ =
          Query.signatureOf collection method (QueryTable.sourceOf filter) := by
        rw [Query.signature, Filter.source_of_compile hcompile]
      rw [← hsignature] at hfind ⊢
      exact h.add ht hfind rfl

end Shows

/-- After every run of reads, the index shows the list. -/
theorem shows_after (reads : List Reading) : (after reads).Shows (QueryTable.after reads) := by
  induction reads using List.reverseRecOn with
  | nil => exact shows_empty
  | append_singleton reads r ih =>
    rw [after_concat, QueryTable.after_concat]
    exact (ih.register (QueryTable.registers_after reads).numbered r.collection r.method.name
      r.filter).2

end QueryIndex
end DocWatch
