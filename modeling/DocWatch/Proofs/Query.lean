import DocWatch.Query
import Mathlib.Data.List.Nodup

/-!
# The table of registered queries

Registering answers a query that is in the table afterwards; the table only ever grows at its end,
and identifiers are places in it (`QueryTable.Numbered`). So the affected queries come out in
strictly increasing order.

- `QueryTable.register_cases`: a known query, a filter that does not compile, or a new query.
- `QueryTable.get?_eq_some_iff`, `QueryTable.mem_ofCollection_iff`: queries by identifier and by
  collection.
- `QueryTable.affected_pairwise`, `QueryTable.mem_affected_iff`: the affected queries.
- `Query.admits_iff`: which snapshots belong to the result of a query.
-/

namespace DocWatch

/-- A snapshot belongs to the result of a query if it is there, is not marked as deleted, and the
filter selects it. -/
theorem Query.admits_iff (q : Query) (snapshot : Option Json) :
    q.admits snapshot = true ↔ ∃ doc, snapshot = some doc ∧ Document.isDeleted doc = false ∧
      q.filter.selects doc = true := by
  cases snapshot with
  | none => simp [Query.admits]
  | some doc => simp [Query.admits]

@[simp] theorem Query.admits_none (q : Query) : q.admits none = false := rfl

/-- A filter keeps the document that it was compiled from. -/
theorem Filter.source_of_compile {source : Json} {f : Filter} (h : compile source = .ok f) :
    f.source = source := by
  unfold compile at h
  cases source with
  | null => rw [← Except.ok.inj h]
  | obj fields =>
    simp only at h
    cases hclauses : compileClauses fields with
    | error e => simp [hclauses] at h
    | ok clauses =>
      rw [hclauses] at h
      rw [← Except.ok.inj h]
  | _ => cases h

namespace QueryTable

/-! ## Registration -/

/-- The identifiers are 1, 2, 3, … in order. -/
def Numbered (t : QueryTable) : Prop := t.queries.map Query.id = List.range' 1 t.queries.length

theorem numbered_empty : empty.Numbered := rfl

/-- A registration finds a query of the same signature, fails and changes nothing, or adds a query
with the next identifier. -/
theorem register_cases (collection method : String) (filter : Json) (t : QueryTable) :
    (∃ q ∈ t.queries, q.signature = Query.signatureOf collection method (sourceOf filter) ∧
      t.register collection method filter = (.ok q, t)) ∨
    (t.find? (Query.signatureOf collection method (sourceOf filter)) = none ∧
      ∃ e, Filter.compile (sourceOf filter) = .error e ∧
        t.register collection method filter = (.error (.compilation e), t)) ∨
    (t.find? (Query.signatureOf collection method (sourceOf filter)) = none ∧
      ∃ f, Filter.compile (sourceOf filter) = .ok f ∧
        t.register collection method filter =
          (.ok ⟨t.queries.length + 1, collection, method, f⟩,
            ⟨t.queries ++ [⟨t.queries.length + 1, collection, method, f⟩]⟩)) := by
  unfold register
  cases hfind : t.find? (Query.signatureOf collection method (sourceOf filter)) with
  | some q =>
    refine .inl ⟨q, List.mem_of_find?_eq_some hfind, ?_, by simp only [hfind]⟩
    simpa using List.find?_some hfind
  | none =>
    cases hcompile : Filter.compile (sourceOf filter) with
    | error e => exact .inr (.inl ⟨rfl, e, rfl, by simp only [hfind, hcompile]⟩)
    | ok f => exact .inr (.inr ⟨rfl, f, rfl, by simp only [hfind, hcompile]⟩)

/-- A registration adds queries at the end, if it adds any. -/
theorem register_queries (collection method : String) (filter : Json) (t : QueryTable) :
    ∃ more, (t.register collection method filter).2.queries = t.queries ++ more ∧
      ∀ q ∈ more, (t.register collection method filter).1 = .ok q := by
  rcases register_cases collection method filter t with
    ⟨q, -, -, hreg⟩ | ⟨-, e, -, hreg⟩ | ⟨-, f, -, hreg⟩
  · exact ⟨[], by rw [hreg, List.append_nil], fun q hq => absurd hq List.not_mem_nil⟩
  · exact ⟨[], by rw [hreg, List.append_nil], fun q hq => absurd hq List.not_mem_nil⟩
  · exact ⟨[_], by rw [hreg], fun q hq => by rw [hreg, List.mem_singleton.mp hq]⟩

/-- A registration takes no query out. -/
theorem mem_register_of_mem {t : QueryTable} {q : Query} (h : q ∈ t.queries)
    (collection method : String) (filter : Json) :
    q ∈ (t.register collection method filter).2.queries := by
  obtain ⟨more, hqueries, -⟩ := register_queries collection method filter t
  rw [hqueries]
  exact List.mem_append_left more h

/-- What a registration answers is in the table afterwards. -/
theorem mem_of_register {collection method : String} {filter : Json} {t : QueryTable} {q : Query}
    (h : (t.register collection method filter).1 = .ok q) :
    q ∈ (t.register collection method filter).2.queries := by
  rcases register_cases collection method filter t with
    ⟨q', hq', -, hreg⟩ | ⟨-, e, -, hreg⟩ | ⟨-, f, -, hreg⟩
  · rw [hreg] at h ⊢
    rw [← Except.ok.inj h]
    exact hq'
  · rw [hreg] at h
    cases h
  · rw [hreg] at h ⊢
    rw [← Except.ok.inj h]
    exact List.mem_append_right _ List.mem_cons_self

/-- A query at the end is found if no other one is. -/
theorem find?_concat (t : QueryTable) (q : Query) (signature : String) :
    find? ⟨t.queries ++ [q]⟩ signature =
      (t.find? signature).or (if q.signature = signature then some q else none) := by
  simp only [find?, List.find?_append, List.find?_singleton, beq_iff_eq]

theorem get?_concat (t : QueryTable) (q : Query) (id : QueryId) :
    get? ⟨t.queries ++ [q]⟩ id = (t.get? id).or (if q.id = id then some q else none) := by
  simp only [get?, List.find?_append, List.find?_singleton, beq_iff_eq]

/-- A signature keeps its query, whatever is registered later. -/
theorem find?_register {t : QueryTable} {signature : String} {q : Query}
    (h : t.find? signature = some q) (collection method : String) (filter : Json) :
    (t.register collection method filter).2.find? signature = some q := by
  obtain ⟨more, hqueries, -⟩ := register_queries collection method filter t
  rw [find?] at h ⊢
  rw [hqueries, List.find?_append, h]
  rfl

/-- The signature of a registration finds what the registration answers. -/
theorem find?_of_register {collection method : String} {filter : Json} {t : QueryTable} {q : Query}
    (h : (t.register collection method filter).1 = .ok q) :
    (t.register collection method filter).2.find?
      (Query.signatureOf collection method (sourceOf filter)) = some q := by
  cases hfind : t.find? (Query.signatureOf collection method (sourceOf filter)) with
  | some q' =>
    have hsame : (t.register collection method filter).1 = .ok q' := by
      unfold register
      simp only [hfind]
    rw [find?_register hfind, Option.some.injEq]
    exact Except.ok.inj (hsame.symm.trans h)
  | none =>
    rcases register_cases collection method filter t with
      ⟨q', hq', hsig, hreg⟩ | ⟨-, e, -, hreg⟩ | ⟨-, f, hcompile, hreg⟩
    · exact absurd (beq_iff_eq.mpr hsig) (List.find?_eq_none.mp hfind q' hq')
    · rw [hreg] at h
      cases h
    · rw [hreg] at h ⊢
      rw [← Except.ok.inj h, find?_concat, hfind, Option.none_or, if_pos]
      rw [Query.signature, Filter.source_of_compile hcompile]

/-- The queries of a table after a registration are the old ones, and those of its method. -/
theorem method_of_mem_register {collection method : String} {filter : Json} {t : QueryTable}
    {q : Query} (h : q ∈ (t.register collection method filter).2.queries) :
    q ∈ t.queries ∨ q.method = method := by
  rcases register_cases collection method filter t with
    ⟨q', -, -, hreg⟩ | ⟨-, e, -, hreg⟩ | ⟨-, f, -, hreg⟩
  · rw [hreg] at h
    exact .inl h
  · rw [hreg] at h
    exact .inl h
  · rw [hreg] at h
    refine (List.mem_append.mp h).imp_right fun hnew => ?_
    rw [List.mem_singleton.mp hnew]

/-- A query that is added at the end has the next identifier. -/
theorem Numbered.append {t : QueryTable} (h : t.Numbered) {q : Query}
    (hid : q.id = t.queries.length + 1) : Numbered ⟨t.queries ++ [q]⟩ := by
  rw [Numbered, List.map_append, h, List.length_append, List.length_singleton,
    List.range'_concat, List.map_singleton, hid, Nat.one_mul, Nat.add_comm]

theorem numbered_register {t : QueryTable} (h : t.Numbered) (collection method : String)
    (filter : Json) : (t.register collection method filter).2.Numbered := by
  rcases register_cases collection method filter t with
    ⟨q, -, -, hreg⟩ | ⟨-, e, -, hreg⟩ | ⟨-, f, -, hreg⟩
  · rw [hreg]
    exact h
  · rw [hreg]
    exact h
  · rw [hreg]
    exact h.append rfl

/-! ## Look-up -/

/-- No two queries have one identifier. -/
theorem Numbered.eq_of_id {t : QueryTable} (h : t.Numbered) {q q' : Query} (hq : q ∈ t.queries)
    (hq' : q' ∈ t.queries) (hid : q.id = q'.id) : q = q' := by
  have hnd : (t.queries.map Query.id).Nodup := h ▸ List.nodup_range'
  exact List.inj_on_of_nodup_map hnd hq hq' hid

/-- An identifier finds the query that has it. -/
theorem get?_eq_some_iff {t : QueryTable} (h : t.Numbered) (id : QueryId) (q : Query) :
    t.get? id = some q ↔ q ∈ t.queries ∧ q.id = id := by
  constructor
  · intro hget
    exact ⟨List.mem_of_find?_eq_some hget, by simpa using List.find?_some hget⟩
  · rintro ⟨hq, hid⟩
    cases hget : t.get? id with
    | none => exact absurd (beq_iff_eq.mpr hid) (List.find?_eq_none.mp hget q hq)
    | some q' =>
      have hid' : q'.id = id := by simpa using List.find?_some hget
      rw [h.eq_of_id (List.mem_of_find?_eq_some hget) hq (hid'.trans hid.symm)]

/-- Identifiers that are not given away yet find nothing. -/
theorem get?_eq_none_of_size_lt {t : QueryTable} (h : t.Numbered) {id : QueryId}
    (hid : t.size < id) : t.get? id = none := by
  cases hget : t.get? id with
  | none => rfl
  | some q =>
    obtain ⟨hq, rfl⟩ := (get?_eq_some_iff h _ q).mp hget
    have hmem : q.id ∈ List.range' 1 t.queries.length := h ▸ List.mem_map_of_mem hq
    obtain ⟨-, hlt⟩ := List.mem_range'_1.mp hmem
    rw [size] at hid
    omega

theorem mem_ofCollection_iff (t : QueryTable) (collection : String) (q : Query) :
    q ∈ t.ofCollection collection ↔ q ∈ t.queries ∧ q.collection = collection := by
  rw [ofCollection, List.mem_filter, beq_iff_eq]

/-- The queries of a collection stand in the order of their identifiers. -/
theorem ofCollection_pairwise {t : QueryTable} (h : t.Numbered) (collection : String) :
    ((t.ofCollection collection).map Query.id).Pairwise (· < ·) := by
  have hall : (t.queries.map Query.id).Pairwise (· < ·) := by
    rw [h]
    exact List.pairwise_lt_range'
  exact hall.sublist (List.filter_sublist.map Query.id)

/-! ## Affected queries -/

/-- The affected queries are in strictly increasing order. -/
theorem affected_pairwise {t : QueryTable} (h : t.Numbered) (collection : String)
    (before after : Option Json) :
    (t.affected collection before after).Pairwise (· < ·) :=
  (ofCollection_pairwise h collection).sublist (List.filter_sublist.map Query.id)

/-- The affected queries are those of the collection to whose results the document belonged or
belongs. -/
theorem mem_affected_iff (t : QueryTable) (collection : String) (before after : Option Json)
    (id : QueryId) : id ∈ t.affected collection before after ↔
      ∃ q ∈ t.queries, q.id = id ∧ q.collection = collection ∧
        (q.admits before = true ∨ q.admits after = true) := by
  simp only [affected, List.mem_map, List.mem_filter, mem_ofCollection_iff, Bool.or_eq_true]
  constructor
  · rintro ⟨q, ⟨⟨hq, hc⟩, hadmits⟩, hid⟩
    exact ⟨q, hq, hid, hc, hadmits⟩
  · rintro ⟨q, hq, hid, hc, hadmits⟩
    exact ⟨q, ⟨⟨hq, hc⟩, hadmits⟩, hid⟩

/-- Where no document was and none is, no query is affected. -/
@[simp] theorem affected_none (t : QueryTable) (collection : String) :
    t.affected collection none none = [] := by
  simp [affected]

end QueryTable
end DocWatch
