import DocWatch.Proofs.Json.Faithful
import DocWatch.Proofs.Query
import DocWatch.Proofs.Signature

/-!
# Registered queries are the distinct reads

A read asks for a collection, a method and a filter. What tells reads apart (`Reading.key`) is the
collection, the method and the text of the filter, and the signature that joins these three into one
text loses nothing of it. So after any reads, in any order and with any number of repetitions and
failures among them, the table holds one query for each key of a read whose filter compiles, in the
order in which the keys were first read.

- `Reading`, `Reading.key`, `QueryKey`: reads and what tells them apart.
- `Query.Describes`: a query is the query of a read.
- `QueryTable.Registers`: what a table holds after some reads.
- `QueryTable.registers_after`: it holds just that after every run of reads.
-/

namespace DocWatch

/-- What a read asks for. -/
structure Reading where
  collection : String
  method : ReadMethod
  filter : Json

/-- What tells reads apart: the collection, the method and the text of the filter. -/
structure QueryKey where
  collection : String
  method : String
  filter : String
deriving DecidableEq

namespace Reading

/-- The filter that is compiled. -/
def source (r : Reading) : Json := QueryTable.sourceOf r.filter

/-- The key of a read. A read without a filter has that of a read with an empty one. -/
def key (r : Reading) : QueryKey := ⟨r.collection, r.method.name, r.source.text⟩

/-- Is the filter of a read a filter? -/
def compiles (r : Reading) : Bool := (Filter.compile r.source).isOk

/-- The keys of the reads whose filters compile, each once, in the order of the first reads. -/
def distinct (reads : List Reading) : List QueryKey :=
  ((reads.filter compiles).map key).eraseDups

/-- Registers the query of a read. -/
def register (r : Reading) (t : QueryTable) : Except Error Query × QueryTable :=
  t.register r.collection r.method.name r.filter

theorem key_eq_iff (r r' : Reading) : r.key = r'.key ↔
    r.collection = r'.collection ∧ r.method = r'.method ∧ r.source.text = r'.source.text := by
  rw [key, key, QueryKey.mk.injEq]
  exact and_congr_right fun _ => and_congr_left fun _ =>
    ⟨ReadMethod.name_inj, congrArg ReadMethod.name⟩

theorem compiles_of_ok {r : Reading} {f : Filter} (h : Filter.compile r.source = .ok f) :
    r.compiles = true := by
  rw [compiles, h]
  rfl

theorem compiles_of_error {r : Reading} {e : CompileError}
    (h : Filter.compile r.source = .error e) : r.compiles = false := by
  rw [compiles, h]
  rfl

/-! ## One more read -/

theorem distinct_concat_of_error {reads : List Reading} {r : Reading} (h : r.compiles = false) :
    distinct (reads ++ [r]) = distinct reads := by
  rw [distinct, List.filter_append, List.filter_cons_of_neg (by simp [h]), List.filter_nil,
    List.append_nil, distinct]

theorem distinct_concat {reads : List Reading} {r : Reading} (h : r.compiles = true) :
    distinct (reads ++ [r]) =
      if r.key ∈ distinct reads then distinct reads else distinct reads ++ [r.key] := by
  have hmap : ((reads ++ [r]).filter compiles).map key =
      (reads.filter compiles).map key ++ [r.key] := by
    rw [List.filter_append, List.filter_cons_of_pos h, List.filter_nil, List.map_append]
    rfl
  have hmem : r.key ∈ distinct reads ↔ r.key ∈ (reads.filter compiles).map key :=
    List.mem_eraseDups
  rw [distinct, hmap, List.eraseDups_append]
  by_cases hold : r.key ∈ (reads.filter compiles).map key
  · rw [if_pos (hmem.mpr hold)]
    simp [hold, List.removeAll, distinct]
  · rw [if_neg (mt hmem.mp hold)]
    simp [hold, List.removeAll, List.eraseDups_cons, distinct]

end Reading

namespace Query

/-- The key of a query. -/
def key (q : Query) : QueryKey := ⟨q.collection, q.method, q.filter.source.text⟩

/-- A query is that of a read: it is of the collection and the method that were read, and its filter
is what the filter that was read compiles to. -/
structure Describes (q : Query) (r : Reading) : Prop where
  collection : q.collection = r.collection
  method : q.method = r.method.name
  filter : Filter.compile r.source = .ok q.filter

theorem Describes.source {q : Query} {r : Reading} (h : q.Describes r) :
    q.filter.source = r.source :=
  Filter.source_of_compile h.filter

theorem Describes.key {q : Query} {r : Reading} (h : q.Describes r) : q.key = r.key := by
  rw [Query.key, h.collection, h.method, h.source]
  rfl

/-- A compiled query with the key of a read is the query of this read, since no other filter has the
same text. -/
theorem describes_of_key {q : Query} {r : Reading}
    (hcompile : Filter.compile q.filter.source = .ok q.filter) (h : q.key = r.key) :
    q.Describes r := by
  obtain ⟨hcollection, hmethod, htext⟩ := QueryKey.mk.inj h
  refine ⟨hcollection, hmethod, ?_⟩
  rw [← Json.text_inj htext, hcompile]

theorem signature_eq_iff {q : Query} {m : ReadMethod} (hm : q.method = m.name) (r : Reading) :
    q.signature = signatureOf r.collection r.method.name r.source ↔ q.key = r.key := by
  rw [signature, hm, key, hm, Reading.key, QueryKey.mk.injEq]
  constructor
  · intro h
    obtain ⟨hcollection, rfl, htext⟩ := signatureOf_inj h
    exact ⟨hcollection, rfl, htext⟩
  · rintro ⟨hcollection, hname, htext⟩
    rw [hcollection, hname, signatureOf, signatureOf, htext]

end Query

namespace QueryTable

/-- What a table holds after some reads: compiled queries, one for each distinct key and in the
order of the keys, with 1, 2, 3, … for their identifiers. -/
structure Registers (t : QueryTable) (reads : List Reading) : Prop where
  keys : t.queries.map Query.key = Reading.distinct reads
  once : (t.queries.map Query.key).Nodup
  numbered : t.Numbered
  compiled : ∀ q ∈ t.queries, Filter.compile q.filter.source = .ok q.filter

theorem registers_empty : empty.Registers [] where
  keys := rfl
  once := List.nodup_nil
  numbered := numbered_empty
  compiled := fun _ hq => absurd hq List.not_mem_nil

namespace Registers

variable {t : QueryTable} {reads : List Reading}

/-- Each query is that of a read. -/
theorem exists_describes (h : t.Registers reads) {q : Query} (hq : q ∈ t.queries) :
    ∃ r ∈ reads, q.Describes r := by
  have hkey : q.key ∈ Reading.distinct reads := h.keys ▸ List.mem_map_of_mem hq
  rw [Reading.distinct, List.mem_eraseDups] at hkey
  obtain ⟨r, hr, hrkey⟩ := List.mem_map.mp hkey
  exact ⟨r, (List.mem_filter.mp hr).1, Query.describes_of_key (h.compiled q hq) hrkey.symm⟩

/-- A query has the signature of a read just if it has its key. -/
theorem signature_eq_iff (h : t.Registers reads) {q : Query} (hq : q ∈ t.queries) (r : Reading) :
    q.signature = Query.signatureOf r.collection r.method.name r.source ↔ q.key = r.key := by
  obtain ⟨r', -, hdescribes⟩ := h.exists_describes hq
  exact Query.signature_eq_iff hdescribes.method r

/-- Queries of one key are one query. -/
theorem eq_of_key (h : t.Registers reads) {q q' : Query} (hq : q ∈ t.queries)
    (hq' : q' ∈ t.queries) (hkey : q.key = q'.key) : q = q' :=
  List.inj_on_of_nodup_map h.once hq hq' hkey

/-- The identifier of a query finds it. -/
theorem get?_of_mem (h : t.Registers reads) {q : Query} (hq : q ∈ t.queries) :
    t.get? q.id = some q :=
  (get?_eq_some_iff h.numbered q.id q).mpr ⟨hq, rfl⟩

/-- Queries share their identifier just if they share their key. -/
theorem id_eq_iff (h : t.Registers reads) {q q' : Query} (hq : q ∈ t.queries)
    (hq' : q' ∈ t.queries) : q.id = q'.id ↔ q.key = q'.key := by
  constructor
  · intro hid
    rw [h.numbered.eq_of_id hq hq' hid]
  · intro hkey
    rw [h.eq_of_key hq hq' hkey]

/-- One more read whose filter does not compile. -/
theorem concat_error (h : t.Registers reads) {r : Reading} (hr : r.compiles = false) :
    t.Registers (reads ++ [r]) :=
  { h with keys := h.keys.trans (Reading.distinct_concat_of_error hr).symm }

/-- One more read of a query that is registered. -/
theorem concat_known (h : t.Registers reads) {r : Reading} {q : Query} (hq : q ∈ t.queries)
    (hdescribes : q.Describes r) : t.Registers (reads ++ [r]) := by
  refine { h with keys := h.keys.trans ?_ }
  have hmem : r.key ∈ Reading.distinct reads := by
    rw [← h.keys, ← hdescribes.key]
    exact List.mem_map_of_mem hq
  rw [Reading.distinct_concat (Reading.compiles_of_ok hdescribes.filter), if_pos hmem]

/-- One more read of a new query. -/
theorem concat_new (h : t.Registers reads) {r : Reading} {q : Query} (hdescribes : q.Describes r)
    (hid : q.id = t.queries.length + 1) (hnew : r.key ∉ t.queries.map Query.key) :
    Registers ⟨t.queries ++ [q]⟩ (reads ++ [r]) where
  keys := by
    rw [List.map_append, h.keys,
      Reading.distinct_concat (Reading.compiles_of_ok hdescribes.filter), if_neg (h.keys ▸ hnew),
      List.map_singleton, hdescribes.key]
  once := by
    rw [List.map_append, List.map_singleton, hdescribes.key]
    exact List.nodup_append.mpr ⟨h.once, List.nodup_singleton _, fun k hk k' hk' heq =>
      hnew (List.mem_singleton.mp hk' ▸ heq ▸ hk)⟩
  numbered := h.numbered.append hid
  compiled := by
    intro q' hq'
    rcases List.mem_append.mp hq' with hold | hnew'
    · exact h.compiled q' hold
    · rw [List.mem_singleton.mp hnew', hdescribes.source, hdescribes.filter]

/-- One more read. It is answered with the query that describes it, or with what is wrong with its
filter. -/
theorem register (h : t.Registers reads) (r : Reading) :
    (r.register t).2.Registers (reads ++ [r]) ∧
      ((∃ q ∈ (r.register t).2.queries, q.Describes r ∧ (r.register t).1 = .ok q) ∨
        ∃ e, Filter.compile r.source = .error e ∧ r.register t = (.error (.compilation e), t)) := by
  unfold Reading.register
  rcases register_cases r.collection r.method.name r.filter t with
    ⟨q, hq, hsignature, hreg⟩ | ⟨-, e, hcompile, hreg⟩ | ⟨hfind, f, hcompile, hreg⟩
  · have hdescribes := Query.describes_of_key (h.compiled q hq)
      ((h.signature_eq_iff hq r).mp hsignature)
    rw [hreg]
    exact ⟨h.concat_known hq hdescribes, .inl ⟨q, hq, hdescribes, rfl⟩⟩
  · rw [hreg]
    exact ⟨h.concat_error (Reading.compiles_of_error hcompile), .inr ⟨e, hcompile, rfl⟩⟩
  · have hdescribes : Query.Describes ⟨t.queries.length + 1, r.collection, r.method.name, f⟩ r :=
      ⟨rfl, rfl, hcompile⟩
    have hnew : r.key ∉ t.queries.map Query.key := by
      intro hmem
      obtain ⟨q, hq, hkey⟩ := List.mem_map.mp hmem
      have hsignature := (h.signature_eq_iff hq r).mpr hkey
      exact absurd (beq_iff_eq.mpr hsignature) (List.find?_eq_none.mp hfind q hq)
    rw [hreg]
    exact ⟨h.concat_new hdescribes rfl hnew,
      .inl ⟨_, List.mem_append_right _ List.mem_cons_self, hdescribes, rfl⟩⟩

/-- What a read is answered with describes it. -/
theorem describes_of_register (h : t.Registers reads) {r : Reading} {q : Query}
    (hanswer : (r.register t).1 = .ok q) :
    q ∈ (r.register t).2.queries ∧ q.Describes r := by
  obtain ⟨-, ⟨q', hq', hdescribes, hanswer'⟩ | ⟨e, -, herror⟩⟩ := h.register r
  · obtain rfl := Except.ok.inj (hanswer.symm.trans hanswer')
    exact ⟨hq', hdescribes⟩
  · rw [herror] at hanswer
    cases hanswer

end Registers

/-! ## Runs of reads -/

/-- The table after some reads. -/
def after (reads : List Reading) : QueryTable := reads.foldl (fun t r => (r.register t).2) empty

theorem after_concat (reads : List Reading) (r : Reading) :
    after (reads ++ [r]) = (r.register (after reads)).2 := by
  rw [after, List.foldl_append]
  rfl

/-- After every run of reads, the table holds the queries of its distinct reads. -/
theorem registers_after (reads : List Reading) : (after reads).Registers reads := by
  induction reads using List.reverseRecOn with
  | nil => exact registers_empty
  | append_singleton reads r ih =>
    rw [after_concat]
    exact (ih.register r).1

end QueryTable
end DocWatch
