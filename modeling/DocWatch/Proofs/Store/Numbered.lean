import DocWatch.Proofs.Store.Lists

/-!
# Numbered documents in hash tables

A store need not keep its documents in order. It can keep each collection in a hash table, which is
visited in an order of its own, and give every added document the next number of one count; reads
then sort what they visited by these numbers. Such a store answers every call like the ordered one
and shows the same lists, in whatever order its tables are visited at each call. The count is a
natural number: one of 64 bits would come round only after `2 ^ 64` additions, and no run makes so
many.

- `Table`: numbered documents under their keys, and the writes on one table.
- `Visit`: an order in which tables are visited.
- `Tables`: the tables of all collections with their common count.
- `Table.Shows`: sorted by its numbers, a table is a certain collection.
- `Tables.calls_step_lists`: the main result.
-/

namespace DocWatch

/-! ## Tables -/

/-- A document with the number that it was given when it was added. -/
structure Numbered where
  number : Nat
  doc : Json

/-- Numbered documents under their keys. -/
abbrev Table := Members Numbered

/-- An order in which tables are visited. It may be any, but each document is visited once. -/
structure Visit where
  documents : Table → List Numbered
  perm : ∀ t, (documents t).Perm (t.map Prod.snd)

instance : Inhabited Visit := ⟨⟨fun t => t.map Prod.snd, fun _ => List.Perm.refl _⟩⟩

namespace Table

/-- The documents that a filter selects, in the order of their numbers. -/
def matching (t : Table) (visit : Visit) (f : Filter) : List Numbered :=
  match f.idEquality? with
  | some id => ((Members.get? t (Identity.key id)).filter fun d => f.selects d.doc).toList
  | none => ((visit.documents t).filter fun d => f.selects d.doc).mergeSort
      fun a b => a.number ≤ b.number

/-- The key of the present identity of the first document that a filter selects. -/
def targetKey? (t : Table) (visit : Visit) (f : Filter) : Option String :=
  match t.matching visit f with
  | [] => none
  | d :: _ => (Document.id? d.doc).map Identity.key

/-- Adds a document, with the next number. -/
def insert (name fresh : String) (doc : Json) (t : Table) (count : Nat) :
    Except Error (Json × Table × Nat) :=
  match Document.withIdentity fresh doc with
  | .error e => .error e
  | .ok (key, doc) =>
    if Members.contains t key then .error (.storage (.duplicateKey key name))
    else .ok ((Document.id? doc).getD .null, Members.insert t key ⟨count + 1, doc⟩, count + 1)

/-- Updates the document under a key, which keeps its number. -/
def replace (name key : String) (u : Update) (t : Table) (count : Nat) :
    Except Error (UpdateOutcome × Table × Nat) :=
  match Members.get? t key with
  | none => .ok (.nothing, t, count)
  | some old =>
    match u.run old.doc with
    | .error e => .error (.invalidUpdate e)
    | .ok new =>
      if Document.sameIdentity old.doc new then
        .ok (⟨Document.id? new, none⟩, Members.insert t key ⟨old.number, new⟩, count)
      else .error (.invalidPayload (.identityChanged key name))

/-- Makes the document that a filter asks for, updated, with the next number. -/
def upsert (name fresh : String) (f : Filter) (u : Update) (t : Table) (count : Nat) :
    Except Error (UpdateOutcome × Table × Nat) :=
  match f.seed with
  | .error e => .error (.invalidUpdate (.access e))
  | .ok seed =>
    match u.run seed with
    | .error e => .error (.invalidUpdate e)
    | .ok doc =>
      match Document.withIdentity fresh doc with
      | .error e => .error e
      | .ok (key, doc) =>
        if Members.contains t key then .error (.storage (.upsertCollision key name))
        else .ok (⟨none, Document.id? doc⟩, Members.insert t key ⟨count + 1, doc⟩, count + 1)

/-- Updates the first document that a filter selects, or makes one if that is asked for. -/
def update (name fresh : String) (visit : Visit) (f : Filter) (u : Update) (upsert : Bool)
    (t : Table) (count : Nat) : Except Error (UpdateOutcome × Table × Nat) :=
  match t.targetKey? visit f with
  | some key => t.replace name key u count
  | none => if upsert then t.upsert name fresh f u count else .ok (.nothing, t, count)

/-- Takes out the first document that a filter selects. -/
def delete (visit : Visit) (f : Filter) (t : Table) : Option (Json × Table) := do
  let key ← t.targetKey? visit f
  let d ← Members.get? t key
  return (d.doc, Members.remove t key)

end Table

/-- The tables of all collections, and how many documents were ever added to them. -/
structure Tables where
  tables : Members Table
  count : Nat

namespace Tables

/-- The table of a collection; one that was never written is empty. -/
def table (s : Tables) (name : String) : Table := (Members.get? s.tables name).getD []

/-- The documents that the filter that selects everything finds, collection by collection. -/
def lists (s : Tables) (visit : Visit) (name : String) : List Json :=
  ((s.table name).matching visit .all).map Numbered.doc

/-- What a call answers, and the tables after it. -/
def step (s : Tables) (visit : Visit) : Store.Call → Store.Answer × Tables
  | .insert name fresh doc =>
    match (s.table name).insert name fresh doc s.count with
    | .error e => (.inserted (.error e), s)
    | .ok (id, t, count) => (.inserted (.ok id), ⟨Members.insert s.tables name t, count⟩)
  | .update name fresh f u upsert =>
    match (s.table name).update name fresh visit f u upsert s.count with
    | .error e => (.updated (.error e), ⟨Members.insert s.tables name (s.table name), s.count⟩)
    | .ok (outcome, t, count) => (.updated (.ok outcome), ⟨Members.insert s.tables name t, count⟩)
  | .delete name f =>
    match (s.table name).delete visit f with
    | none => (.deleted none, s)
    | some (doc, t) => (.deleted (some doc), ⟨Members.insert s.tables name t, s.count⟩)

/-- The tables after a run of calls from empty ones, each with the order in which it visits them. -/
def after (calls : List (Store.Call × Visit)) : Tables :=
  calls.foldl (fun s call => (s.step call.2 call.1).2) ⟨[], 0⟩

end Tables

/-! ## What a table shows -/

namespace Table

/-- The documents under their keys, without their numbers. -/
def plain (l : Table) : Collection := l.map fun kd => (kd.1, kd.2.doc)

@[simp] theorem keys_plain (l : Table) : Members.keys l.plain = Members.keys l := by
  simp [plain, Members.keys]

theorem plain_append (l r : Table) : plain (l ++ r) = plain l ++ plain r := List.map_append

theorem get?_plain (l : Table) (key : String) :
    Members.get? l.plain key = (Members.get? l key).map Numbered.doc := by
  induction l with
  | nil => rfl
  | cons kd rest ih =>
    obtain ⟨k, d⟩ := kd
    have hcons : plain ((k, d) :: rest) = (k, d.doc) :: plain rest := rfl
    rw [hcons, Members.get?, Members.get?, ih]
    by_cases hk : k = key
    · rw [if_pos hk, if_pos hk, Option.map_some]
    · rw [if_neg hk, if_neg hk]

/-- Bindings in the order of their numbers, none of which is above a count. -/
structure InOrder (l : Table) (count : Nat) : Prop where
  increasing : l.Pairwise fun a b => a.2.number < b.2.number
  bounded : ∀ kd ∈ l, kd.2.number ≤ count

/-- Sorted by the numbers of its documents, the table is this collection. -/
def Shows (t : Table) (count : Nat) (c : Collection) : Prop :=
  ∃ l : Table, l.Perm t ∧ l.InOrder count ∧ c = l.plain

section Shows

variable {t : Table} {count : Nat} {c : Collection}

/-- Later counts are bounds, too. -/
theorem Shows.mono (h : t.Shows count c) {count' : Nat} (hle : count ≤ count') :
    t.Shows count' c := by
  obtain ⟨l, hperm, hord, hc⟩ := h
  exact ⟨l, hperm, ⟨hord.increasing, fun kd hmem => Nat.le_trans (hord.bounded kd hmem) hle⟩, hc⟩

/-- Look-up in the table is look-up in the collection. -/
theorem Shows.get? (h : t.Shows count c) (hnd : (Members.keys c).Nodup) (key : String) :
    Members.get? c key = (Members.get? t key).map Numbered.doc := by
  obtain ⟨l, hperm, -, rfl⟩ := h
  rw [keys_plain] at hnd
  rw [get?_plain, Members.get?_perm hnd hperm]

theorem Shows.contains (h : t.Shows count c) (hnd : (Members.keys c).Nodup) (key : String) :
    Members.contains t key = Members.contains c key := by
  rw [Members.contains, Members.contains, h.get? hnd, Option.isSome_map]

/-! ## Reads -/

theorem InOrder.pairwise_filter {l : Table} (h : l.InOrder count) (p : Numbered → Bool) :
    ((l.map Prod.snd).filter p).Pairwise fun a b => a.number < b.number := by
  refine List.Pairwise.filter p ?_
  rw [List.pairwise_map]
  exact h.increasing

/-- In whatever order a table is visited, sorting restores the order of the numbers. -/
theorem sort_visited {l : Table} (hperm : l.Perm t) (hord : l.InOrder count) (visit : Visit)
    (p : Numbered → Bool) :
    ((visit.documents t).filter p).mergeSort (fun a b => a.number ≤ b.number) =
      (l.map Prod.snd).filter p := by
  have hsorted : (((visit.documents t).filter p).mergeSort
      (fun a b => a.number ≤ b.number)).Perm ((l.map Prod.snd).filter p) :=
    (List.mergeSort_perm _ _).trans
      (((visit.perm t).trans (hperm.symm.map Prod.snd)).filter p)
  have hincreasing := hord.pairwise_filter p
  -- no number stands twice, so that sorted by numbers means increasing
  have hne : (((visit.documents t).filter p).mergeSort
      (fun a b => a.number ≤ b.number)).Pairwise fun a b => a.number ≠ b.number :=
    (hsorted.pairwise_iff fun hab hba => hab hba.symm).mpr (hincreasing.imp Nat.ne_of_lt)
  have hle : (((visit.documents t).filter p).mergeSort
      (fun a b => a.number ≤ b.number)).Pairwise
        fun a b => decide (a.number ≤ b.number) = true := by
    refine List.pairwise_mergeSort (fun a b d hab hbd => ?_) (fun a b => ?_) _
    · rw [decide_eq_true_iff] at hab hbd ⊢
      exact Nat.le_trans hab hbd
    · rw [Bool.or_eq_true, decide_eq_true_iff, decide_eq_true_iff]
      exact Nat.le_total a.number b.number
  have hlt := (hle.and hne).imp fun h => Nat.lt_of_le_of_ne (of_decide_eq_true h.1) h.2
  exact List.Perm.eq_of_pairwise (fun a b _ _ hab hba => absurd hab (Nat.lt_asymm hba)) hlt
    hincreasing hsorted

/-- A read of the table finds what a read of the collection finds. -/
theorem Shows.matching (h : t.Shows count c) (hnd : (Members.keys c).Nodup) (visit : Visit)
    (f : Filter) : (t.matching visit f).map Numbered.doc = (c.matching f).documents := by
  unfold Table.matching
  cases hf : f.idEquality? with
  | none =>
    obtain ⟨l, hperm, hord, rfl⟩ := h
    rw [Collection.matching_of_idEquality?_none _ hf]
    simp only
    rw [sort_visited hperm hord]
    simp [plain, Collection.documents, List.filter_map, Function.comp_def]
  | some id =>
    unfold Collection.matching
    rw [hf]
    simp only
    rw [h.get? hnd]
    cases Members.get? t (Identity.key id) with
    | none => rfl
    | some d =>
      by_cases hs : f.selects d.doc = true
      · simp [hs, Collection.documents]
      · simp [hs, Collection.documents]

/-- A scan of the table finds documents in the order in which they were added. -/
theorem Shows.matching_pairwise (h : t.Shows count c) (visit : Visit) {f : Filter}
    (hf : f.idEquality? = none) :
    (t.matching visit f).Pairwise fun a b => a.number < b.number := by
  obtain ⟨l, hperm, hord, -⟩ := h
  unfold Table.matching
  rw [hf]
  simp only
  rw [sort_visited hperm hord]
  exact hord.pairwise_filter _

theorem Shows.targetKey? (h : t.Shows count c) (hnd : (Members.keys c).Nodup) (visit : Visit)
    (f : Filter) : t.targetKey? visit f = c.targetKey? f := by
  have hmatching := h.matching hnd visit f
  unfold Table.targetKey? Collection.targetKey?
  cases hc : c.matching f with
  | nil =>
    rw [hc] at hmatching
    rw [List.map_eq_nil_iff.mp hmatching]
  | cons kd rest =>
    obtain ⟨key, doc⟩ := kd
    rw [hc] at hmatching
    obtain ⟨d, ds, hds, rfl, -⟩ := List.map_eq_cons_iff.mp hmatching
    rw [hds]

/-! ## Writes -/

/-- A document that is added with the next number comes last. -/
theorem Shows.add (h : t.Shows count c) {key : String} (hnew : key ∉ Members.keys c) (doc : Json) :
    Shows (Members.insert t key ⟨count + 1, doc⟩) (count + 1) (Members.insert c key doc) := by
  obtain ⟨l, hperm, hord, rfl⟩ := h
  rw [keys_plain] at hnew
  have hnew' : key ∉ Members.keys t := fun hmem => hnew ((hperm.map Prod.fst).mem_iff.mpr hmem)
  -- no number so far is above the count, so that the next one is the greatest
  refine ⟨l ++ [(key, ⟨count + 1, doc⟩)], ?_, ⟨?_, ?_⟩, ?_⟩
  · rw [Members.insert_of_not_mem t key _ hnew']
    exact hperm.append_right _
  · refine List.pairwise_append.mpr ⟨hord.increasing, List.pairwise_singleton _ _, ?_⟩
    intro a ha b hb
    have hbound := hord.bounded a ha
    rw [List.mem_singleton.mp hb]
    exact Nat.lt_succ_of_le hbound
  · intro kd hmem
    rcases List.mem_append.mp hmem with hl | hlast
    · exact Nat.le_trans (hord.bounded kd hl) (Nat.le_succ count)
    · exact Nat.le_of_eq (by rw [List.mem_singleton.mp hlast])
  · rw [Members.insert_of_not_mem _ key doc (by rwa [keys_plain]), plain_append]
    rfl

/-- A document that keeps its number keeps its place. -/
theorem Shows.rewrite (h : t.Shows count c) (hnd : (Members.keys c).Nodup) {key : String}
    {old : Numbered} (hget : Members.get? t key = some old) (new : Json) :
    Shows (Members.insert t key ⟨old.number, new⟩) count (Members.insert c key new) := by
  obtain ⟨l, hperm, hord, rfl⟩ := h
  rw [keys_plain] at hnd
  rw [← Members.get?_perm hnd hperm] at hget
  obtain ⟨a, b, rfl⟩ := List.append_of_mem (Members.mem_of_get? hget)
  have hfirst := (Members.not_mem_of_split hnd).1
  have hinsert := Members.insert_perm hnd hperm key ⟨old.number, new⟩
  rw [Members.insert_split a b key old _ hfirst] at hinsert
  -- in order, the document stands where the one with its number stood
  refine ⟨a ++ (key, ⟨old.number, new⟩) :: b, hinsert, ⟨?_, ?_⟩, ?_⟩
  · simpa [List.pairwise_append] using hord.increasing
  · intro kd hmem
    have hbounded := hord.bounded
    simp only [List.mem_append, List.mem_cons] at hmem hbounded
    rcases hmem with hl | rfl | hr
    · exact hbounded kd (.inl hl)
    · exact hbounded (key, old) (.inr (.inl rfl))
    · exact hbounded kd (.inr (.inr hr))
  · have hplain : key ∉ Members.keys (plain a) := by rwa [keys_plain]
    show Members.insert (plain (a ++ (key, old) :: b)) key new = _
    rw [plain_append, plain_append]
    exact Members.insert_split (plain a) (plain b) key old.doc new hplain

/-- Taking out a document moves no other. -/
theorem Shows.drop (h : t.Shows count c) (key : String) :
    Shows (Members.remove t key) count (Members.remove c key) := by
  obtain ⟨l, hperm, hord, rfl⟩ := h
  refine ⟨Members.remove l key, hperm.filter _, ⟨hord.increasing.filter _, ?_⟩, ?_⟩
  · exact fun kd hmem => hord.bounded kd (List.mem_filter.mp hmem).1
  · unfold plain Members.remove
    rw [List.filter_map]
    rfl

/-! ## Results -/

/-- A result on a table, and the same result on the collection that the table shows. Counts only
grow. -/
inductive Agree {α : Type} (count : Nat) :
    Except Error (α × Table × Nat) → Except Error (α × Collection) → Prop
  | error (e : Error) : Agree count (.error e) (.error e)
  | ok {a : α} {t : Table} {count' : Nat} {c : Collection} (hle : count ≤ count')
      (h : t.Shows count' c) : Agree count (.ok (a, t, count')) (.ok (a, c))

theorem Shows.insert (h : t.Shows count c) (hnd : (Members.keys c).Nodup) (name fresh : String)
    (doc : Json) : Agree count (t.insert name fresh doc count) (c.insert name fresh doc) := by
  unfold Table.insert Collection.insert
  cases Document.withIdentity fresh doc with
  | error e => exact .error e
  | ok ks =>
    obtain ⟨key, stored⟩ := ks
    simp only [h.contains hnd key]
    cases hc : Members.contains c key with
    | true => exact .error _
    | false =>
      exact .ok (Nat.le_succ _) (h.add ((Members.contains_eq_false_iff c key).mp hc) stored)

theorem Shows.replace (h : t.Shows count c) (hnd : (Members.keys c).Nodup) (name key : String)
    (u : Update) : Agree count (t.replace name key u count) (c.replace name key u) := by
  unfold Table.replace Collection.replace
  rw [h.get? hnd]
  cases hget : Members.get? t key with
  | none => exact .ok (Nat.le_refl _) h
  | some old =>
    simp only [Option.map_some]
    cases u.run old.doc with
    | error e => exact .error _
    | ok new =>
      by_cases hsame : Document.sameIdentity old.doc new = true
      · simp only [hsame, if_true]
        exact .ok (Nat.le_refl _) (h.rewrite hnd hget new)
      · simp only [hsame, if_false, Bool.false_eq_true]
        exact .error _

theorem Shows.upsert (h : t.Shows count c) (hnd : (Members.keys c).Nodup) (name fresh : String)
    (f : Filter) (u : Update) :
    Agree count (t.upsert name fresh f u count) (c.upsert name fresh f u) := by
  unfold Table.upsert Collection.upsert
  cases f.seed with
  | error e => exact .error _
  | ok seed =>
    simp only
    cases u.run seed with
    | error e => exact .error _
    | ok doc =>
      simp only
      cases Document.withIdentity fresh doc with
      | error e => exact .error e
      | ok ks =>
        obtain ⟨key, stored⟩ := ks
        simp only [h.contains hnd key]
        cases hc : Members.contains c key with
        | true => exact .error _
        | false =>
          exact .ok (Nat.le_succ _) (h.add ((Members.contains_eq_false_iff c key).mp hc) stored)

theorem Shows.update (h : t.Shows count c) (hnd : (Members.keys c).Nodup) (name fresh : String)
    (visit : Visit) (f : Filter) (u : Update) (upsert : Bool) :
    Agree count (t.update name fresh visit f u upsert count) (c.update name fresh f u upsert) := by
  unfold Table.update Collection.update
  rw [h.targetKey? hnd]
  cases c.targetKey? f with
  | some key => exact h.replace hnd name key u
  | none =>
    cases upsert with
    | true => exact h.upsert hnd name fresh f u
    | false => exact .ok (Nat.le_refl _) h

/-- A deletion answers the same document on both sides, and takes it out. -/
theorem Shows.delete (h : t.Shows count c) (hnd : (Members.keys c).Nodup) (visit : Visit)
    (f : Filter) :
    (t.delete visit f = none ∧ c.delete f = none) ∨
      ∃ doc t' c', t.delete visit f = some (doc, t') ∧ c.delete f = some (doc, c') ∧
        Shows t' count c' := by
  unfold Table.delete Collection.delete
  rw [h.targetKey? hnd]
  cases c.targetKey? f with
  | none => exact .inl ⟨rfl, rfl⟩
  | some key =>
    simp only [Option.bind_eq_bind, Option.bind_some, Option.pure_def, h.get? hnd key]
    cases Members.get? t key with
    | none => exact .inl ⟨rfl, rfl⟩
    | some d => exact .inr ⟨d.doc, _, _, rfl, rfl, h.drop key⟩

end Shows

end Table

/-! ## Runs -/

namespace Tables

/-- The tables show the collections of a store. -/
def Shows (s : Tables) (store : Store) : Prop :=
  ∀ name, (s.table name).Shows s.count (store.collection name)

theorem table_insert (s : Tables) (name name' : String) (t : Table) (count : Nat) :
    table ⟨Members.insert s.tables name t, count⟩ name' =
      if name = name' then t else s.table name' := by
  unfold table
  rw [Members.get?_insert]
  by_cases h : name = name' <;> simp [h]

/-- Exchanging one table and the collection that it shows. -/
theorem Shows.insert {s : Tables} {store : Store} (h : s.Shows store) (name : String) {t : Table}
    {count : Nat} {c : Collection} (hle : s.count ≤ count) (ht : t.Shows count c) :
    Shows ⟨Members.insert s.tables name t, count⟩ (Members.insert store name c) := by
  intro name'
  rw [table_insert, Store.collection_insert]
  by_cases hn : name = name'
  · rw [if_pos hn, if_pos hn]
    exact ht
  · rw [if_neg hn, if_neg hn]
    exact (h name').mono hle

theorem Shows.lists {s : Tables} {store : Store} (h : s.Shows store) (hnd : store.Distinct)
    (visit : Visit) : s.lists visit = store.lists := by
  funext name
  exact (h name).matching (hnd name) visit .all

/-- One call has the same answer on both sides, and the tables show the store after it. -/
theorem Shows.step {s : Tables} {store : Store} (h : s.Shows store) (hnd : store.Distinct)
    (visit : Visit) (call : Store.Call) :
    (s.step visit call).1 = call.answer store ∧ (s.step visit call).2.Shows (call.run store) := by
  cases call with
  | insert name fresh doc =>
    have hagree := (h name).insert (hnd name) name fresh doc
    simp only [Tables.step, Store.Call.answer, Store.Call.run, Store.insert]
    generalize (s.table name).insert name fresh doc s.count = r at hagree ⊢
    generalize (store.collection name).insert name fresh doc = r' at hagree ⊢
    cases hagree with
    | error e => exact ⟨rfl, h⟩
    | ok hle ht => exact ⟨rfl, h.insert name hle ht⟩
  | update name fresh f u upsert =>
    have hagree := (h name).update (hnd name) name fresh visit f u upsert
    simp only [Tables.step, Store.Call.answer, Store.Call.run, Store.update]
    generalize (s.table name).update name fresh visit f u upsert s.count = r at hagree ⊢
    generalize (store.collection name).update name fresh f u upsert = r' at hagree ⊢
    cases hagree with
    | error e => exact ⟨rfl, h.insert name (Nat.le_refl _) (h name)⟩
    | ok hle ht => exact ⟨rfl, h.insert name hle ht⟩
  | delete name f =>
    simp only [Tables.step, Store.Call.answer, Store.Call.run, Store.delete]
    rcases (h name).delete (hnd name) visit f with ⟨ht, hc⟩ | ⟨doc, t, c, ht, hc, hshows⟩
    · simp only [ht, hc]
      exact ⟨trivial, h⟩
    · simp only [ht, hc]
      exact ⟨trivial, h.insert name (Nat.le_refl _) hshows⟩

/-- After every run the tables show the ordered store. -/
theorem shows_after (calls : List (Store.Call × Visit)) :
    (after calls).Shows (Store.after (calls.map Prod.fst)) := by
  -- by induction on the calls, from any tables that show a store with distinct keys
  have hrun : ∀ (calls : List (Store.Call × Visit)) (s : Tables) (store : Store), s.Shows store →
      store.Distinct → Shows (calls.foldl (fun s call => (s.step call.2 call.1).2) s)
        ((calls.map Prod.fst).foldl (fun s call => call.run s) store) := by
    intro calls
    induction calls with
    | nil => exact fun s store h _ => h
    | cons call rest ih =>
      intro s store h hnd
      exact ih _ _ (h.step hnd call.2 call.1).2 ((call.1.change hnd).distinct hnd)
  refine hrun calls ⟨[], 0⟩ [] (fun name => ?_) fun _ => List.nodup_nil
  exact ⟨[], List.Perm.refl _, ⟨List.Pairwise.nil, fun _ h => absurd h List.not_mem_nil⟩, rfl⟩

/-- **The store is an ordered list of documents for each collection.** Wherever in a run a call
stands, it does to these lists what its answer tells, and nothing else. Tables that are visited in
any order, another one at each call, show the same lists and give the same answers. -/
theorem calls_step_lists (calls : List (Store.Call × Visit)) (call : Store.Call)
    (visit visit' : Visit) :
    let store := Store.after (calls.map Prod.fst)
    Store.ListStep store.lists call (call.answer store) (call.run store).lists ∧
      (after calls).lists visit' = store.lists ∧
      ((after calls).step visit call).1 = call.answer store ∧
      ((after calls).step visit call).2.lists visit' = (call.run store).lists := by
  intro store
  have hnd : store.Distinct := Store.distinct_after _
  have hshows : (after calls).Shows store := shows_after calls
  obtain ⟨hanswer, hnext⟩ := hshows.step hnd visit call
  have hnd' : (call.run store).Distinct := (call.change hnd).distinct hnd
  exact ⟨Store.step_lists hnd call, hshows.lists hnd visit', hanswer, hnext.lists hnd' visit'⟩

end Tables

end DocWatch
