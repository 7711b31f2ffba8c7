import DocWatch.Proofs.Filter.Conditions
import DocWatch.Proofs.Identity.Key
import DocWatch.Proofs.Store.Lists

/-!
# Look-up of an identity and the full scan

A filter that asks for one identity is answered by a look-up under the key of that identity. What
the look-up finds is selected by the filter, but it may miss documents that a scan of the collection
finds, because they lie under other keys: those whose identity is an array that contains the one
that is asked for, and those whose identity is an equal number with another key.

- `Document.Rooted`, `Collection.Rooted`: documents lie under the keys of identities that are equal
  to their own.
- `Collection.Located`: no document lies where the look-up of an identity misses it.
- `Store.find_eq_scan_iff`: the look-up agrees with the scan exactly then.
-/

namespace DocWatch

/-! ## Where documents lie -/

/-- The key is that of an identity, the one that the document was added with, which is equal to the
one that it has now. -/
def Document.Rooted (key : String) (doc : Json) : Prop :=
  ∃ origin id, key = Identity.key origin ∧ id? doc = some id ∧
    (origin = id ∨ origin.equiv id = true)

namespace Collection

/-- All documents lie under such keys. -/
def Rooted (c : Collection) : Prop := ∀ kd ∈ c, Document.Rooted kd.1 kd.2

/-- Every change leaves documents where they were, under identities that stay equal. -/
theorem Change.rooted {c c' : Collection} (h : c.Change c') (hroot : c.Rooted) : c'.Rooted := by
  refine h.forall_mem (fun key doc id hid _ hkey => ⟨id, id, hkey, hid, .inl rfl⟩)
    (fun key old new hsame hold => ?_) hroot
  obtain ⟨a, b, ha, hb, hab⟩ := (Document.sameIdentity_iff old new).mp hsame
  obtain ⟨origin, id, hkey, hid, horigin⟩ := hold
  obtain rfl := Option.some.inj (ha.symm.trans hid)
  refine ⟨origin, b, hkey, hb, .inr ?_⟩
  rcases horigin with rfl | horigin
  · exact hab
  · exact Json.equiv_trans horigin hab

/-! ## Look-up -/

section Lookup

variable {c : Collection} {f : Filter} {v : Json}

/-- The look-up of an identity finds the selected documents under one key. -/
theorem matching_of_idEquality?_some (hnd : (Members.keys c).Nodup) (hf : f.idEquality? = some v) :
    c.matching f = List.filter (fun kd => f.selects kd.2)
      (List.filter (fun kd => kd.1 == Identity.key v) c) := by
  unfold matching
  rw [hf, Members.filter_key hnd]
  simp only
  cases Members.get? c (Identity.key v) with
  | none => rfl
  | some doc => simp only [List.filter_cons, List.filter_nil]

/-- What is found is part of what a scan finds, in order. -/
theorem matching_sublist (hnd : (Members.keys c).Nodup) (f : Filter) :
    (c.matching f).Sublist (List.filter (fun kd => f.selects kd.2) c) := by
  cases hf : f.idEquality? with
  | none => rw [matching_of_idEquality?_none c hf]
  | some v =>
    rw [matching_of_idEquality?_some hnd hf]
    exact List.filter_sublist.filter _

/-- The look-up finds as much as a scan exactly if all that the filter selects lies under one
key. -/
theorem length_matching_iff (hnd : (Members.keys c).Nodup) (hf : f.idEquality? = some v) :
    (c.matching f).length = (List.filter (fun kd => f.selects kd.2) c).length ↔
      ∀ key doc, (key, doc) ∈ c → f.selects doc = true → key = Identity.key v := by
  rw [matching_of_idEquality?_some hnd hf, List.filter_comm, List.length_filter_eq_length_iff]
  constructor
  · intro hall key doc hmem hs
    exact beq_iff_eq.mp (hall (key, doc) (List.mem_filter.mpr ⟨hmem, hs⟩))
  · rintro hall ⟨key, doc⟩ hmem
    obtain ⟨hmem, hs⟩ := List.mem_filter.mp hmem
    exact beq_iff_eq.mpr (hall key doc hmem hs)

/-- A filter for one identity selects the documents that have it, or an array that contains it. -/
theorem selects_iff (hf : f.idEquality? = some v) {doc id : Json}
    (hid : Document.id? doc = some id) : f.selects doc = true ↔ id.HasEqual v := by
  obtain ⟨hpredicate, -⟩ := Filter.predicate_of_idEquality? hf
  rw [Filter.selects_of_predicate hpredicate hid, Json.equalsOrContains_iff]

/-! ## What the look-up misses -/

/-- No document lies where the look-up of an identity misses it. -/
structure Located (c : Collection) (v : Json) : Prop where
  /-- No identity is an array that contains it. -/
  not_contained : ∀ key doc items, (key, doc) ∈ c → Document.id? doc = some (.arr items) →
    ∀ item ∈ items, item.equiv v = false
  /-- The documents with an equal identity lie under its key, if it is a number from `2 ^ 53` on.
  For other values this is so in any case. -/
  under_key : ∀ n, v = .num n → ¬ n.IsExact → ∀ key doc id, (key, doc) ∈ c →
    Document.id? doc = some id → id.equiv v = true → key = Identity.key v

/-- A document with an equal identity lies under the key of that identity, unless it is a number
from `2 ^ 53` on. -/
theorem Rooted.key_eq (hroot : c.Rooted) (hscalar : v.IsScalar)
    (hexact : ∀ n, v = .num n → n.IsExact) {key : String} {doc id : Json} (hmem : (key, doc) ∈ c)
    (hid : Document.id? doc = some id) (h : id.equiv v = true) : key = Identity.key v := by
  -- both the first and the present identity are equal to the one that is asked for
  obtain ⟨origin, id', rfl, hid', horigin⟩ := hroot (key, doc) hmem
  obtain rfl := Option.some.inj (hid.symm.trans hid')
  have horiginv : origin.equiv v = true := by
    rcases horigin with rfl | horigin
    · exact h
    · exact Json.equiv_trans horigin h
  exact Identity.key_eq_of_equiv hscalar hexact horiginv

/-- Where no document is missed, one with an equal identity lies under the key of that identity. -/
theorem Located.key_eq (hloc : c.Located v) (hroot : c.Rooted) (hscalar : v.IsScalar)
    {key : String} {doc id : Json} (hmem : (key, doc) ∈ c) (hid : Document.id? doc = some id)
    (h : id.equiv v = true) : key = Identity.key v := by
  by_cases hinexact : ∃ n, v = .num n ∧ ¬ n.IsExact
  · obtain ⟨n, hn, hinexact⟩ := hinexact
    exact hloc.under_key n hn hinexact key doc id hmem hid h
  · have hexact : ∀ n, v = .num n → n.IsExact :=
      fun n hn => not_not.mp fun hnot => hinexact ⟨n, hn, hnot⟩
    exact hroot.key_eq hscalar hexact hmem hid h

/-- A document whose identity is an array does not lie under the key of another kind of value. -/
theorem Rooted.key_ne (hroot : c.Rooted) (hscalar : v.IsScalar) {key : String} {doc : Json}
    {items : List Json} (hmem : (key, doc) ∈ c) (hid : Document.id? doc = some (.arr items)) :
    key ≠ Identity.key v := by
  obtain ⟨origin, id, rfl, hid', horigin⟩ := hroot (key, doc) hmem
  obtain rfl := Option.some.inj (hid.symm.trans hid')
  have harr : ∃ items', origin = .arr items' := by
    rcases horigin with rfl | horigin
    · exact ⟨items, rfl⟩
    · exact Json.exists_arr_of_equiv horigin
  obtain ⟨items', rfl⟩ := harr
  exact Identity.key_arr_ne items' hscalar

/-- All that a filter for one identity selects lies under the key of that identity exactly if no
document lies where it is missed. -/
theorem under_key_iff_located (hroot : c.Rooted) (hf : f.idEquality? = some v) :
    (∀ key doc, (key, doc) ∈ c → f.selects doc = true → key = Identity.key v) ↔ c.Located v := by
  obtain ⟨-, hscalar⟩ := Filter.predicate_of_idEquality? hf
  constructor
  · intro hall
    constructor
    · intro key doc items hmem hid item hitem
      -- such a document would be selected, but it lies under the key of an array
      by_contra hequiv
      rw [Bool.not_eq_false] at hequiv
      have hs : f.selects doc = true :=
        (selects_iff hf hid).mpr ⟨item, .inr ⟨items, rfl, hitem⟩, hequiv⟩
      exact hroot.key_ne hscalar hmem hid (hall key doc hmem hs)
    · intro n _ _ key doc id hmem hid hequiv
      exact hall key doc hmem ((selects_iff hf hid).mpr ⟨id, .inl rfl, hequiv⟩)
  · intro hloc key doc hmem hs
    obtain ⟨origin, id, -, hid, -⟩ := hroot (key, doc) hmem
    obtain ⟨item, rfl | ⟨items, rfl, hitem⟩, hequiv⟩ := (selects_iff hf hid).mp hs
    · exact hloc.key_eq hroot hscalar hmem hid hequiv
    · rw [hloc.not_contained key doc items hmem hid item hitem] at hequiv
      cases hequiv

end Lookup

end Collection

namespace Store

/-- The documents that a scan of a collection finds. -/
theorem filter_lists (s : Store) (name : String) (f : Filter) :
    (s.lists name).filter f.selects =
      Collection.documents (List.filter (fun kd => f.selects kd.2) (s.collection name)) := by
  rw [lists_eq, Collection.documents, Collection.documents, List.filter_map]
  rfl

/-- Every document lies under the key of an identity that is equal to its own. -/
theorem rooted_after (calls : List Call) (name : String) :
    ((after calls).collection name).Rooted :=
  forall_after (fun _ hmem => absurd hmem List.not_mem_nil) (fun _ _ h => h.rooted) calls name

/-- **Look-up and scan.** After every run, whatever a filter finds is among the documents of the
collection that it selects, in their order. These are all there are if the filter does not ask for
one identity. If it does, they are all there are exactly if no document lies where the look-up of
that identity misses it. -/
theorem find_eq_scan_iff (calls : List Call) (name : String) (f : Filter) :
    ((after calls).find name f).Sublist (((after calls).lists name).filter f.selects) ∧
      (f.idEquality? = none →
        (after calls).find name f = ((after calls).lists name).filter f.selects) ∧
      ∀ v, f.idEquality? = some v →
        ((after calls).find name f = ((after calls).lists name).filter f.selects ↔
          ((after calls).collection name).Located v) := by
  have hnd := distinct_after calls name
  have hsub := Collection.matching_sublist hnd f
  rw [filter_lists, find]
  refine ⟨hsub.map _, fun hf => ?_, fun v hf => ?_⟩
  · rw [Collection.matching_of_idEquality?_none _ hf]
  · rw [← Collection.under_key_iff_located (rooted_after calls name) hf,
      ← Collection.length_matching_iff hnd hf]
    constructor
    · intro h
      have hlength := congrArg List.length h
      rwa [Collection.documents, Collection.documents, List.length_map, List.length_map] at hlength
    · intro hlength
      rw [hsub.eq_of_length hlength]

/-- A document whose identity is an array of strings. -/
def pair : Json := .obj [("_id", .arr [.str "a", .str "b"])]

/-- The filter for one of these strings selects the document, and so does its live form, by which
clients read. The look-up misses it. -/
theorem lookup_misses_pair :
    (after [.insert "t" "" pair]).find "t" (.byId (.str "a")) = [] ∧
      ((after [.insert "t" "" pair]).lists "t").filter (Filter.byId (.str "a")).selects = [pair] ∧
      (after [.insert "t" "" pair]).find "t" (Filter.byId (.str "a")).live = [pair] := by
  refine ⟨by decide, by decide, by decide⟩

/-- Two documents with strings for identities. -/
def singles : List Call :=
  [.insert "t" "" (.obj [("_id", .str "a")]), .insert "t" "" (.obj [("_id", .str "b")])]

/-- A look-up of a string misses none of them. -/
theorem singles_located : ((after singles).collection "t").Located (.str "b") :=
  ((find_eq_scan_iff singles "t" (.byId (.str "b"))).2.2 (.str "b") rfl).mp (by decide)

end Store
end DocWatch
