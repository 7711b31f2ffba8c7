import DocWatch.Proofs.Store.Lookup

/-!
# Documents and their identities

No two documents lie under one key. So no value is equal to the identities of two documents where
equal identities have one key, as strings, booleans and numbers below `2 ^ 53` do. Two spellings of
one object have different keys, though, and so have two numbers from `2 ^ 53` on that are one
double; documents that have them for identities may stand side by side. An identity finds its own
document if the document lies under the key of that identity. Arrays and objects are not looked up
under a key: they find the first document whose identity is equal to them or contains them.

- `Json.IsPlain`: the values whose key is that of everything equal to them.
- `Document.HasId`, `Store.Unique`: no value is equal to the identities of two documents.
- `Store.unique_run_iff`: a call keeps it so exactly if the identity that it adds is new.
- `Collection.head?_matching_byId_iff`: when an identity finds its own document.
- `Store.identities_unique_and_found_iff`: all this after every run.
-/

namespace DocWatch

namespace Json

/-- Is this no container, and no number that may share its double with others? -/
def IsPlain (v : Json) : Prop := v.IsScalar ∧ ∀ n, v = .num n → n.IsExact

/-- A value that is no container has no key twice. -/
theorem IsScalar.keysDistinct {v : Json} (h : v.IsScalar) : v.KeysDistinct := by
  cases v with
  | arr items => exact h.elim
  | obj fields => exact h.elim
  | _ => trivial

end Json

/-- A filter for an identity that is no container asks for that identity. -/
theorem Filter.idEquality?_byId {id : Json} (h : id.IsScalar) :
    (byId id).idEquality? = some id := by
  cases id with
  | arr items => exact h.elim
  | obj fields => exact h.elim
  | _ => rfl

/-- A filter for a container is answered by a scan. -/
theorem Filter.idEquality?_byId_container {id : Json} (h : ¬ id.IsScalar) :
    (byId id).idEquality? = none := by
  cases id with
  | arr items => rfl
  | obj fields => rfl
  | _ => exact absurd trivial h

/-! ## Which documents have an identity -/

/-- Is the identity of the document equal to the value? -/
def Document.HasId (doc v : Json) : Prop := ∃ id, id? doc = some id ∧ id.equiv v = true

/-- An update that passes the identity check leaves the document no identity that it did not
have. -/
theorem Document.HasId.of_sameIdentity {old new v : Json} (h : HasId new v)
    (hsame : sameIdentity old new = true) : HasId old v := by
  obtain ⟨a, b, ha, hb, hab⟩ := (sameIdentity_iff old new).mp hsame
  obtain ⟨id, hid, hequiv⟩ := h
  obtain rfl := Option.some.inj (hb.symm.trans hid)
  exact ⟨a, ha, Json.equiv_trans hab hequiv⟩

/-- No value is equal to the identities of both documents. -/
def Document.Apart (a b : Json) : Prop := ∀ v, ¬ (HasId a v ∧ HasId b v)

/-- Two documents have no identity in common if their identities are not equal to each other. -/
theorem Document.apart_iff {a b id id' : Json} (ha : id? a = some id) (hb : id? b = some id')
    (hdistinct : id'.KeysDistinct) : Apart a b ↔ id.equiv id' = false := by
  constructor
  · intro hapart
    rw [← Bool.not_eq_true]
    exact fun hequiv => hapart id' ⟨⟨id, ha, hequiv⟩, id', hb, Json.equiv_refl hdistinct⟩
  · rintro hne v ⟨⟨_, ha', hv⟩, _, hb', hv'⟩
    obtain rfl := Option.some.inj (ha.symm.trans ha')
    obtain rfl := Option.some.inj (hb.symm.trans hb')
    rw [Json.equiv_trans hv (Json.equiv_symm hdistinct hv')] at hne
    cases hne

namespace Collection

variable {c : Collection}

/-- Two documents of which one has a plain identity have no identity in common, unless they lie
under one key. -/
theorem Rooted.key_eq_of_hasId (hroot : c.Rooted) {key key' : String} {doc doc' id v : Json}
    (hmem : (key, doc) ∈ c) (hid : Document.id? doc = some id) (hplain : id.IsPlain)
    (hmem' : (key', doc') ∈ c) (hv : Document.HasId doc v) (hv' : Document.HasId doc' v) :
    key' = key := by
  obtain ⟨id₁, hid₁, hequiv⟩ := hv
  obtain rfl := Option.some.inj (hid.symm.trans hid₁)
  obtain ⟨id', hid', hequiv'⟩ := hv'
  have hcommon : id'.equiv id = true :=
    Json.equiv_trans hequiv' (Json.equiv_symm hplain.1.keysDistinct hequiv)
  have hself : id.equiv id = true := Json.equiv_refl hplain.1.keysDistinct
  rw [hroot.key_eq hplain.1 hplain.2 hmem' hid' hcommon,
    hroot.key_eq hplain.1 hplain.2 hmem hid hself]

/-- The identity of a document, as one that is found. -/
theorem selects_byId_self {doc id : Json} (hid : Document.id? doc = some id)
    (hdistinct : id.KeysDistinct) : (Filter.byId id).selects doc = true := by
  rw [Filter.byId_selects hid, Json.equalsOrContains_iff]
  exact ⟨id, .inl rfl, Json.equiv_refl hdistinct⟩

/-- An identity that is no container finds its own document if that lies under its key. -/
theorem head?_matching_byId_scalar (hnd : (Members.keys c).Nodup) {key : String} {doc id : Json}
    (hmem : (key, doc) ∈ c) (hid : Document.id? doc = some id) (hscalar : id.IsScalar) :
    (c.matching (.byId id)).head? = some (key, doc) ↔ key = Identity.key id := by
  have hlookup := matching_of_idEquality?_some hnd (Filter.idEquality?_byId hscalar)
  constructor
  · intro hhead
    have hfound := List.mem_of_mem_head? hhead
    rw [hlookup] at hfound
    exact beq_iff_eq.mp (List.mem_filter.mp (List.mem_filter.mp hfound).1).2
  · rintro rfl
    have hget := (Members.get?_eq_some_iff hnd _ doc).mpr hmem
    rw [hlookup, Members.filter_key hnd, hget]
    simp [selects_byId_self hid hscalar.keysDistinct]

/-- A container finds its own document if no document before it has an identity that is equal to it
or contains it. -/
theorem head?_matching_byId_container {l r : Collection} {key : String} {doc id : Json}
    (hnd : (Members.keys (l ++ (key, doc) :: r)).Nodup)
    (hroot : Rooted (l ++ (key, doc) :: r)) (hid : Document.id? doc = some id)
    (hdistinct : id.KeysDistinct) (hcontainer : ¬ id.IsScalar) :
    (matching (l ++ (key, doc) :: r) (.byId id)).head? = some (key, doc) ↔
      ∀ kd ∈ l, ∀ id', Document.id? kd.2 = some id' → id'.equalsOrContains id = false := by
  rw [matching_of_idEquality?_none _ (Filter.idEquality?_byId_container hcontainer),
    List.head?_filter, List.find?_append]
  constructor
  · intro hfirst kd hkd id' hid'
    by_contra hselects
    rw [Bool.not_eq_false, ← Filter.byId_selects hid'] at hselects
    cases hl : List.find? (fun kd => (Filter.byId id).selects kd.2) l with
    | none => exact absurd hselects (List.find?_eq_none.mp hl kd hkd)
    | some kd' =>
      -- what is found would be a document before this one, under the key of this one
      rw [hl, Option.some_or, Option.some.injEq] at hfirst
      rw [hfirst] at hl
      exact (Members.not_mem_of_split hnd).1
        (Members.mem_keys_of_mem (List.mem_of_find?_eq_some hl))
  · intro hbefore
    have hl : List.find? (fun kd => (Filter.byId id).selects kd.2) l = none := by
      refine List.find?_eq_none.mpr fun kd hkd hselects => ?_
      obtain ⟨_, id', -, hid', -⟩ := hroot kd (List.mem_append_left _ hkd)
      rw [Filter.byId_selects hid', hbefore kd hkd id' hid'] at hselects
      cases hselects
    rw [hl, Option.none_or]
    simp [selects_byId_self hid hdistinct]

/-- An identity finds its own document if that lies under its key, or, for a container, if no
document before it is found. -/
theorem head?_matching_byId_iff {l r : Collection} {key : String} {doc id : Json}
    (hnd : (Members.keys (l ++ (key, doc) :: r)).Nodup)
    (hroot : Rooted (l ++ (key, doc) :: r)) (hid : Document.id? doc = some id)
    (hdistinct : id.KeysDistinct) :
    (matching (l ++ (key, doc) :: r) (.byId id)).head? = some (key, doc) ↔
      (id.IsScalar ∧ key = Identity.key id) ∨ (¬ id.IsScalar ∧ ∀ kd ∈ l, ∀ id',
        Document.id? kd.2 = some id' → id'.equalsOrContains id = false) := by
  by_cases hscalar : id.IsScalar
  · rw [head?_matching_byId_scalar hnd (List.mem_append_right l List.mem_cons_self) hid hscalar]
    simp [hscalar]
  · rw [head?_matching_byId_container hnd hroot hid hdistinct hscalar]
    simp [hscalar]

end Collection

/-! ## Runs -/

namespace Store

/-- No value is equal to the identities of two documents of one collection. -/
def Unique (s : Store) : Prop := ∀ name, (s.lists name).Pairwise Document.Apart

/-- The collection that a call is about. -/
def Call.collection : Call → String
  | .insert name _ _ | .update name _ _ _ _ | .delete name _ => name

/-- The identity of the document that a call added. -/
def Answer.added? : Answer → Option Json
  | .inserted (.ok id) => some id
  | .updated (.ok outcome) => outcome.upserted
  | _ => none

/-- A document that the call adds has no identity in common with one that is there. -/
def Call.AddsNew (s : Store) (call : Call) : Prop :=
  ∀ id, (call.answer s).added? = some id → ∀ doc ∈ s.lists call.collection, ∀ v,
    Document.HasId doc v → id.equiv v = false

/-- One list is exchanged. -/
theorem unique_update_iff {s : Store} (hs : s.Unique) (name : String) (docs : List Json) :
    (∀ name', (Function.update s.lists name docs name').Pairwise Document.Apart) ↔
      docs.Pairwise Document.Apart := by
  constructor
  · intro h
    have hname := h name
    rwa [Function.update_self] at hname
  · intro h name'
    by_cases hn : name' = name
    · rw [hn, Function.update_self]
      exact h
    · rw [Function.update_of_ne hn]
      exact hs name'

/-- A document at the end has no identity in common with the others. -/
theorem pairwise_concat_iff {docs : List Json} (hdocs : docs.Pairwise Document.Apart)
    {stored id : Json} (hid : Document.id? stored = some id) :
    (docs ++ [stored]).Pairwise Document.Apart ↔
      ∀ doc ∈ docs, ∀ v, Document.HasId doc v → id.equiv v = false := by
  rw [List.pairwise_append]
  constructor
  · rintro ⟨-, -, hlast⟩ doc hdoc v hv
    rw [← Bool.not_eq_true]
    exact fun hequiv => hlast doc hdoc stored (List.mem_singleton.mpr rfl) v
      ⟨hv, id, hid, hequiv⟩
  · refine fun hnew => ⟨hdocs, List.pairwise_singleton _ _, fun doc hdoc last hlast v hboth => ?_⟩
    obtain ⟨hv, id', hid', hequiv⟩ := hboth
    rw [List.mem_singleton.mp hlast] at hid'
    obtain rfl := Option.some.inj (hid.symm.trans hid')
    rw [hnew doc hdoc v hv] at hequiv
    cases hequiv

/-- A call keeps identities unique exactly if the identity that it adds is new. Rewriting leaves no
document an identity that it did not have. -/
theorem Call.unique_run_iff {s : Store} (hnd : s.Distinct) (hs : s.Unique) (call : Call) :
    (call.run s).Unique ↔ call.AddsNew s := by
  have hstep := step_lists hnd call
  unfold Unique AddsNew
  generalize (call.run s).lists = lists at hstep
  generalize call.answer s = answer at hstep
  cases hstep with
  | @insert name fresh doc stored id hstored =>
    rw [unique_update_iff hs, pairwise_concat_iff (hs name) hstored.has_id]
    simp [Answer.added?, Call.collection]
  | @upsert name fresh f u seed doc stored id _ _ hstored =>
    rw [unique_update_iff hs, pairwise_concat_iff (hs name) hstored.has_id]
    simp [Answer.added?, Call.collection]
  | @update name fresh f u upsert l r old new id hlist _ hsame _ =>
    rw [unique_update_iff hs]
    refine iff_of_true ?_ fun id hadded => by cases hadded
    have hold := hs name
    rw [hlist] at hold
    rw [List.pairwise_append, List.pairwise_cons] at hold ⊢
    obtain ⟨hl, ⟨hright, hr⟩, hcross⟩ := hold
    refine ⟨hl, ⟨fun b hb v hboth => ?_, hr⟩, fun a ha b hb v hboth => ?_⟩
    · exact hright b hb v ⟨hboth.1.of_sameIdentity hsame, hboth.2⟩
    · rcases List.mem_cons.mp hb with rfl | hb
      · exact hcross a ha old List.mem_cons_self v ⟨hboth.1, hboth.2.of_sameIdentity hsame⟩
      · exact hcross a ha b (List.mem_cons_of_mem _ hb) v hboth
  | @delete name f l r doc hlist =>
    rw [unique_update_iff hs]
    refine iff_of_true ?_ fun id hadded => by cases hadded
    have hold := hs name
    rw [hlist] at hold
    exact hold.sublist (List.Sublist.append_left (List.sublist_cons_self doc r) l)
  | insert_failed => exact iff_of_true hs fun id hadded => by cases hadded
  | update_failed => exact iff_of_true hs fun id hadded => by cases hadded
  | update_nothing => exact iff_of_true hs fun id hadded => by cases hadded
  | delete_nothing => exact iff_of_true hs fun id hadded => by cases hadded

/-- Identities are unique all along a run exactly if each identity that is added is new. -/
theorem unique_after_iff (calls : List Call) :
    (∀ n, (after (calls.take n)).Unique) ↔
      ∀ n (call : Call), calls[n]? = some call → call.AddsNew (after (calls.take n)) :=
  forall_after_take_iff (fun _ => List.Pairwise.nil)
    (fun _ call hnd hs => call.unique_run_iff hnd hs) calls

/-- A plain identity finds its document, and no other document has an identity in common with it. -/
theorem found_and_apart_of_isPlain (calls : List Call) {name : String} {l r : List Json}
    {doc id : Json} (hlist : (after calls).lists name = l ++ doc :: r)
    (hid : Document.id? doc = some id) (hplain : id.IsPlain) :
    (after calls).findOne name (.byId id) = some doc ∧
      ∀ other ∈ l ++ r, Document.Apart other doc := by
  have hnd := distinct_after calls name
  have hroot := rooted_after calls name
  rw [lists_eq, Collection.documents, List.map_eq_append_iff] at hlist
  obtain ⟨cl, cr, hc, rfl, hcr⟩ := hlist
  obtain ⟨⟨key, doc⟩, cr, rfl, rfl, rfl⟩ := List.map_eq_cons_iff.mp hcr
  have hmem : (key, doc) ∈ (after calls).collection name := by
    rw [hc]
    exact List.mem_append_right cl List.mem_cons_self
  constructor
  · have hkey := hroot.key_eq hplain.1 hplain.2 hmem hid (Json.equiv_refl hplain.1.keysDistinct)
    rw [findOne_eq, (Collection.head?_matching_byId_scalar hnd hmem hid hplain.1).mpr hkey]
    rfl
  · intro other hother v hboth
    rw [← List.map_append, List.mem_map] at hother
    obtain ⟨⟨key', other⟩, hother, rfl⟩ := hother
    have hmem' : (key', other) ∈ (after calls).collection name := by
      rw [hc]
      rcases List.mem_append.mp hother with h | h
      · exact List.mem_append_left _ h
      · exact List.mem_append_right _ (List.mem_cons_of_mem _ h)
    obtain rfl := hroot.key_eq_of_hasId hmem hid hplain hmem' hboth.2 hboth.1
    -- the other document would lie under the same key
    rw [hc] at hnd
    obtain ⟨hl, hr⟩ := Members.not_mem_of_split hnd
    rcases List.mem_append.mp hother with h | h
    · exact hl (Members.mem_keys_of_mem h)
    · exact hr (Members.mem_keys_of_mem h)

/-- **Identities are unique and find their own documents**, as far as keys follow equality. All
along a run, no value is equal to the identities of two documents exactly if each identity that is
added is new. A plain identity is the only one of its kind in any case, whatever else is stored, and
it finds its document. Any other finds its document exactly if that lies under its key, or, for a
container, if no document before it is found. -/
theorem identities_unique_and_found_iff (calls : List Call) :
    ((∀ n, (after (calls.take n)).Unique) ↔
      ∀ n (call : Call), calls[n]? = some call → call.AddsNew (after (calls.take n))) ∧
    (∀ name l doc r id, (after calls).lists name = l ++ doc :: r → Document.id? doc = some id →
      id.IsPlain → (after calls).findOne name (.byId id) = some doc ∧
        ∀ other ∈ l ++ r, Document.Apart other doc) ∧
    ∀ name l key doc r id, (after calls).collection name = l ++ (key, doc) :: r →
      Document.id? doc = some id → id.KeysDistinct →
      ((((after calls).collection name).matching (.byId id)).head? = some (key, doc) ↔
        (id.IsScalar ∧ key = Identity.key id) ∨ (¬ id.IsScalar ∧ ∀ kd ∈ l, ∀ id',
          Document.id? kd.2 = some id' → id'.equalsOrContains id = false)) := by
  refine ⟨unique_after_iff calls, fun name l doc r id hlist hid hplain =>
    found_and_apart_of_isPlain calls hlist hid hplain, ?_⟩
  intro name l key doc r id hc hid hdistinct
  have hnd := distinct_after calls name
  have hroot := rooted_after calls name
  rw [hc] at hnd hroot ⊢
  exact Collection.head?_matching_byId_iff hnd hroot hid hdistinct

/-- An object. -/
def spelling : Json := .obj [("a", .bool true), ("b", .bool false)]

/-- Its members in another order. -/
def otherSpelling : Json := .obj [("b", .bool false), ("a", .bool true)]

/-- Two documents that have the two spellings for their identities. -/
def twins : List Call :=
  [.insert "t" "" (.obj [("_id", spelling)]), .insert "t" "" (.obj [("_id", otherSpelling)])]

/-- Both are stored, although their identities are equal, and the identity of the second one finds
the first. -/
theorem twins_share_identity :
    (after twins).lists "t" = [.obj [("_id", spelling)], .obj [("_id", otherSpelling)]] ∧
      spelling.equiv otherSpelling = true ∧ ¬ (after twins).Unique ∧
      (after twins).findOne "t" (.byId otherSpelling) = some (.obj [("_id", spelling)]) := by
  have hlists : (after twins).lists "t" =
      [.obj [("_id", spelling)], .obj [("_id", otherSpelling)]] := by decide
  refine ⟨hlists, by decide, fun hunique => ?_, by decide⟩
  have hapart := hunique "t"
  rw [hlists] at hapart
  have hid : Document.id? (.obj [("_id", spelling)]) = some spelling := rfl
  have hother : Document.id? (.obj [("_id", otherSpelling)]) = some otherSpelling := rfl
  have hne := (Document.apart_iff hid hother ⟨by decide, trivial, trivial, trivial⟩).mp
    ((List.pairwise_cons.mp hapart).1 _ List.mem_cons_self)
  revert hne
  decide

/-- Of two documents with strings for identities, the second one is found by its own, and has none
in common with the first. -/
theorem single_is_found :
    (after singles).findOne "t" (.byId (.str "b")) = some (.obj [("_id", .str "b")]) ∧
      Document.Apart (.obj [("_id", .str "a")]) (.obj [("_id", .str "b")]) := by
  obtain ⟨hfound, hapart⟩ := (identities_unique_and_found_iff singles).2.1 "t"
    [.obj [("_id", .str "a")]] (.obj [("_id", .str "b")]) [] (.str "b") (by decide) rfl
    ⟨trivial, fun n h => by cases h⟩
  exact ⟨hfound, hapart _ List.mem_cons_self⟩

end Store
end DocWatch
