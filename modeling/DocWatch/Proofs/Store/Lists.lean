import DocWatch.Proofs.Store.Keyed
import DocWatch.Proofs.Store.Shift
import Mathlib.Logic.Function.Basic

/-!
# The store as lists of documents

To a reader, a collection is the list of the documents that are in it. One call of the store changes
at most one of these lists, and in one place only: it adds a document at the end, rewrites one where
it stands, takes one out, or does nothing at all. What it does can be told from its answer.

- `Document.Stored`: what becomes of a document that is added.
- `Store.lists`: what the filter that selects everything finds, collection by collection.
- `Store.ListStep`: what a call with a certain answer does to the lists.
- `Store.step_lists`: every call does that.
-/

namespace DocWatch

namespace Document

/-- A document that is added is stored as it is if it has an identity. Otherwise it is given the
fresh one, and its other members stay. -/
structure Stored (fresh : String) (doc stored id : Json) : Prop where
  has_id : id? stored = some id
  ne_null : id ≠ .null
  kept : (∃ given, id? doc = some given ∧ given ≠ .null) → stored = doc
  given : (id? doc = none ∨ id? doc = some .null) → id = .str fresh
  others : ∀ field, field ≠ idField → stored.field? field = doc.field? field

theorem Stored.isObject {fresh : String} {doc stored id : Json} (h : Stored fresh doc stored id) :
    stored.isObject = true := by
  obtain ⟨fields, rfl, -⟩ := exists_obj_of_id? h.has_id
  rfl

/-- A document that has an identity is stored as it is. -/
theorem stored_self {fresh : String} {doc id : Json} (hid : id? doc = some id) (hne : id ≠ .null) :
    Stored fresh doc doc id where
  has_id := hid
  ne_null := hne
  kept := fun _ => rfl
  given := by
    rw [hid]
    rintro (h | h)
    · cases h
    · exact absurd (Option.some.inj h) hne
  others := fun _ _ => rfl

/-- A document without an identity is given the fresh one. -/
theorem stored_fresh (fresh : String) {fields : Members Json}
    (h : Members.get? fields "_id" = none ∨ Members.get? fields "_id" = some .null) :
    Stored fresh (.obj fields) (.obj (("_id", .str fresh) :: Members.remove fields "_id"))
      (.str fresh) where
  has_id := rfl
  ne_null := Json.noConfusion
  kept := by
    rintro ⟨given, hgiven, hne⟩
    rcases h with h | h
    · exact absurd (hgiven.symm.trans h) (by simp)
    · exact absurd (Option.some.inj (hgiven.symm.trans h)) hne
  given := fun _ => rfl
  others := by
    intro field hne
    rw [Json.field?, Json.field?, Members.get?, if_neg (fun he => hne he.symm),
      Members.get?_remove, if_neg (fun he => hne he.symm)]

theorem stored_of_withIdentity {fresh key : String} {doc stored id : Json}
    (h : withIdentity fresh doc = .ok (key, stored)) (hid : id? stored = some id) :
    Stored fresh doc stored id := by
  obtain ⟨id', hid', hne, -⟩ := withIdentity_ok h
  obtain rfl := Option.some.inj (hid.symm.trans hid')
  cases doc with
  | obj fields =>
    unfold withIdentity at h
    simp only at h
    split at h
    · rename_i hnone
      obtain ⟨-, rfl⟩ := Prod.mk.inj (Except.ok.inj h)
      obtain rfl := Option.some.inj hid
      exact stored_fresh fresh (.inl hnone)
    · rename_i hnull
      obtain ⟨-, rfl⟩ := Prod.mk.inj (Except.ok.inj h)
      obtain rfl := Option.some.inj hid
      exact stored_fresh fresh (.inr hnull)
    · obtain ⟨-, rfl⟩ := Prod.mk.inj (Except.ok.inj h)
      exact stored_self hid hne
  | _ => cases h

end Document

namespace Store

/-! ## Lists and what calls do to them -/

/-- What is found by the filter that selects everything, collection by collection. -/
def lists (s : Store) : String → List Json := fun name => s.find name .all

theorem lists_eq (s : Store) (name : String) : s.lists name = (s.collection name).documents := by
  have hall : ∀ c : Collection, List.filter (fun kd => Filter.all.selects kd.2) c = c := by
    intro c
    refine List.filter_eq_self.mpr fun kd _ => ?_
    simp [Filter.selects, Filter.all, Predicate.holds, Predicate.allHold]
  rw [lists, find, Collection.matching_of_idEquality?_none _ rfl, hall]

/-- What a call answers. -/
inductive Answer where
  | inserted (result : Except Error Json)
  | updated (result : Except Error UpdateOutcome)
  | deleted (doc : Option Json)

/-- The answer of a call. -/
def Call.answer : Call → Store → Answer
  | .insert name fresh doc, s => .inserted (s.insert name fresh doc).1
  | .update name fresh f u upsert, s => .updated (s.update name fresh f u upsert).1
  | .delete name f, s => .deleted (s.delete name f).1

/-- What a call with a certain answer does to the lists. At most one list changes, and no document
of it but one; a call that fails or finds nothing changes none. -/
inductive ListStep (lists : String → List Json) : Call → Answer → (String → List Json) → Prop
  /-- An insertion adds its document at the end. -/
  | insert {name fresh : String} {doc stored id : Json} (h : Document.Stored fresh doc stored id) :
      ListStep lists (.insert name fresh doc) (.inserted (.ok id))
        (Function.update lists name (lists name ++ [stored]))
  /-- An upsert adds the document that its filter asks for, updated, at the end. -/
  | upsert {name fresh : String} {f : Filter} {u : Update} {seed doc stored id : Json}
      (hseed : f.seed = .ok seed) (hrun : u.run seed = .ok doc)
      (h : Document.Stored fresh doc stored id) :
      ListStep lists (.update name fresh f u true) (.updated (.ok ⟨none, some id⟩))
        (Function.update lists name (lists name ++ [stored]))
  /-- An update rewrites one document in its place. -/
  | update {name fresh : String} {f : Filter} {u : Update} {upsert : Bool} {l r : List Json}
      {old new id : Json} (hlist : lists name = l ++ old :: r) (hrun : u.run old = .ok new)
      (hsame : Document.sameIdentity old new = true) (hid : Document.id? new = some id) :
      ListStep lists (.update name fresh f u upsert) (.updated (.ok ⟨some id, none⟩))
        (Function.update lists name (l ++ new :: r))
  /-- A deletion takes out the document that it answers. -/
  | delete {name : String} {f : Filter} {l r : List Json} {doc : Json}
      (hlist : lists name = l ++ doc :: r) :
      ListStep lists (.delete name f) (.deleted (some doc)) (Function.update lists name (l ++ r))
  | insert_failed {name fresh : String} {doc : Json} {e : Error} :
      ListStep lists (.insert name fresh doc) (.inserted (.error e)) lists
  | update_failed {name fresh : String} {f : Filter} {u : Update} {upsert : Bool} {e : Error} :
      ListStep lists (.update name fresh f u upsert) (.updated (.error e)) lists
  | update_nothing {name fresh : String} {f : Filter} {u : Update} {upsert : Bool} :
      ListStep lists (.update name fresh f u upsert) (.updated (.ok .nothing)) lists
  | delete_nothing {name : String} {f : Filter} :
      ListStep lists (.delete name f) (.deleted none) lists

/-- Exchanging one collection exchanges its list. -/
theorem lists_insert (s : Store) (name : String) (c : Collection) :
    lists (Members.insert s name c) = Function.update s.lists name c.documents := by
  funext name'
  rw [lists_eq, collection_insert, Function.update_apply]
  by_cases h : name = name'
  · rw [if_pos h, if_pos h.symm]
  · rw [if_neg h, if_neg (fun he => h he.symm), lists_eq]

/-- A collection that is written back as it was leaves the lists as they were. -/
theorem lists_insert_self (s : Store) (name : String) :
    lists (Members.insert s name (s.collection name)) = s.lists := by
  rw [lists_insert, ← lists_eq, Function.update_eq_self]

/-- A binding at the end is a document at the end. -/
theorem documents_concat (c : Collection) (key : String) (doc : Json) :
    Collection.documents (c ++ [(key, doc)]) = c.documents ++ [doc] :=
  Collection.documents_append c [(key, doc)]

/-- A binding in the middle is a document in the middle. -/
theorem documents_split (l r : Collection) (key : String) (doc : Json) :
    Collection.documents (l ++ (key, doc) :: r) =
      Collection.documents l ++ doc :: Collection.documents r :=
  Collection.documents_append l ((key, doc) :: r)

/-! ## The calls -/

theorem insert_step (s : Store) (name fresh : String) (doc : Json) :
    ListStep s.lists (.insert name fresh doc) (.inserted (s.insert name fresh doc).1)
      (s.insert name fresh doc).2.lists := by
  unfold insert
  cases h : (s.collection name).insert name fresh doc with
  | error e => exact .insert_failed
  | ok r =>
    obtain ⟨id, c⟩ := r
    obtain ⟨key, stored, hw, hid, -, -, -, rfl⟩ := Collection.insert_ok h
    show ListStep s.lists _ _ (lists (Members.insert s name _))
    rw [lists_insert, documents_concat, ← lists_eq]
    exact .insert (Document.stored_of_withIdentity hw hid)

/-- An update of a collection that succeeds. -/
theorem update_step_ok {s : Store} (hnd : s.Distinct) {name fresh : String} {f : Filter}
    {u : Update} {upsert : Bool} {outcome : UpdateOutcome} {c : Collection}
    (h : (s.collection name).update name fresh f u upsert = .ok (outcome, c)) :
    ListStep s.lists (.update name fresh f u upsert) (.updated (.ok outcome))
      (Function.update s.lists name c.documents) := by
  have hnothing : ListStep s.lists (.update name fresh f u upsert) (.updated (.ok .nothing))
      (Function.update s.lists name (s.collection name).documents) := by
    rw [← lists_eq, Function.update_eq_self]
    exact .update_nothing
  unfold Collection.update at h
  cases htarget : (s.collection name).targetKey? f with
  | some key =>
    rw [htarget] at h
    obtain ⟨rfl, rfl⟩ | ⟨l, r, old, new, id, hc, hrun, hsame, hid, rfl, rfl⟩ :=
      Collection.replace_ok (hnd name) h
    · exact hnothing
    · rw [documents_split]
      refine .update ?_ hrun hsame hid
      rw [lists_eq, hc, documents_split]
  | none =>
    rw [htarget] at h
    cases upsert with
    | false =>
      obtain ⟨rfl, rfl⟩ := Prod.mk.inj (Except.ok.inj h)
      exact hnothing
    | true =>
      obtain ⟨seed, doc, key, stored, id, hseed, hrun, hw, hid, -, -, -, rfl, rfl⟩ :=
        Collection.upsert_ok h
      rw [documents_concat, ← lists_eq]
      exact .upsert hseed hrun (Document.stored_of_withIdentity hw hid)

theorem update_step {s : Store} (hnd : s.Distinct) (name fresh : String) (f : Filter)
    (u : Update) (upsert : Bool) :
    ListStep s.lists (.update name fresh f u upsert)
      (.updated (s.update name fresh f u upsert).1) (s.update name fresh f u upsert).2.lists := by
  unfold update
  cases h : (s.collection name).update name fresh f u upsert with
  | error e =>
    show ListStep s.lists _ _ (lists (Members.insert s name _))
    rw [lists_insert_self]
    exact .update_failed
  | ok r =>
    obtain ⟨outcome, c⟩ := r
    show ListStep s.lists _ _ (lists (Members.insert s name c))
    rw [lists_insert]
    exact update_step_ok hnd h

theorem delete_step {s : Store} (hnd : s.Distinct) (name : String) (f : Filter) :
    ListStep s.lists (.delete name f) (.deleted (s.delete name f).1) (s.delete name f).2.lists := by
  unfold delete
  cases h : (s.collection name).delete f with
  | none => exact .delete_nothing
  | some r =>
    obtain ⟨doc, c⟩ := r
    obtain ⟨l, r, key, hc, rfl⟩ := Collection.delete_ok (hnd name) h
    show ListStep s.lists _ _ (lists (Members.insert s name _))
    rw [lists_insert, Collection.documents_append]
    refine .delete ?_
    rw [lists_eq, hc, documents_split]

/-- Every call does to the lists what its answer tells. -/
theorem step_lists {s : Store} (hnd : s.Distinct) (call : Call) :
    ListStep s.lists call (call.answer s) (call.run s).lists := by
  cases call with
  | insert name fresh doc => exact insert_step s name fresh doc
  | update name fresh f u upsert => exact update_step hnd name fresh f u upsert
  | delete name f => exact delete_step hnd name f

end Store
end DocWatch
