import DocWatch.Proofs.Json.Equality
import DocWatch.Store

/-!
# Identities and the filters that name them

What the store needs to know about identities: what a write may do to the identity of a document,
and which documents `Filter.byId` selects.

- `Json.IsScalar`: the values that are no containers.
- `Document.sameIdentity_iff`: what the identity check of an update accepts.
- `Document.withIdentity_ok`: a document that is about to be stored has an identity, and its key is
  the key of that identity.
- `Filter.byId_selects`: the documents with an identity, or with an array of identities around it.
- `Filter.predicate_of_idEquality?`: what the way through the identity is taken for.
- `Filter.selects_of_live`, `Filter.live_selects`: what a live filter asks for besides.
-/

namespace DocWatch

/-- Is this a value that has no values in it? -/
def Json.IsScalar : Json → Prop
  | .arr _ | .obj _ => False
  | _ => True

theorem Json.str_equalsOrContains_iff (s : String) (v : Json) :
    (Json.str s).equalsOrContains v = true ↔ v = .str s := by
  simp [Json.equalsOrContains, Json.str_equiv_iff]

namespace Document

/-! ## The identity of a document -/

/-- A document with an identity is an object. -/
theorem exists_obj_of_id? {doc id : Json} (h : id? doc = some id) :
    ∃ fields, doc = .obj fields ∧ Members.get? fields "_id" = some id := by
  cases doc with
  | obj fields => exact ⟨fields, rfl, h⟩
  | _ => simp [id?, Json.field?] at h

/-- The identity check of an update asks for two identities that are equal to a query. -/
theorem sameIdentity_iff (old new : Json) :
    sameIdentity old new = true ↔
      ∃ a b, id? old = some a ∧ id? new = some b ∧ a.equiv b = true := by
  unfold sameIdentity
  cases id? old <;> cases id? new <;> simp

/-- An update that passes the identity check cannot make a string of another identity, nor another
identity of a string. -/
theorem id?_eq_str_iff {old new : Json} (h : sameIdentity old new = true) (s : String) :
    id? new = some (.str s) ↔ id? old = some (.str s) := by
  obtain ⟨a, b, ha, hb, heq⟩ := (sameIdentity_iff old new).mp h
  rw [ha, hb, Option.some.injEq, Option.some.injEq]
  constructor
  · intro hs
    rw [hs] at heq
    exact (Json.equiv_str_iff a s).mp heq
  · intro hs
    rw [hs] at heq
    exact (Json.str_equiv_iff s b).mp heq

/-- The document that is stored has an identity other than null, and lies under its key. -/
theorem withIdentity_ok {fresh key : String} {doc stored : Json}
    (h : withIdentity fresh doc = .ok (key, stored)) :
    ∃ id, id? stored = some id ∧ id ≠ .null ∧ key = Identity.key id := by
  unfold withIdentity at h
  cases doc with
  | obj fields =>
    simp only at h
    split at h
    · obtain ⟨rfl, rfl⟩ := Prod.mk.inj (Except.ok.inj h)
      exact ⟨.str fresh, by simp [id?, Json.field?, idField, Members.get?], by simp, rfl⟩
    · obtain ⟨rfl, rfl⟩ := Prod.mk.inj (Except.ok.inj h)
      exact ⟨.str fresh, by simp [id?, Json.field?, idField, Members.get?], by simp, rfl⟩
    · rename_i id hnull hget
      obtain ⟨rfl, rfl⟩ := Prod.mk.inj (Except.ok.inj h)
      exact ⟨id, hget, hnull, rfl⟩
  | _ => simp at h

end Document

namespace Filter

/-! ## Filters that name an identity -/

/-- The values found at a top-level field of a document that has it. -/
theorem reach_field {doc v : Json} {key : String} (h : doc.field? key = some v) :
    Json.reach [key] doc = [v] := by
  cases doc with
  | obj fields =>
    rw [Json.field?] at h
    simp [Json.reach, h]
  | _ => simp [Json.field?] at h

/-- Equality with the identity selects a document by equality of its identity, or by containment in
it. -/
theorem selects_of_predicate {f : Filter} {wanted doc id : Json}
    (hf : f.predicate = .field ["_id"] [.eq wanted]) (h : Document.id? doc = some id) :
    f.selects doc = id.equalsOrContains wanted := by
  have hreach : Json.reach ["_id"] doc = [id] := reach_field h
  simp [selects, hf, Predicate.holds, Condition.allHold, Condition.holds, hreach, Json.anyEquals]

/-- `byId` selects a document by equality of its identity, or by containment in it. -/
theorem byId_selects {doc id : Json} (h : Document.id? doc = some id) (wanted : Json) :
    (byId wanted).selects doc = id.equalsOrContains wanted :=
  selects_of_predicate rfl h

/-- A document with a string for an identity is selected by that string alone. -/
theorem byId_selects_str {doc : Json} {s : String} (h : Document.id? doc = some (.str s))
    (wanted : Json) : (byId wanted).selects doc = true ↔ wanted = .str s := by
  rw [byId_selects h, Json.str_equalsOrContains_iff]

/-- A filter that asks for one identity asks for equality with a value that is no container. -/
theorem predicate_of_idEquality? {f : Filter} {wanted : Json} (h : f.idEquality? = some wanted) :
    f.predicate = .field ["_id"] [.eq wanted] ∧ wanted.IsScalar := by
  unfold idEquality? at h
  split at h
  · cases h
  · cases h
  · rename_i v hobj harr hpredicate
    obtain rfl := Option.some.inj h
    cases v with
    | arr items => exact (harr items rfl).elim
    | obj fields => exact (hobj fields rfl).elim
    | _ => exact ⟨hpredicate, trivial⟩
  · cases h

@[simp] theorem idEquality?_byId_str (s : String) :
    (byId (.str s)).idEquality? = some (.str s) := rfl

/-- A live filter never takes the way through the identity. -/
@[simp] theorem idEquality?_live (f : Filter) : f.live.idEquality? = none := rfl

/-- A live filter selects only documents that are not marked as deleted and that the filter
selects. -/
theorem selects_of_live {f : Filter} {doc : Json} (h : f.live.selects doc = true) :
    Document.isDeleted doc = false ∧ f.selects doc = true := by
  rw [selects, live, Predicate.holds, Predicate.allHold, Predicate.allHold, Predicate.holds,
    Condition.allHold, Bool.and_eq_true, Bool.and_eq_true, Bool.and_eq_true] at h
  obtain ⟨hselects, ⟨hpresent, -⟩, -⟩ := h
  refine ⟨?_, hselects⟩
  unfold Document.isDeleted Document.deletedField
  cases hdeleted : doc.field? "_deleted" with
  | none => rfl
  | some v =>
    rw [reach_field hdeleted] at hpresent
    exact absurd hpresent (by simp [Condition.holds])

/-- Of objects, it selects all of those. -/
theorem live_selects {doc : Json} (h : doc.isObject = true) (f : Filter) :
    f.live.selects doc = (f.selects doc && !Document.isDeleted doc) := by
  cases doc with
  | obj fields =>
    have hreach : Condition.allHold [.present false] (Json.reach ["_deleted"] (.obj fields)) =
        !Document.isDeleted (.obj fields) := by
      rw [Json.reach, Document.isDeleted, Json.field?, Document.deletedField]
      cases Members.get? fields "_deleted" <;> rfl
    rw [selects, live, Predicate.holds, Predicate.allHold, Predicate.allHold, Predicate.allHold,
      Bool.and_true, Predicate.holds, hreach, selects]
  | _ => cases h

end Filter
end DocWatch
