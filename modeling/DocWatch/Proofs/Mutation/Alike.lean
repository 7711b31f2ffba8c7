import DocWatch.Proofs.Identity
import DocWatch.Proofs.Json.Alike
import DocWatch.Proofs.Mutation.Resolve

/-!
# References in alike documents

A key and a position lead to alike values in alike documents. A reference names an element by the
text of its identity, though, and alike identities may have different texts: a number that is
spelled in another way, or an object with its members in another order. Two alike documents resolve
references alike, then, exactly if in each array that a path leads to, the same element is the first
to be named.

- `MutationPath.follow?`: where a path without references leads.
- `MutationPath.Coupled`: two places that are alike and in which the same elements are named.
- `MutationPath.resolveFrom_of_coupled`: a path is resolved alike from two such places.
- `MutationPath.resolve_alike_iff`: when alike documents resolve references alike.
-/

namespace DocWatch

namespace MutationPath

open Json (Alike)

variable {current current' : Option Json}

/-! ## Places that a path leads to -/

/-- Where a path without references leads from a place. -/
def follow? (current : Option Json) (place : MutationPath) : Option Json :=
  place.foldl followed? current

theorem follow?_cons (current : Option Json) (segment : Segment) (rest : MutationPath) :
    follow? current (segment :: rest) = follow? (followed? current segment) rest := rfl

theorem followed?_none (segment : Segment) : followed? none segment = none := by
  cases segment <;> rfl

theorem follow?_none (place : MutationPath) : follow? none place = none := by
  induction place with
  | nil => rfl
  | cons segment rest ih => rw [follow?_cons, followed?_none, ih]

/-- A step that does not stay leads nowhere if it is a reference. -/
theorem isRef_of_followed? {segment : Segment} {w : Json}
    (h : followed? current segment = some w) : segment.isRef = false := by
  cases segment with
  | ref id => cases h
  | _ => rfl

/-- A path that leads somewhere has a first step that does. -/
theorem exists_of_follow?_cons {segment : Segment} {rest : MutationPath} {w : Json}
    (h : follow? current (segment :: rest) = some w) :
    ∃ v, followed? current segment = some v ∧ follow? (some v) rest = some w := by
  rw [follow?_cons] at h
  cases hnext : followed? current segment with
  | none =>
    rw [hnext, follow?_none] at h
    cases h
  | some v => exact ⟨v, rfl, hnext ▸ h⟩

/-- A path that leads somewhere has no references. -/
theorem isRef_of_follow? {place : MutationPath} {w : Json} (h : follow? current place = some w) :
    ∀ segment ∈ place, segment.isRef = false := by
  induction place generalizing current with
  | nil => exact fun segment hmem => absurd hmem List.not_mem_nil
  | cons segment rest ih =>
    obtain ⟨v, hnext, hrest⟩ := exists_of_follow?_cons h
    exact List.forall_mem_cons.mpr ⟨isRef_of_followed? hnext, ih hrest⟩

/-- A key or a position is resolved to itself. -/
theorem addressesFirst_of_not_isRef (current : Option Json) {segment : Segment}
    (h : segment.isRef = false) (first : Segment) :
    AddressesFirst current segment first ↔ first = segment := by
  cases segment with
  | ref id => cases h
  | _ => exact Iff.rfl

/-- A reference at the end of a path that leads to an array is resolved to the position of the first
element that it names. -/
theorem resolveFrom_follow_ok_iff (whole : MutationPath) {place : MutationPath}
    {items : List Json} (h : follow? current place = some (.arr items)) (id : String) (j : Nat) :
    resolveFrom whole current (place ++ [.ref id]) = .ok (place ++ [.index j]) ↔
      FirstNamed id items j := by
  induction place generalizing current with
  | nil =>
    obtain rfl : current = some (.arr items) := h
    rw [List.nil_append, List.nil_append, resolveFrom_cons_ok_iff]
    constructor
    · rintro ⟨_, _, ⟨⟩, ⟨items', j', hitems, hj, hnamed⟩, -⟩
      obtain rfl := Json.arr.inj (Option.some.inj hitems)
      obtain rfl := Segment.index.inj hj
      exact hnamed
    · intro hnamed
      exact ⟨_, _, rfl, ⟨items, j, rfl, rfl, hnamed⟩, rfl⟩
  | cons segment rest ih =>
    obtain ⟨v, hnext, hrest⟩ := exists_of_follow?_cons h
    have hkept := addressesFirst_of_not_isRef current (isRef_of_followed? hnext) segment
    rw [List.cons_append, List.cons_append, resolveFrom_cons_ok_iff, ← ih (hnext ▸ hrest)]
    constructor
    · rintro ⟨_, _, ⟨⟩, -, hmore⟩
      exact hmore
    · exact fun hmore => ⟨_, _, rfl, hkept.mpr rfl, hmore⟩

/-! ## Two places -/

theorem childByKey?_alike {v w : Json} (h : Alike v w) (key : String) :
    Option.Rel Alike (childByKey? v key) (childByKey? w key) := by
  cases h.form with
  | obj _ _ found => exact found key
  | arr items =>
    simp only [childByKey?]
    cases FieldPath.signedIndex? key with
    | none => exact .none
    | some i => exact Json.getElem?_rel items i
  | _ => exact .none

/-- A step leads to alike values. -/
theorem followed?_alike (h : Option.Rel Alike current current') (segment : Segment) :
    Option.Rel Alike (followed? current segment) (followed? current' segment) := by
  cases h with
  | none =>
    rw [followed?_none]
    exact .none
  | @some v w hvw =>
    cases segment with
    | ref id => exact .none
    | literal key => exact childByKey?_alike hvw key
    | index i =>
      cases hvw.form with
      | arr items => exact Json.getElem?_rel items i
      | _ => exact .none

/-- Two places are alike, and in two arrays that a path leads to from there, each of these texts
names the same element first. -/
structure Coupled (ids : Set String) (current current' : Option Json) : Prop where
  alike : Option.Rel Alike current current'
  named : ∀ place items items', follow? current place = some (.arr items) →
    follow? current' place = some (.arr items') →
    ∀ id ∈ ids, ∀ j, FirstNamed id items j ↔ FirstNamed id items' j

namespace Coupled

variable {ids : Set String}

theorem symm (h : Coupled ids current current') : Coupled ids current' current where
  alike := by
    cases h.alike with
    | some hvw => exact .some hvw.symm
    | none => exact .none
  named place items items' hitems hitems' id hid j :=
    (h.named place items' items hitems' hitems id hid j).symm

/-- A step leads to two such places. -/
theorem followed? (h : Coupled ids current current') (segment : Segment) :
    Coupled ids (followed? current segment) (MutationPath.followed? current' segment) where
  alike := followed?_alike h.alike segment
  named place := h.named (segment :: place)

/-- The first step of a path is resolved alike. -/
theorem addressesFirst (h : Coupled ids current current') {segment first : Segment}
    (hids : ∀ id, segment = .ref id → id ∈ ids) (hfirst : AddressesFirst current segment first) :
    AddressesFirst current' segment first := by
  cases segment with
  | literal key => exact hfirst
  | index i => exact hfirst
  | ref id =>
    obtain ⟨items, j, rfl, rfl, hnamed⟩ := hfirst
    obtain ⟨w, rfl, hvw⟩ := Json.exists_right_of_rel h.alike rfl
    cases hvw.form with
    | @arr _ items' _ =>
      exact ⟨items', j, rfl, rfl, (h.named [] items items' rfl rfl id (hids id rfl) j).mp hnamed⟩

end Coupled

/-- A path is resolved alike from two such places, by induction on the path. -/
theorem resolveFrom_of_coupled {ids : Set String} {whole path resolved : MutationPath}
    (h : Coupled ids current current') (hids : ∀ id, .ref id ∈ path → id ∈ ids)
    (hok : resolveFrom whole current path = .ok resolved) :
    resolveFrom whole current' path = .ok resolved := by
  induction path generalizing current current' resolved with
  | nil => exact hok
  | cons segment rest ih =>
    obtain ⟨first, more, rfl, hfirst, hmore⟩ := (resolveFrom_cons_ok_iff ..).mp hok
    refine (resolveFrom_cons_ok_iff ..).mpr ⟨first, more, rfl, ?_, ?_⟩
    · exact h.addressesFirst (fun id he => hids id (he ▸ List.mem_cons_self)) hfirst
    · exact ih (h.followed? first) (fun id hid => hids id (List.mem_cons_of_mem _ hid)) hmore

/-! ## Identities that have one spelling -/

/-- An identity that can be spelled in one way only: a text, a truth value or null. -/
def SpelledOnce (id : Json) : Prop := id = .null ∨ (∃ b, id = .bool b) ∨ ∃ s, id = .str s

theorem eq_of_spelledOnce {id id' : Json} (h : Alike id id') (hid : SpelledOnce id) : id' = id := by
  rcases hid with rfl | ⟨b, rfl⟩ | ⟨s, rfl⟩ <;> cases h.form <;> rfl

/-- The identities of alike values are alike. -/
theorem id?_alike {v w : Json} (h : Alike v w) :
    Option.Rel Alike (Document.id? v) (Document.id? w) := by
  cases h.form with
  | obj _ _ found => exact found Document.idField
  | _ => exact .none

/-- Alike elements answer to the same texts if their identities have one spelling. -/
theorem answersTo_eq_of_spelledOnce {v w : Json} (h : Alike v w)
    (hid : ∀ id, Document.id? v = some id → SpelledOnce id) (reference : String) :
    Document.answersTo v reference = Document.answersTo w reference := by
  unfold Document.answersTo
  rcases Json.rel_cases (id?_alike h) with ⟨hv, hw⟩ | ⟨id, id', hv, hw, halike⟩
  · rw [hv, hw]
  · rw [hv, hw, eq_of_spelledOnce halike (hid id hv)]

/-- The same element is named first in two arrays whose elements answer alike. -/
theorem firstNamed_congr {id : String} {items items' : List Json}
    (h : List.Forall₂ (fun v w => Document.answersTo v id = Document.answersTo w id) items items')
    (j : Nat) : FirstNamed id items j ↔ FirstNamed id items' j := by
  unfold FirstNamed
  refine and_congr ?_ (forall₂_congr fun k _ => ?_)
  · rcases Json.rel_cases (Json.getElem?_rel h j) with ⟨hv, hw⟩ | ⟨v, w, hv, hw, hvw⟩
    · simp [hv, hw]
    · simp [hv, hw, hvw]
  · rcases Json.rel_cases (Json.getElem?_rel h k) with ⟨hv, hw⟩ | ⟨v, w, hv, hw, hvw⟩
    · simp [hv, hw]
    · simp [hv, hw, hvw]

/-! ## Alike documents -/

/-- Resolution fails in one way only, so that it is determined by what it succeeds with. -/
theorem resolve_eq_iff (doc doc' : Option Json) (path : MutationPath) :
    resolve doc path = resolve doc' path ↔
      ∀ resolved, resolve doc path = .ok resolved ↔ resolve doc' path = .ok resolved := by
  constructor
  · intro h resolved
    rw [h]
  · intro h
    cases hdoc : resolve doc path with
    | ok resolved => exact ((h resolved).mp hdoc).symm
    | error e =>
      cases hdoc' : resolve doc' path with
      | ok resolved => rw [(h resolved).mpr hdoc'] at hdoc; cases hdoc
      | error e' =>
        rw [resolve_eq_resolveFrom] at hdoc hdoc'
        rw [resolveFrom_error hdoc, resolveFrom_error hdoc']

/-- The places of two alike values are alike. -/
theorem follow?_alike (h : Option.Rel Alike current current') (place : MutationPath) :
    Option.Rel Alike (follow? current place) (follow? current' place) := by
  induction place generalizing current current' with
  | nil => exact h
  | cons segment rest ih => exact ih (followed?_alike h segment)

/-- Two places are coupled for all texts if identities below the first have one spelling. -/
theorem coupled_of_spelledOnce (h : Option.Rel Alike current current')
    (hids : ∀ place items, follow? current place = some (.arr items) → ∀ v ∈ items, ∀ id,
      Document.id? v = some id → SpelledOnce id) : Coupled Set.univ current current' where
  alike := h
  named place items items' hitems hitems' id _ j := by
    have halike := follow?_alike h place
    rw [hitems, hitems'] at halike
    obtain ⟨_, ⟨⟩, halike⟩ := Json.exists_right_of_rel halike rfl
    have hspelled : List.Forall₂
        (fun v w => (∀ id, Document.id? v = some id → SpelledOnce id) ∧ Alike v w) items items' :=
      (List.forall₂_and_left _ _).mpr ⟨hids place items hitems, (Json.alike_arr_iff ..).mp halike⟩
    exact firstNamed_congr
      (hspelled.imp fun v w hvw => answersTo_eq_of_spelledOnce hvw.2 hvw.1 id) j

/-- **References and equal documents.** Let two documents be equal, as documents are compared by
their store. All paths with references of a set of texts are resolved alike in both exactly if in
each two arrays that a path leads to, each of these texts is answered by the same element first. So
it is for all paths if the identities in these arrays are texts, truth values or null. -/
theorem resolve_alike_iff {doc doc' : Json} (hdoc : doc.KeysDistinct) (hdoc' : doc'.KeysDistinct)
    (h : doc.equiv doc' = true) :
    (∀ ids : Set String,
      (∀ path, (∀ id, .ref id ∈ path → id ∈ ids) →
        resolve (some doc) path = resolve (some doc') path) ↔
      ∀ place items items', follow? (some doc) place = some (.arr items) →
        follow? (some doc') place = some (.arr items') →
        ∀ id ∈ ids, ∀ j, FirstNamed id items j ↔ FirstNamed id items' j) ∧
    ((∀ place items, follow? (some doc) place = some (.arr items) → ∀ v ∈ items, ∀ id,
        Document.id? v = some id → SpelledOnce id) →
      ∀ path, resolve (some doc) path = resolve (some doc') path) := by
  have halike : Option.Rel Alike (some doc) (some doc') := .some ⟨hdoc, hdoc', h⟩
  -- coupled places resolve alike, since each of them resolves what the other does
  have hresolve : ∀ ids : Set String, Coupled ids (some doc) (some doc') →
      ∀ path, (∀ id, .ref id ∈ path → id ∈ ids) →
        resolve (some doc) path = resolve (some doc') path := by
    intro ids hcoupled path hids
    refine (resolve_eq_iff ..).mpr fun resolved => ?_
    rw [resolve_eq_resolveFrom, resolve_eq_resolveFrom]
    exact ⟨resolveFrom_of_coupled hcoupled hids, resolveFrom_of_coupled hcoupled.symm hids⟩
  refine ⟨fun ids => ⟨fun hall place items items' hitems hitems' id hid j => ?_,
    fun hnamed => hresolve ids ⟨halike, hnamed⟩⟩, fun hspelled path => ?_⟩
  · -- the reference behind the path to the arrays
    have hids : ∀ id', .ref id' ∈ place ++ [.ref id] → id' ∈ ids := by
      intro id' hmem
      rcases List.mem_append.mp hmem with hmem | hmem
      · cases isRef_of_follow? hitems _ hmem
      · rw [Segment.ref.inj (List.mem_singleton.mp hmem)]
        exact hid
    have hok := (resolve_eq_iff ..).mp (hall _ hids) (place ++ [.index j])
    rw [resolve_eq_resolveFrom, resolve_eq_resolveFrom] at hok
    rw [← resolveFrom_follow_ok_iff _ hitems, ← resolveFrom_follow_ok_iff _ hitems']
    exact hok
  · exact hresolve Set.univ (coupled_of_spelledOnce halike hspelled) path fun _ _ => trivial

/-! ### Numbers with two spellings -/

/-- Two elements, the second of which has a number for identity. -/
def rowsOf (n : Number) : Json :=
  .obj [("rows", .arr [.obj [("_id", .str "x")], .obj [("_id", .num n)]])]

/-- Seven as an integer. -/
def seven : Number := .ofNat 7

/-- Seven as a double. -/
def sevenAsDouble : Number := .double (Double.ofInt 7)

theorem eq_of_followed?_single {key : String} {v w : Json} {segment : Segment}
    (h : followed? (some (.obj [(key, v)])) segment = some w) : w = v := by
  cases segment with
  | literal key' =>
    have hget : Members.get? [(key, v)] key' = some w := h
    rw [Members.get?] at hget
    split at hget
    · exact (Option.some.inj hget).symm
    · cases hget
  | _ => cases h

theorem mem_of_followed?_arr {items : List Json} {w : Json} {segment : Segment}
    (h : followed? (some (.arr items)) segment = some w) : w ∈ items := by
  cases segment with
  | literal key =>
    obtain ⟨i, -, hitem⟩ := Option.bind_eq_some_iff.mp h
    exact List.mem_of_getElem? hitem
  | index i => exact List.mem_of_getElem? h
  | ref id => cases h

theorem followed?_scalar {v : Json} (h : v.IsScalar) (segment : Segment) :
    followed? (some v) segment = none := by
  cases v with
  | arr items => cases h
  | obj fields => cases h
  | _ => cases segment <;> rfl

/-- An object of one scalar leads to no array. -/
theorem follow?_single_ne_arr {v : Json} (hv : v.IsScalar) (key : String) (place : MutationPath)
    (items : List Json) : follow? (some (.obj [(key, v)])) place ≠ some (.arr items) := by
  intro h
  cases place with
  | nil => cases h
  | cons segment rest =>
    obtain ⟨w, hnext, hrest⟩ := exists_of_follow?_cons h
    obtain rfl := eq_of_followed?_single hnext
    cases rest with
    | nil =>
      obtain rfl := Option.some.inj hrest
      exact hv
    | cons segment' rest' =>
      obtain ⟨w', hnext', -⟩ := exists_of_follow?_cons hrest
      rw [followed?_scalar hv] at hnext'
      cases hnext'

/-- There is one array only. -/
theorem items_of_follow?_rowsOf {n : Number} {place : MutationPath} {items : List Json}
    (h : follow? (some (rowsOf n)) place = some (.arr items)) :
    items = [.obj [("_id", .str "x")], .obj [("_id", .num n)]] := by
  cases place with
  | nil => cases h
  | cons segment rest =>
    obtain ⟨v, hnext, hrest⟩ := exists_of_follow?_cons h
    obtain rfl := eq_of_followed?_single hnext
    cases rest with
    | nil => exact (Json.arr.inj (Option.some.inj hrest)).symm
    | cons segment' rest' =>
      obtain ⟨w, hnext', hrest'⟩ := exists_of_follow?_cons hrest
      rcases List.mem_pair.mp (mem_of_followed?_arr hnext') with rfl | rfl <;>
        exact (follow?_single_ne_arr (by trivial) _ _ _ hrest').elim

/-- The element whose identity is a text is found in both. -/
theorem resolve_alike_rows :
    (rowsOf seven).KeysDistinct ∧ (rowsOf sevenAsDouble).KeysDistinct ∧
      (rowsOf seven).equiv (rowsOf sevenAsDouble) = true ∧
      ∀ path, (∀ id, .ref id ∈ path → id ∈ ({"x"} : Set String)) →
        resolve (some (rowsOf seven)) path = resolve (some (rowsOf sevenAsDouble)) path := by
  have hdistinct : ∀ n, (rowsOf n).KeysDistinct := by
    simp [rowsOf, Json.KeysDistinct, Json.KeysDistinctFields, Json.KeysDistinctItems]
  have hequiv : (rowsOf seven).equiv (rowsOf sevenAsDouble) = true := by decide +kernel
  refine ⟨hdistinct _, hdistinct _, hequiv,
    ((resolve_alike_iff (hdistinct _) (hdistinct _) hequiv).1 {"x"}).mpr ?_⟩
  rintro place items items' hitems hitems' _ rfl j
  rw [items_of_follow?_rowsOf hitems, items_of_follow?_rowsOf hitems']
  exact firstNamed_congr (.cons rfl (.cons (by decide +kernel) .nil)) j

/-- The other one is found by `7`, unless it is spelled as a double. -/
theorem resolve_misses_respelled :
    (rowsOf seven).equiv (rowsOf sevenAsDouble) = true ∧
      resolve (some (rowsOf seven)) [.literal "rows", .ref "7"] =
        .ok [.literal "rows", .index 1] ∧
      resolve (some (rowsOf sevenAsDouble)) [.literal "rows", .ref "7"] =
        .error (.pathResolution [.literal "rows", .ref "7"]) := by
  refine ⟨?_, ?_, ?_⟩
  · decide +kernel
  · decide +kernel
  · decide +kernel

end MutationPath
end DocWatch
