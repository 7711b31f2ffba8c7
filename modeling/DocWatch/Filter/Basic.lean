import DocWatch.FieldPath
import DocWatch.Json.Basic

/-!
# Filters

A filter selects documents. It keeps the document that it was written as, its *source*, beside the
predicate that it means.

- `Comparison`: the four range operators, each by the orderings that it accepts.
- `Predicate`, `Condition`: what a document, and the values found at one of its paths, must satisfy.
- `Filter`: predicate and source. `Filter.all`, `Filter.byId` and `Filter.live` build filters that
  no one wrote.
-/

namespace DocWatch

/-- A range operator. -/
inductive Comparison where
  | gt | gte | lt | lte
deriving DecidableEq, Repr

/-- Does a value that stands so to the bound lie in the range? -/
def Comparison.accepts : Comparison → Ordering → Bool
  | .gt, o => o == .gt
  | .gte, o => o == .gt || o == .eq
  | .lt, o => o == .lt
  | .lte, o => o == .lt || o == .eq

mutual

/-- What a document must satisfy. -/
inductive Predicate where
  /-- All of the clauses hold. -/
  | all (clauses : List Predicate)
  /-- One of the clauses holds. -/
  | any (clauses : List Predicate)
  /-- None of the clauses holds. -/
  | neither (clauses : List Predicate)
  /-- The values found at a path satisfy all of the conditions. -/
  | field (path : FieldPath) (conditions : List Condition)

/-- What the values found at a path must satisfy. -/
inductive Condition where
  | eq (value : Json)
  | ne (value : Json)
  | range (comparison : Comparison) (bound : Json)
  | oneOf (values : List Json)
  | noneOf (values : List Json)
  /-- There is a value, or there is none. -/
  | present (expected : Bool)
  /-- An array of this length. -/
  | size (length : Nat)
  /-- One value that equals or contains each of these. -/
  | containing (values : List Json)
  /-- An array with an object that satisfies the predicate. -/
  | elementDocument (predicate : Predicate)
  /-- An array with an element that satisfies the conditions. -/
  | elementValue (conditions : List Condition)
  | negated (conditions : List Condition)

end

/-- A predicate and the document that it was written as. -/
structure Filter where
  predicate : Predicate
  source : Json

namespace Filter

/-- The filter that selects every document. -/
def all : Filter := ⟨.all [], .obj []⟩

/-- The filter that selects the documents with an identity. -/
def byId (id : Json) : Filter := ⟨.field ["_id"] [.eq id], .obj [("_id", id)]⟩

/-- The filter restricted to documents that are not marked as deleted. -/
def live (f : Filter) : Filter where
  predicate := .all [f.predicate, .field ["_deleted"] [.present false]]
  source := .obj [("$and", .arr [f.source,
    .obj [("_deleted", .obj [("$exists", .bool false)])]])]

/-- The identity that a filter asks for, if it asks for nothing else and that is no container. -/
def idEquality? (f : Filter) : Option Json :=
  match f.predicate with
  | .field ["_id"] [.eq (.obj _)] => none
  | .field ["_id"] [.eq (.arr _)] => none
  | .field ["_id"] [.eq v] => some v
  | _ => none

end Filter
end DocWatch
