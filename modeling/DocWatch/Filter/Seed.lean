import DocWatch.Filter.Basic
import DocWatch.Json.Access

/-!
# The document that a filter asks for

An upsert that finds nothing starts from a document with the equalities of its filter written into
it, one after another.

- `Filter.seed`: that document, or why two of the equalities cannot both be written.
-/

namespace DocWatch

/-- Writes the equalities among conditions on a path. -/
def Condition.seedAll (path : FieldPath) : List Condition → Json →
    Except Json.AccessError Json
  | [], doc => .ok doc
  | .eq v :: rest, doc => do Condition.seedAll path rest (← doc.write path v)
  | _ :: rest, doc => Condition.seedAll path rest doc

mutual

/-- Writes the equalities that a predicate demands. Alternatives demand nothing. -/
def Predicate.seed : Predicate → Json → Except Json.AccessError Json
  | .all clauses, doc => Predicate.seedAll clauses doc
  | .field path conditions, doc => Condition.seedAll path conditions doc
  | .any _, doc => .ok doc
  | .neither _, doc => .ok doc

/-- Writes the equalities that several predicates demand. -/
def Predicate.seedAll : List Predicate → Json → Except Json.AccessError Json
  | [], doc => .ok doc
  | p :: rest, doc => do Predicate.seedAll rest (← p.seed doc)

end

/-- The document that a filter asks for. -/
def Filter.seed (f : Filter) : Except Json.AccessError Json := f.predicate.seed (.obj [])

end DocWatch
