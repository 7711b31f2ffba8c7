import DocWatch.Document
import DocWatch.Error
import DocWatch.Filter.Compile
import DocWatch.Filter.Match

/-!
# Registered queries

A query that was read once stays registered. Its signature is the collection, the method and the
text of the filter, so the order of keys in a filter matters. Identifiers are 1, 2, 3, … in the
order of registration; they are natural numbers, since no run registers the `2 ^ 64` queries after
which a count of 64 bits would come round.

- `Query.admits`: does a snapshot of a document belong to the result of a query?
- `QueryTable.register`: the query of a signature, new or old.
- `QueryTable.ofCollection`: the queries of a collection in the order of their identifiers.
-/

namespace DocWatch

/-- The identifier of a query. -/
abbrev QueryId := Nat

/-- A registered query. -/
structure Query where
  id : QueryId
  collection : String
  method : String
  filter : Filter

namespace Query

/-- What tells queries apart. -/
def signatureOf (collection method : String) (source : Json) : String :=
  collection ++ "." ++ method ++ "." ++ source.text

/-- The signature of a query. -/
def signature (q : Query) : String := signatureOf q.collection q.method q.filter.source

/-- Does a snapshot belong to the result? An absent one and one marked as deleted do not. -/
def admits (q : Query) (snapshot : Option Json) : Bool :=
  match snapshot with
  | none => false
  | some doc => !Document.isDeleted doc && q.filter.selects doc

end Query

/-- The registered queries in the order of their identifiers. -/
structure QueryTable where
  queries : List Query

namespace QueryTable

/-- No query yet. -/
def empty : QueryTable := ⟨[]⟩

/-- The filter that a read without one means. -/
def sourceOf (filter : Json) : Json := if filter.isNull then .obj [] else filter

/-- The query of a signature. -/
def find? (t : QueryTable) (signature : String) : Option Query :=
  t.queries.find? fun q => q.signature == signature

/-- The query of a collection, a method and a filter. It is registered if it is new; a filter that
does not compile changes nothing. -/
def register (collection method : String) (filter : Json) (t : QueryTable) :
    Except Error Query × QueryTable :=
  let source := sourceOf filter
  match t.find? (Query.signatureOf collection method source) with
  | some q => (.ok q, t)
  | none =>
    match Filter.compile source with
    | .error e => (.error (.compilation e), t)
    | .ok f =>
      let q : Query := ⟨t.queries.length + 1, collection, method, f⟩
      (.ok q, ⟨t.queries ++ [q]⟩)

/-- The queries of a collection. -/
def ofCollection (t : QueryTable) (collection : String) : List Query :=
  t.queries.filter fun q => q.collection == collection

/-- The query with an identifier. -/
def get? (t : QueryTable) (id : QueryId) : Option Query := t.queries.find? fun q => q.id == id

/-- How many queries there are. -/
def size (t : QueryTable) : Nat := t.queries.length

/-- The queries of a collection to whose results a document belonged before a write or belongs
after it. -/
def affected (t : QueryTable) (collection : String) (before after : Option Json) : List QueryId :=
  ((t.ofCollection collection).filter fun q => q.admits before || q.admits after).map Query.id

end QueryTable
end DocWatch
