import DocWatch.Document
import DocWatch.Error
import DocWatch.Filter.Match
import DocWatch.Filter.Seed
import DocWatch.Json.Equality
import DocWatch.Update.Apply

/-!
# The document store

A collection keeps its documents in the order in which they were inserted, each under the key of
the identity that it had then. A filter that asks for one scalar identity looks only under its key.

- `Collection.matching`: the documents that a filter selects.
- `Store.find`, `Store.findOne`: reads.
- `Store.insert`, `Store.update`, `Store.delete`: writes. A document without an identity is given a
  fresh one; a write that fails changes no document.
-/

namespace DocWatch

/-- Documents under their keys, in order of insertion. -/
abbrev Collection := Members Json

/-- Collections by name. -/
abbrev Store := Members Collection

/-- Which document an update touched. -/
structure UpdateOutcome where
  /-- The identity of the document that was found. -/
  matched : Option Json
  /-- The identity of the document that was made. -/
  upserted : Option Json
deriving DecidableEq

namespace UpdateOutcome

/-- Nothing was touched. -/
def nothing : UpdateOutcome := ⟨none, none⟩

/-- The identity of the document that was touched. -/
def touched (o : UpdateOutcome) : Option Json := o.matched.or o.upserted

end UpdateOutcome

namespace Document

/-- A document with its key. One without an identity is given the fresh one, in front. -/
def withIdentity (fresh : String) : Json → Except Error (String × Json)
  | .obj fields =>
    match Members.get? fields "_id" with
    | none | some .null =>
      let id : Json := .str fresh
      .ok (Identity.key id, .obj (("_id", id) :: Members.remove fields "_id"))
    | some id => .ok (Identity.key id, .obj fields)
  | v => .error (.invalidPayload (.documentNotObject v.typeName))

/-- Do two versions of a document have the same identity? -/
def sameIdentity (old new : Json) : Bool :=
  match id? old, id? new with
  | some a, some b => a.equiv b
  | _, _ => false

end Document

namespace Collection

/-- The documents that a filter selects, with their keys. -/
def matching (c : Collection) (f : Filter) : Collection :=
  match f.idEquality? with
  | some id =>
    match Members.get? c (Identity.key id) with
    | some doc => if f.selects doc then [(Identity.key id, doc)] else []
    | none => []
  | none => List.filter (fun (_, doc) => f.selects doc) c

/-- The key of the present identity of the first document that a filter selects. -/
def targetKey? (c : Collection) (f : Filter) : Option String :=
  match c.matching f with
  | [] => none
  | (_, doc) :: _ => (Document.id? doc).map Identity.key

/-- Adds a document. -/
def insert (name fresh : String) (doc : Json) (c : Collection) :
    Except Error (Json × Collection) :=
  match Document.withIdentity fresh doc with
  | .error e => .error e
  | .ok (key, doc) =>
    if Members.contains c key then .error (.storage (.duplicateKey key name))
    else .ok ((Document.id? doc).getD .null, Members.insert c key doc)

/-- Updates the document under a key. Its identity has to stay the same. -/
def replace (name key : String) (u : Update) (c : Collection) :
    Except Error (UpdateOutcome × Collection) :=
  match Members.get? c key with
  | none => .ok (.nothing, c)
  | some old =>
    match u.run old with
    | .error e => .error (.invalidUpdate e)
    | .ok new =>
      if Document.sameIdentity old new then
        .ok (⟨Document.id? new, none⟩, Members.insert c key new)
      else .error (.invalidPayload (.identityChanged key name))

/-- Makes the document that a filter asks for, updated. -/
def upsert (name fresh : String) (f : Filter) (u : Update) (c : Collection) :
    Except Error (UpdateOutcome × Collection) :=
  match f.seed with
  | .error e => .error (.invalidUpdate (.access e))
  | .ok seed =>
    match u.run seed with
    | .error e => .error (.invalidUpdate e)
    | .ok doc =>
      match Document.withIdentity fresh doc with
      | .error e => .error e
      | .ok (key, doc) =>
        if Members.contains c key then .error (.storage (.upsertCollision key name))
        else .ok (⟨none, Document.id? doc⟩, Members.insert c key doc)

/-- Updates the first document that a filter selects, or makes one if that is asked for. -/
def update (name fresh : String) (f : Filter) (u : Update) (upsert : Bool) (c : Collection) :
    Except Error (UpdateOutcome × Collection) :=
  match c.targetKey? f with
  | some key => c.replace name key u
  | none => if upsert then c.upsert name fresh f u else .ok (.nothing, c)

/-- Takes out the first document that a filter selects. -/
def delete (f : Filter) (c : Collection) : Option (Json × Collection) := do
  let key ← c.targetKey? f
  let doc ← Members.get? c key
  return (doc, Members.remove c key)

/-- The documents in order. -/
def documents (c : Collection) : List Json := c.map Prod.snd

end Collection

namespace Store

/-- A collection; one that was never written is empty. -/
def collection (s : Store) (name : String) : Collection := (Members.get? s name).getD []

/-- The documents that a filter selects. -/
def find (s : Store) (name : String) (f : Filter) : List Json :=
  ((s.collection name).matching f).documents

/-- The first document that a filter selects. -/
def findOne (s : Store) (name : String) (f : Filter) : Option Json := (s.find name f).head?

/-- Adds a document and answers its identity. -/
def insert (name fresh : String) (doc : Json) (s : Store) : Except Error Json × Store :=
  match (s.collection name).insert name fresh doc with
  | .error e => (.error e, s)
  | .ok (id, c) => (.ok id, Members.insert s name c)

/-- Updates the first document that a filter selects. The collection counts as written even if
nothing is. -/
def update (name fresh : String) (f : Filter) (u : Update) (upsert : Bool) (s : Store) :
    Except Error UpdateOutcome × Store :=
  match (s.collection name).update name fresh f u upsert with
  | .error e => (.error e, Members.insert s name (s.collection name))
  | .ok (outcome, c) => (.ok outcome, Members.insert s name c)

/-- Takes out the first document that a filter selects and answers it. -/
def delete (name : String) (f : Filter) (s : Store) : Option Json × Store :=
  match (s.collection name).delete f with
  | none => (none, s)
  | some (doc, c) => (some doc, Members.insert s name c)

end Store
end DocWatch
