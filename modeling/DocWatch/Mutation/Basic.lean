import DocWatch.Error

/-!
# Mutations and payloads

- `Mutation`: one edit of one document, as a client asks for it.
- `Payload`: edits of one document in order. A record that could not be read is kept; it fails when
  its turn comes, after the records before it.
-/

namespace DocWatch

/-- One edit. -/
inductive Mutation where
  /-- Writes a value. The document is made if there is none. -/
  | set (path : MutationPath) (value : Json)
  /-- Removes a field. -/
  | unset (path : MutationPath)
  /-- Removes the elements with an identity, or the element at a position. -/
  | remove (path : MutationPath) (key : Option String) (index : Option Nat)
  /-- Inserts an element into an array. -/
  | insert (path : MutationPath) (index : Option Nat) (element : Json)
  /-- Adds a new document. -/
  | create (document : Json)
  /-- Marks the document as deleted. -/
  | delete
deriving DecidableEq

namespace Mutation

/-- The wire name of an edit. -/
def kind : Mutation → String
  | .set .. => "set"
  | .unset _ => "unset"
  | .remove .. => "remove"
  | .insert .. => "insert"
  | .create _ => "create"
  | .delete => "delete"

/-- The path of an edit that has one. -/
def path? : Mutation → Option MutationPath
  | .set path _ | .unset path | .remove path _ _ | .insert path _ _ => some path
  | .create _ | .delete => none

/-- Name and path. -/
def text (m : Mutation) : String :=
  match m.path? with
  | none => m.kind
  | some path => m.kind ++ " " ++ path.text

/-- A member that is left out when there is no value. -/
def member (key : String) : Option Json → Members Json
  | none => []
  | some v => [(key, v)]

/-- The wire form. -/
def toJson (m : Mutation) : Json :=
  .obj <| ("type", .str m.kind) ::
    match m with
    | .set path value => [("path", path.toJson), ("value", value)]
    | .unset path => [("path", path.toJson)]
    | .remove path key index =>
      ("path", path.toJson) :: member "key" (key.map .str) ++ member "index" (index.map .nat)
    | .insert path index element =>
      ("path", path.toJson) :: member "index" (index.map .nat) ++ [("el", element)]
    | .create document => [("document", document)]
    | .delete => []

end Mutation

/-- Edits of one document. -/
structure Payload where
  collection : String
  id : Json
  mutations : List Mutation
  /-- The record after the edits, if it could not be read. -/
  rejected : Option Json
deriving DecidableEq

namespace Payload

/-- The records, the one that could not be read included. -/
def size (p : Payload) : Nat := p.mutations.length + if p.rejected.isSome then 1 else 0

/-- The wire form. -/
def toJson (p : Payload) : Json :=
  .obj [("collection", .str p.collection), ("_id", p.id),
    ("mutations", .arr (p.mutations.map Mutation.toJson ++ p.rejected.toList))]

end Payload
end DocWatch
