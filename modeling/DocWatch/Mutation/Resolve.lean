import DocWatch.Error
import DocWatch.Document

/-!
# Resolving references

Each reference becomes the position of the first array element with that identity. Only references
can fail: a key or a position that leads nowhere is kept as it is.

- `MutationPath.resolve`: the resolved path.
-/

namespace DocWatch.MutationPath

/-- The value under a key, or in the slot that a key spells. -/
def childByKey? (v : Json) (key : String) : Option Json :=
  match v with
  | .obj fields => Members.get? fields key
  | .arr items => (FieldPath.signedIndex? key).bind fun i => items[i]?
  | _ => none

/-- The first element that a reference names, with its position. -/
def findRef? (id : String) : List Json → Option (Nat × Json)
  | [] => none
  | v :: rest =>
    if Document.answersTo v id then some (0, v)
    else (findRef? id rest).map fun (i, w) => (i + 1, w)

/-- Resolves the steps from a place in a document, or from nowhere. -/
def resolveFrom (asked : MutationPath) (current : Option Json) :
    MutationPath → Except Error MutationPath
  | [] => .ok []
  | .ref id :: rest =>
    match (current.bind Json.items?).bind (findRef? id) with
    | none => .error (.pathResolution asked)
    | some (i, element) => (.index i :: ·) <$> resolveFrom asked (some element) rest
  | .literal key :: rest =>
    (.literal key :: ·) <$> resolveFrom asked (current.bind (childByKey? · key)) rest
  | .index i :: rest =>
    (.index i :: ·) <$> resolveFrom asked ((current.bind Json.items?).bind (·[i]?)) rest

/-- The path with its references replaced by positions in a document. -/
def resolve (doc : Option Json) (path : MutationPath) : Except Error MutationPath :=
  if path.hasRefs then resolveFrom path doc path else .ok path

end DocWatch.MutationPath
