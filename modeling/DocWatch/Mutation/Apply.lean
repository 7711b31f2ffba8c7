import DocWatch.Action
import DocWatch.Mutation.Resolve
import DocWatch.Mutation.Wire
import DocWatch.Json.Access
import DocWatch.Filter.Compile
import DocWatch.Stamp

/-!
# Applying mutations

Each record looks at the document anew, so it sees what the records before it did. Between the look
and the write another client may change the document; the record then lands on whatever is at the
resolved place.

- `Writer`: what applying a record needs of the collection.
- `Mutation.apply`: one record.
- `Payload.apply`: the records of a payload in order, up to the first that fails.
-/

namespace DocWatch

/-- Access to the collection of a document, on a state. -/
structure Writer (σ : Type) where
  /-- The document with an identity. -/
  find : Json → Action σ (Option Json)
  update : Filter → Update → Bool → Action σ Unit
  insert : Json → Action σ Json
  /-- An identity that was never used. -/
  freshIdentity : Action σ String
  now : Action σ Timestamp

namespace MutationPath

/-- The path into the document. It may not be the whole document. -/
def target (resolved asked : MutationPath) : Except Error FieldPath :=
  match resolved.fieldPath? with
  | none => .error (.pathResolution asked)
  | some [] => .error (.invalidPayload (.wholeDocument asked))
  | some path => .ok path

/-- A path that ends in a position, as the path of the array and that position. -/
def splitIndex (path : MutationPath) : MutationPath × Option Nat :=
  match path.getLast? with
  | some (.index i) => (path.dropLast, some i)
  | _ => (path, none)

end MutationPath

namespace Document

/-- The array at a path of a document that may be missing. -/
def arrayAt? (doc : Option Json) (path : FieldPath) : Option (List Json) :=
  (doc.bind (·.get? path)).bind Json.items?

end Document

namespace Mutation

/-- The array and the position that a removal without a key names. -/
def removalPlace (resolved : MutationPath) : Option Nat → Except Error (MutationPath × Nat)
  | some i => .ok (resolved, i)
  | none =>
    match resolved.splitIndex with
    | (array, some i) => .ok (array, i)
    | (_, none) => .error (.invalidPayload (.positionRequired resolved))

/-- Slot and array of a removal by position, which has to lie in an array of the document. -/
def removalTarget (doc : Option Json) (resolved : MutationPath) (index : Option Nat) :
    Except Error (FieldPath × FieldPath) := do
  let (array, position) ← removalPlace resolved index
  let slot ← MutationPath.target (array ++ [.index position]) resolved
  let array ← array.target resolved
  match Document.arrayAt? doc array with
  | none => throw (.invalidPayload (.notInArray resolved))
  | some items =>
    if position < items.length then return (slot, array)
    else throw (.invalidPayload (.positionOutOfRange position array items.length))

/-- Array and selector of a removal by key. The elements are selected by the stored identity of the
first that the key names, so that a key names numbers too. -/
def keyedSelector (doc : Option Json) (array : FieldPath) (key : String) :
    Except Error Selector :=
  let named := ((Document.arrayAt? doc array).getD []).find? (Document.answersTo · key)
  let id := (named.bind Document.id?).getD (.str key)
  match Filter.compile (.obj [("_id", id)]) with
  | .ok f => .ok (.document f)
  | .error e => .error (.compilation e)

/-- Array and position of an insertion. -/
def insertionTarget (resolved asked : MutationPath) (index : Option Nat) :
    Except Error (FieldPath × Option Nat) := do
  let (array, position) := match index with
    | some i => (resolved, some i)
    | none => resolved.splitIndex
  return (← array.target asked, position)

variable {σ : Type}

/-- The path of a write, resolved against the present document if it has references. -/
def resolveTarget (w : Writer σ) (id : Json) (path : MutationPath) : Action σ FieldPath := do
  let resolved ←
    if path.hasRefs then do Action.lift (path.resolve (← w.find id))
    else pure path
  Action.lift (resolved.target path)

/-- An edit mark of the present time. -/
def mark (w : Writer σ) (user : Option String) : Action σ Json := do
  return EditMark.toJson ⟨← w.now, user⟩

/-- Removal by position, in two writes: a fresh mark goes into the slot, and then all elements
equal to it go. So no other element is removed if the array changes in between. -/
def removeAt (w : Writer σ) (id : Json) (slot array : FieldPath) : Action σ Unit := do
  let sentinel : Json := .str (← w.freshIdentity)
  w.update (Filter.byId id) [.set slot sentinel] false
  w.update (Filter.byId id) [.pull array (.equals sentinel)] false

/-- Applies a record to the document with an identity. -/
def apply (w : Writer σ) (user : Option String) (id : Json) : Mutation → Action σ Unit
  | .set path value => do
    let field ← resolveTarget w id path
    w.update (Filter.byId id) [.set field value] true
  | .unset path => do
    let field ← resolveTarget w id path
    w.update (Filter.byId id) [.unset field] true
  | .remove path key index => do
    let doc ← w.find id
    let resolved ← Action.lift (path.resolve doc)
    match key with
    | some key => do
      let array ← Action.lift (resolved.target resolved)
      let selector ← Action.lift (keyedSelector doc array key)
      w.update (Filter.byId id) [.pull array selector] false
    | none => do
      let (slot, array) ← Action.lift (removalTarget doc resolved index)
      removeAt w id slot array
  | .insert path index element => do
    let doc ← w.find id
    let resolved ← Action.lift (path.resolve doc)
    let (array, position) ← Action.lift (insertionTarget resolved path index)
    w.update (Filter.byId id) [.push array [element] position] false
  | .create document => do
    let created ← mark w user
    let document := match document with
      | .obj fields => .obj (Members.insert fields "_created" created)
      | v => v
    let _ ← w.insert document
  | .delete => do
    let deleted ← mark w user
    w.update (Filter.byId id) [.set ["_deleted"] deleted] false

end Mutation

namespace Payload

variable {σ : Type}

/-- An action in the context of a record: a failure names the record. -/
def inContext (index : Nat) (record : Json) (action : Action σ Unit) : Action σ Unit :=
  Action.attempt fun s =>
    match action.perform s with
    | (.ok (), s) => (.ok (), s)
    | (.error e, s) => (.error (.mutationFailed index record e), s)

/-- Applies records in order, the first of them at a position. -/
def applyRecords (w : Writer σ) (user : Option String) (id : Json) (index : Nat) :
    List Mutation → Action σ Unit
  | [] => pure ()
  | m :: rest => do
    inContext index m.toJson (m.apply w user id)
    applyRecords w user id (index + 1) rest

/-- Applies the records of a payload. The one that could not be read fails in its turn. -/
def apply (w : Writer σ) (user : Option String) (p : Payload) : Action σ Unit := do
  applyRecords w user p.id 0 p.mutations
  match p.rejected with
  | none => pure ()
  | some record =>
    inContext p.mutations.length record do
      let m ← Action.lift (Mutation.ofJson record)
      m.apply w user p.id

end Payload
end DocWatch
