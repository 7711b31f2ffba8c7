import DocWatch.Document
import DocWatch.Mutation.Basic

/-!
# Reading mutations and payloads

- `Mutation.ofJson`: one record, an object or an array of its fields in order.
- `Payload.ofJson`: a payload. Only its envelope has to be right; the records are read up to the
  first that cannot be.
-/

namespace DocWatch

namespace Mutation

/-- What has been read of a record. -/
structure Draft where
  kind : Option String
  path : Option MutationPath
  value : Option Json
  key : Option Json
  index : Option Segment
  element : Option Json
  document : Option Json

/-- Nothing read. -/
def Draft.empty : Draft := ⟨none, none, none, none, none, none, none⟩

/-- A value, absent if null. -/
def value? (v : Json) : Option Json := if v.isNull then none else some v

/-- How a record is read. -/
def layout : Wire.Layout Draft where
  name := "RawMutation"
  fields := ["type", "path", "value", "key", "index", "el", "document"]
  required := 1
  member draft key v :=
    match key with
    | "type" => do return { draft with kind := some (← Wire.string v) }
    | "path" => do return { draft with path := ← Wire.optional MutationPath.ofJson v }
    | "value" => return { draft with value := value? v }
    | "key" => return { draft with key := value? v }
    | "index" => do return { draft with index := ← Wire.optional Segment.ofJson v }
    | "el" => return { draft with element := value? v }
    | "document" => return { draft with document := value? v }
    | _ => return draft

/-- The path that an edit needs. -/
def requiredPath (kind : String) : Option MutationPath → Except Error MutationPath
  | some path => .ok path
  | none => .error (.invalidPayload (.pathRequired kind))

/-- The position of a record: a number. -/
def position? (kind : String) : Option Segment → Except Error (Option Nat)
  | none => .ok none
  | some (.index i) => .ok (some i)
  | some other => .error (.invalidPayload (.indexNotCount kind other))

/-- The edit that a draft of a given kind describes. -/
def ofDraft (kind : String) (draft : Draft) : Except Error Mutation := do
  let index ← position? kind draft.index
  match kind with
  | "set" => return .set (← requiredPath kind draft.path) (draft.value.getD .null)
  | "unset" => return .unset (← requiredPath kind draft.path)
  | "remove" => return .remove (← requiredPath kind draft.path) (draft.key.map Identity.text) index
  | "insert" =>
    let path ← requiredPath kind draft.path
    match draft.element with
    | some element => return .insert path index element
    | none => throw (.invalidPayload .elementRequired)
  | "create" =>
    match draft.document with
    | some (.obj fields) => return .create (.obj fields)
    | _ => throw (.invalidPayload .documentRequired)
  | "delete" => return .delete
  | _ => throw (.unknownMutationType kind)

/-- The edit that a record describes. -/
def ofJson (v : Json) : Except Error Mutation :=
  match layout.read Draft.empty v with
  | .error e => .error (.invalidPayload (.undecodable e))
  | .ok draft =>
    match draft.kind with
    | none => .error (.invalidPayload (.undecodable (.missingField "type")))
    | some kind => ofDraft kind draft

end Mutation

namespace Payload

/-- The edits up to the first record that cannot be read, and that record. -/
def readRecords : List Json → List Mutation × Option Json
  | [] => ([], none)
  | v :: rest =>
    match Mutation.ofJson v with
    | .error _ => ([], some v)
    | .ok m =>
      let (ms, rejected) := readRecords rest
      (m :: ms, rejected)

/-- The records of a payload: one or many under `mutation`, or many under `mutations`. -/
def records (v : Json) : Except Error (List Json) :=
  match v.field? "mutation", v.field? "mutations" with
  | some (.arr many), _ => .ok many
  | none, some (.arr many) | some .null, some (.arr many) => .ok many
  | none, _ | some .null, _ => .error (.invalidPayload .mutationsRequired)
  | some one, _ => .ok [one]

/-- The payload that a value describes. -/
def ofJson (v : Json) : Except Error Payload := do
  if !v.isObject then throw (.invalidPayload .payloadNotObject)
  match v.field? "collection" with
  | some (.str collection) =>
    let (mutations, rejected) := readRecords (← records v)
    return ⟨collection, (v.field? "_id").getD .null, mutations, rejected⟩
  | _ => throw (.invalidPayload .collectionRequired)

end Payload
end DocWatch
