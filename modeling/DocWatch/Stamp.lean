import DocWatch.Wire

/-!
# Stamps

- `Provenance`: which client touched a field, and when. It is stored under `_meta`.
- `EditMark`: when a document was created or deleted, and by whom. It is stored under `_created` or
  `_deleted`.
-/

namespace DocWatch

/-- An optional text as a value: null if there is none. -/
def Json.ofText? : Option String → Json
  | none => .null
  | some s => .str s

/-- Which client touched a field, and when. -/
structure Provenance where
  client : Option String
  timestamp : Timestamp
deriving DecidableEq

namespace Provenance

/-- The stored form. -/
def toJson (p : Provenance) : Json :=
  .obj [("client", Json.ofText? p.client), ("timestamp", .str p.timestamp.text)]

/-- What has been read of a provenance record. -/
structure Draft where
  client : Option String
  timestamp : Option Timestamp

/-- How a provenance record is read. -/
def layout : Wire.Layout Draft where
  name := "Provenance"
  fields := ["client", "timestamp"]
  required := 2
  member draft key v :=
    match key with
    | "client" => do return { draft with client := ← Wire.optional Wire.string v }
    | "timestamp" => do return { draft with timestamp := some (← Wire.timestamp v) }
    | _ => return draft

/-- Reads the stored form. -/
def ofJson (v : Json) : Except Wire.DecodeError Provenance := do
  let draft ← layout.read ⟨none, none⟩ v
  match draft.timestamp with
  | some t => return ⟨draft.client, t⟩
  | none => throw (.missingField "timestamp")

end Provenance

/-- When a document was created or deleted, and by whom. -/
structure EditMark where
  timestamp : Timestamp
  user : Option String
deriving DecidableEq

namespace EditMark

/-- The stored form. -/
def toJson (m : EditMark) : Json :=
  .obj [("timestamp", .str m.timestamp.text), ("user", Json.ofText? m.user)]

/-- What has been read of a mark. -/
structure Draft where
  timestamp : Option Timestamp
  user : Option String

/-- How a mark is read. -/
def layout : Wire.Layout Draft where
  name := "EditStamp"
  fields := ["timestamp", "user"]
  required := 2
  member draft key v :=
    match key with
    | "timestamp" => do return { draft with timestamp := some (← Wire.timestamp v) }
    | "user" => do return { draft with user := ← Wire.optional Wire.string v }
    | _ => return draft

/-- Reads the stored form. -/
def ofJson (v : Json) : Except Wire.DecodeError EditMark := do
  let draft ← layout.read ⟨none, none⟩ v
  match draft.timestamp with
  | some t => return ⟨t, draft.user⟩
  | none => throw (.missingField "timestamp")

end EditMark
end DocWatch
