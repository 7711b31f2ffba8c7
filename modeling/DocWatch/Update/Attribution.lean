import DocWatch.Stamp
import DocWatch.Update.Basic

/-!
# Attribution of writes

Each write records, for each top-level field that it touches, who made it. Entries are written one
field at a time, so those of other fields stay.

- `Update.attribute`: an update followed by the writes of its entries.
- `Document.attribute`: a new document with an entry for each of its fields.
-/

namespace DocWatch

/-- The update, and after it one entry for each field that it touches. -/
def Update.attribute (update : Update) (p : Provenance) : Update :=
  update ++ update.touchedFields.map fun field => .set ["_meta", field] p.toJson

/-- A new document with an entry for each of its fields. What stands in the place of the entries
and is no object gives way to one. -/
def Document.attribute (doc : Json) (p : Provenance) : Json :=
  match doc with
  | .obj fields =>
    let tracked := (Members.keys fields).filter Update.isTracked
    if tracked.isEmpty then doc
    else
      let old := match Members.get? fields "_meta" with
        | some (.obj entries) => entries
        | _ => []
      let entries := tracked.foldl (fun es field => Members.insert es field p.toJson) old
      .obj (Members.insert fields "_meta" (.obj entries))
  | _ => doc

end DocWatch
