import DocWatch.FieldPath
import DocWatch.Json.Basic

/-!
# Values at paths

- `Json.get?`: the value that a path reaches.
- `Json.set`: writes a value, making the containers that are missing on the way. Those made before
  a failure stay.
- `Json.unset`: removes a member, or puts null into a slot so that later slots stay where they are.
- `Json.modify`: changes the value that a path reaches, if there is one.
-/

namespace DocWatch.Json

/-- Why a value cannot be written at a path. -/
inductive AccessError where
  /-- The container that a segment needs is something else. -/
  | typeMismatch (segment : String) (found : String)
  /-- A slot lies too far beyond the end of an array. -/
  | outOfRange (segment : String) (index : Nat) (length : Nat)
deriving DecidableEq, Repr

/-- The message of an access error. -/
def AccessError.message : AccessError → String
  | .typeMismatch segment found =>
    s!"type mismatch at '{segment}': expected object, found {found}"
  | .outOfRange segment index length =>
    s!"index {index} at '{segment}' is out of range for an array of length {length}"

/-- How many nulls a write beyond the end of an array may add, the slot itself included. -/
def maxPadding : Nat := 1024

/-- The value that one segment reaches. -/
def child? (v : Json) (segment : String) : Option Json :=
  match v with
  | .obj fields => Members.get? fields segment
  | .arr items => (FieldPath.index? segment).bind fun i => items[i]?
  | _ => none

/-- The value that a path reaches. -/
def get? (v : Json) : FieldPath → Option Json
  | [] => some v
  | segment :: rest => (v.child? segment).bind (·.get? rest)

/-- Grows an array with nulls until it has a slot, if that is not too far. -/
def pad (items : List Json) (index : Nat) (segment : String) : Except AccessError (List Json) :=
  if index < items.length then .ok items
  else if index - items.length < maxPadding then
    .ok (items ++ List.replicate (index + 1 - items.length) .null)
  else .error (.outOfRange segment index items.length)

/-- What a null slot becomes when a write goes on inside it. -/
def openSlot : Json → Json
  | .null => .obj []
  | v => v

/-- Writes a value at a path. A missing member and a null slot on the way become objects. -/
def set (v : Json) (path : FieldPath) (value : Json) : Json × Option AccessError :=
  match path with
  | [] => (value, none)
  | segment :: rest =>
    match v with
    | .obj fields =>
      let (inner, error) := ((Members.get? fields segment).getD (.obj [])).set rest value
      (.obj (Members.insert fields segment inner), error)
    | .arr items =>
      match FieldPath.index? segment with
      | none => (v, some (.typeMismatch segment v.typeName))
      | some i =>
        match pad items i segment with
        | .error e => (v, some e)
        | .ok items =>
          let (inner, error) := (openSlot ((items[i]?).getD .null)).set rest value
          (.arr (items.set i inner), error)
    | _ => (v, some (.typeMismatch segment v.typeName))
termination_by structural path

/-- The document after a write, or why it failed. -/
def write (v : Json) (path : FieldPath) (value : Json) : Except AccessError Json :=
  match v.set path value with
  | (w, none) => .ok w
  | (_, some e) => .error e

/-- Changes the value that a path reaches; a document that it does not reach into stays. -/
def modify (v : Json) (path : FieldPath) (change : Json → Json) : Json :=
  match path with
  | [] => change v
  | segment :: rest =>
    match v with
    | .obj fields =>
      match Members.get? fields segment with
      | none => v
      | some inner => .obj (Members.insert fields segment (inner.modify rest change))
    | .arr items =>
      match FieldPath.index? segment with
      | none => v
      | some i =>
        match items[i]? with
        | none => v
        | some inner => .arr (items.set i (inner.modify rest change))
    | _ => v
termination_by structural path

/-- Takes one segment out of its container: a member disappears, a slot becomes null. -/
def dropChild (v : Json) (segment : String) : Json :=
  match v with
  | .obj fields => .obj (Members.erase fields segment)
  | .arr items =>
    match FieldPath.index? segment with
    | none => v
    | some i => .arr (items.set i .null)
  | _ => v

/-- Removes what the last segment names in the container that the others lead to; the root becomes
null. The second part is what was there. -/
def unset (v : Json) (path : FieldPath) : Json × Option Json :=
  match path.getLast? with
  | none => (.null, some v)
  | some segment =>
    match v.get? path.dropLast with
    | none => (v, none)
    | some container =>
      (v.modify path.dropLast (·.dropChild segment), container.child? segment)

end DocWatch.Json
