import DocWatch.FieldPath
import DocWatch.Json.Text
import DocWatch.Text
import DocWatch.Timestamp.Reader

/-!
# Reading structures from values

A structure is read from an object, whose members are taken in their own order, or from an array of
its fields in a fixed order. Members with other names are ignored.

- `Wire.Expected`, `Wire.DecodeError`: what was wanted, and why a value is not it.
- `Wire.string`, `Wire.optional`: leaves. Null counts as absent.
- `Wire.structure`: the reading of a structure, member by member into a draft.
-/

namespace DocWatch.Wire

/-- What a reader wanted. -/
inductive Expected where
  | string
  | sequence
  | timestamp
  | segment
  | record (name : String)
  /-- All fields of a structure in an array. -/
  | elements (name : String) (count : Nat)
  | fewerElements
deriving DecidableEq, Repr

/-- The wording of what was wanted. -/
def Expected.message : Expected → String
  | .string => "a string"
  | .sequence => "a sequence"
  | .timestamp => "an RFC 3339 formatted date and time string"
  | .segment => "a string key, a non-negative index or an \"&<id>\" reference"
  | .record name => "struct " ++ name
  | .elements name count => s!"struct {name} with {count} elements"
  | .fewerElements => "fewer elements in array"

/-- Why a value cannot be read. -/
inductive DecodeError where
  | invalidType (got : Json) (wanted : Expected)
  | invalidLength (length : Nat) (wanted : Expected)
  | missingField (name : String)
  | negativeIndex
  | badTimestamp (error : Timestamp.ReadError)
deriving DecidableEq

/-- How an error names a value: its kind, and the value of a scalar. -/
def described : Json → String
  | .null => "null"
  | .bool b => s!"boolean `{b}`"
  | .num (.int i _) => "integer `" ++ String.ofList (Decimal.intChars i) ++ "`"
  | .num (.double x) => "floating point `" ++ String.ofList x.chars ++ "`"
  | .str s => "string " ++ Text.quoted s
  | .arr _ => "sequence"
  | .obj _ => "map"

/-- The message of a decode error. -/
def DecodeError.message : DecodeError → String
  | .invalidType got wanted => "invalid type: " ++ described got ++ ", expected " ++ wanted.message
  | .invalidLength n wanted => s!"invalid length {n}, expected " ++ wanted.message
  | .missingField name => s!"missing field `{name}`"
  | .negativeIndex => "negative array index"
  | .badTimestamp e => e.message

/-- A string. -/
def string : Json → Except DecodeError String
  | .str s => .ok s
  | v => .error (.invalidType v .string)

/-- A timestamp. -/
def timestamp : Json → Except DecodeError Timestamp
  | .str s =>
    match Timestamp.read s with
    | .ok t => .ok t
    | .error e => .error (.badTimestamp e)
  | v => .error (.invalidType v .timestamp)

/-- A value that may be absent, which null says. -/
def optional {α : Type} (read : Json → Except DecodeError α) :
    Json → Except DecodeError (Option α)
  | .null => .ok none
  | v => some <$> read v

/-- How a structure is read: its name, the names of its fields in order, how many of them an array
has to hold, and how a member changes a draft. -/
structure Layout (Draft : Type) where
  name : String
  fields : List String
  required : Nat
  member : Draft → String → Json → Except DecodeError Draft

/-- Takes members into a draft, in order. -/
def Layout.members {Draft : Type} (l : Layout Draft) (draft : Draft) :
    Members Json → Except DecodeError Draft
  | [] => .ok draft
  | (key, v) :: rest => do l.members (← l.member draft key v) rest

/-- The draft that a value fills. -/
def Layout.read {Draft : Type} (l : Layout Draft) (empty : Draft) :
    Json → Except DecodeError Draft
  | .obj fields => l.members empty fields
  | .arr items => do
    let draft ← l.members empty (l.fields.zip items)
    if items.length < l.required then
      throw (.invalidLength items.length (.elements l.name l.fields.length))
    if l.fields.length < items.length then throw (.invalidLength items.length .fewerElements)
    return draft
  | v => .error (.invalidType v (.record l.name))

end DocWatch.Wire
