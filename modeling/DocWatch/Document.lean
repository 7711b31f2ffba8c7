import DocWatch.Json.Text

/-!
# Documents and their identities

A document is an object with an identity under `_id`. Three more fields are reserved: `_meta` says
who last touched each field, `_created` and `_deleted` are edit marks.

- `Document.id?`: the identity.
- `Identity.text`: how a reference spells an identity.
- `Identity.key`: the key under which a store keeps the document. It keeps the kind of the
  identity, so `7` and `"7"` differ, and spells a whole double like the integer.
- `Document.answersTo`: is this the document that a reference names?
- `Document.fieldProvenance`: the provenance entries of several documents in one object.
-/

namespace DocWatch

-- Powers are those of the core library whatever else is imported, so exponents have their type.
attribute [local instance (high)] instPowNat

namespace Identity

/-- How references spell an identity: a string as it is, all else as compact text. -/
def text : Json → String
  | .str s => s
  | v => v.text

/-- Whole doubles are spelled like integers below this magnitude, where all integers are exact. -/
def wholeLimit : Int := 2 ^ (53 : Nat)

/-- The key under which a document with this identity is stored. -/
def key : Json → String
  | .num (.double x) =>
    match x.toInt? with
    | some i =>
      if -wholeLimit < i ∧ i < wholeLimit then String.ofList (Decimal.intChars i)
      else String.ofList x.chars
    | none => String.ofList x.chars
  | v => v.text

end Identity

namespace Document

/-- The field of the identity. -/
def idField : String := "_id"

/-- The field that records who last touched each other field. -/
def metaField : String := "_meta"

/-- The field that marks a document as deleted. -/
def deletedField : String := "_deleted"

/-- The field that records who created a document. -/
def createdField : String := "_created"

/-- The identity of a document. -/
def id? (doc : Json) : Option Json := doc.field? idField

/-- Does a textual reference name this document? -/
def answersTo (doc : Json) (reference : String) : Bool :=
  match id? doc with
  | none | some .null => false
  | some v => Identity.text v == reference

/-- Is the document marked as deleted? -/
def isDeleted (doc : Json) : Bool := (doc.field? deletedField).isSome

/-- The provenance entries of one document, each under `identity.field`, added to those of
others. -/
def addProvenance (entries : Members Json) (doc : Json) : Members Json :=
  match doc.field? metaField with
  | some (.obj fields) =>
    let owner := ((id? doc).map Identity.text).getD ""
    fields.foldl (fun es (field, v) => es.insert (owner ++ "." ++ field) v) entries
  | _ => entries

/-- The provenance entries of several documents. -/
def fieldProvenance (docs : List Json) : Members Json := docs.foldl addProvenance []

end Document
end DocWatch
