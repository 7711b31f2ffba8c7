import DocWatch.Wire

/-!
# Paths of mutations

Clients address places in a document by keys, by positions, and by references to array elements of
a given identity. References have to be resolved before a path can be used on a document.

- `Segment.ofText`: a text that starts with an ampersand is a reference.
- `MutationPath.ofJson`, `MutationPath.toJson`: the wire form, an array of texts and positions.
- `MutationPath.fieldPath?`: the path into the document, if there are no references.
-/

namespace DocWatch

/-- One step of a mutation path. -/
inductive Segment where
  /-- A key, or a position in a text. -/
  | literal (key : String)
  /-- A position in an array. -/
  | index (position : Nat)
  /-- The array element with an identity. -/
  | ref (id : String)
deriving DecidableEq, Repr

namespace Segment

/-- The step that a text spells. -/
def ofText (text : String) : Segment :=
  match text.toList with
  | '&' :: rest => .ref (String.ofList rest)
  | _ => .literal text

/-- The text of a step. -/
def text : Segment → String
  | .literal key => key
  | .index position => String.ofList (Decimal.natChars position)
  | .ref id => "&" ++ id

/-- Does the step have to be resolved? -/
def isRef : Segment → Bool
  | .ref _ => true
  | _ => false

/-- The wire form of a step. -/
def toJson : Segment → Json
  | .index position => .nat position
  | segment => .str segment.text

/-- Reads the wire form of a step. -/
def ofJson : Json → Except Wire.DecodeError Segment
  | .str s => .ok (ofText s)
  | .num (.int i _) => if i < 0 then .error .negativeIndex else .ok (.index i.toNat)
  | v => .error (.invalidType v .segment)

end Segment

/-- The steps to a place in a document. -/
abbrev MutationPath := List Segment

namespace MutationPath

/-- Does a step have to be resolved? -/
def hasRefs (path : MutationPath) : Bool := path.any Segment.isRef

/-- The text of a path: the texts of its steps, with dots between them. -/
def text (path : MutationPath) : String := FieldPath.text (path.map Segment.text)

/-- The wire form. -/
def toJson (path : MutationPath) : Json := .arr (path.map Segment.toJson)

/-- Reads steps. -/
def ofItems : List Json → Except Wire.DecodeError MutationPath
  | [] => .ok []
  | v :: rest => do
    let segment ← Segment.ofJson v
    let path ← ofItems rest
    return segment :: path

/-- Reads the wire form. -/
def ofJson : Json → Except Wire.DecodeError MutationPath
  | .arr items => ofItems items
  | v => .error (.invalidType v .sequence)

/-- The path into the document, unless there is a reference. -/
def fieldPath? (path : MutationPath) : Option FieldPath :=
  if path.hasRefs then none else some (path.map Segment.text)

end MutationPath
end DocWatch
