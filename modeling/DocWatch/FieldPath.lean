import DocWatch.Decimal

/-!
# Dotted field paths

A path is a list of segments; whether a segment names a key or a slot is decided by the container
found there. The text of a path joins its segments with dots, and the empty text is the root.

- `FieldPath.parse`: the path that a text spells. No segment may be empty.
- `FieldPath.text`: the text of a path.
- `FieldPath.index?`: the slot that a segment names in an array.
-/

namespace DocWatch

-- Powers are those of the core library whatever else is imported, so exponents have their type.
attribute [local instance (high)] instPowNat

/-- A path into a document, from the root. -/
abbrev FieldPath := List String

namespace FieldPath

/-- Why a text is no path. -/
inductive ParseError where
  /-- A segment is empty. The position counts the bytes before it. -/
  | emptySegment (position : Nat)
deriving DecidableEq, Repr

/-- The message of a path error. -/
def ParseError.message : ParseError → String
  | .emptySegment position => s!"empty segment in path at position {position}"

/-- The parts of a text between dots. There is always at least one. -/
def splitDots : List Char → List (List Char)
  | [] => [[]]
  | c :: rest =>
    if c = '.' then [] :: splitDots rest
    else match splitDots rest with
      | [] => [[c]]
      | part :: parts => (c :: part) :: parts

/-- The bytes that characters take in UTF-8. -/
def byteCount (cs : List Char) : Nat := cs.foldl (fun n c => n + c.utf8Size) 0

/-- The segments that parts spell, the first of them starting at a byte position. -/
def ofParts (position : Nat) : List (List Char) → Except ParseError FieldPath
  | [] => .ok []
  | part :: parts =>
    if part = [] then .error (.emptySegment position)
    else (ofParts (position + byteCount part + 1) parts).map (String.ofList part :: ·)

/-- The path that a text spells. -/
def parse (text : String) : Except ParseError FieldPath :=
  if text = "" then .ok [] else ofParts 0 (splitDots text.toList)

/-- The characters of a path's text. -/
def chars : FieldPath → List Char
  | [] => []
  | [segment] => segment.toList
  | segment :: rest => segment.toList ++ '.' :: chars rest

/-- The text of a path. -/
def text (path : FieldPath) : String := String.ofList path.chars

/-- The path of the container, unless this is the root. -/
def parent? (path : FieldPath) : Option FieldPath :=
  match path with
  | [] => none
  | path => some path.dropLast

/-- The slot that a segment names in an array: decimal digits only, at most 64 bits. -/
def index? (segment : String) : Option Nat :=
  let cs := segment.toList
  if cs ≠ [] ∧ cs.all Char.isDigit ∧ Decimal.value cs < 2 ^ (64 : Nat) then some (Decimal.value cs)
  else none

/-- Like `index?`, but a plus sign in front is allowed. -/
def signedIndex? (segment : String) : Option Nat :=
  match segment.toList with
  | '+' :: rest => index? (String.ofList rest)
  | _ => index? segment

end FieldPath
end DocWatch
