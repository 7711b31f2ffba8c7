import DocWatch.Toml.Basic
import DocWatch.Toml.Token

/-!
# Reading TOML documents

- `Toml.value?`: a value, with arrays and inline tables nested to a limited depth.
- `Toml.statements?`: the statements of a document, one on a line.
- `Toml.parse?`: the table of a document.
-/

namespace DocWatch.Toml

/-- Skips blanks, comments and line breaks between the elements of an array. -/
def skipGaps : Nat → List Char → List Char
  | 0, cs => cs
  | fuel + 1, cs =>
    match newline? (comment (skipBlanks cs)) with
    | some rest => skipGaps fuel rest
    | none => skipBlanks cs

/-- Skips the gaps at the start of a text. -/
def skipAllGaps (cs : List Char) : List Char := skipGaps cs.length cs

mutual

/-- A value, nested in so many others. -/
def value? : Nat → Nat → List Char → Option (Item × List Char)
  | 0, _, _ => none
  | fuel + 1, depth, cs =>
    match cs with
    | '"' :: _ | '\'' :: _ => do
      let (s, rest) ← string? cs
      return (.string (String.ofList s), rest)
    | '[' :: rest => if depth + 1 < nestingLimit then array? fuel (depth + 1) rest else none
    | '\x7b' :: rest =>
      if depth + 1 < nestingLimit then
        match skipBlanks rest with
        | '\x7d' :: rest => some (.other, rest)
        | _ => inline? fuel (depth + 1) [] rest
      else none
    | 't' :: rest => (Text.word? "rue".toList rest).map (.boolean true, ·)
    | 'f' :: rest => (Text.word? "alse".toList rest).map (.boolean false, ·)
    | cs =>
      match moment? cs <|> float? cs with
      | some rest => some (.other, rest)
      | none => (integer? cs).map fun (n, rest) => (.integer n, rest)

/-- The rest of an array after its opening bracket or after a comma. -/
def array? : Nat → Nat → List Char → Option (Item × List Char)
  | 0, _, _ => none
  | fuel + 1, depth, cs =>
    match skipAllGaps cs with
    | ']' :: rest => some (.other, rest)
    | cs => do
      let (_, rest) ← value? fuel depth cs
      match skipAllGaps rest with
      | ',' :: rest => array? fuel depth rest
      | ']' :: rest => return (.other, rest)
      | _ => none

/-- The rest of an inline table before a pair, given the keys before. -/
def inline? : Nat → Nat → List (List String × String) → List Char → Option (Item × List Char)
  | 0, _, _, _ => none
  | fuel + 1, depth, pairs, cs => do
    let (path, key, rest) ← dottedKey? cs
    let rest ← Text.word? ['='] rest
    let (_, rest) ← value? fuel depth (skipBlanks rest)
    let pairs := pairs ++ [(path, key)]
    match skipBlanks rest with
    | ',' :: rest => inline? fuel depth pairs rest
    | '\x7d' :: rest => if fitInline pairs then return (.other, rest) else none
    | _ => none

end

/-- A pair. -/
def pair? (cs : List Char) : Option (Statement × List Char) := do
  let (path, key, rest) ← dottedKey? cs
  let rest ← Text.word? ['='] rest
  let rest := skipBlanks rest
  let (item, rest) ← value? (2 * rest.length + 2) 0 rest
  return (.pair path key item, rest)

/-- A statement without the end of its line. -/
def statement? : List Char → Option (Statement × List Char)
  | '[' :: '[' :: rest => do
    let (path, key, rest) ← dottedKey? rest
    return (.element path key, ← Text.word? [']', ']'] rest)
  | '[' :: rest => do
    let (path, key, rest) ← dottedKey? rest
    return (.table path key, ← Text.word? [']'] rest)
  | cs => pair? cs

/-- Statements on lines of their own. The fuel bounds the number of lines. -/
def statements? : Nat → List Char → Option (List Statement)
  | 0, _ => none
  | fuel + 1, cs =>
    match skipBlanks cs with
    | [] => some []
    | cs =>
      match lineEnd? cs with
      | some rest => statements? fuel rest
      | none => do
        let (statement, rest) ← statement? cs
        return statement :: (← statements? fuel (← lineEnd? rest))

/-- The table of a document. A byte order mark in front is ignored. -/
def parse? (text : String) : Option Table := do
  let cs := match text.toList with
    | '\ufeff' :: rest => rest
    | cs => cs
  run (← statements? (cs.length + 1) cs)

end DocWatch.Toml
