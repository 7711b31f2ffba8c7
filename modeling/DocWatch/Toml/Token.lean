import DocWatch.Double
import DocWatch.Text
import DocWatch.Timestamp

/-!
# Words of TOML

Each function reads one kind of word at the start of a text and answers it with the rest.

- `Toml.comment`, `Toml.lineEnd?`: what may follow a statement on its line.
- `Toml.dottedKey?`: keys, quoted or not.
- `Toml.string?`: the four kinds of strings.
- `Toml.moment?`, `Toml.float?`, `Toml.integer?`: dates and times, and numbers.
-/

namespace DocWatch.Toml

-- Powers are those of the core library whatever else is imported, so exponents have their type.
attribute [local instance (high)] instPowNat

/-- Blanks within a line. -/
def isBlank (c : Char) : Bool := c = ' ' || c = '\t'

/-- Skips blanks within a line. -/
def skipBlanks (cs : List Char) : List Char := cs.dropWhile isBlank

/-- May a character stand in comments and strings as it is? -/
def isText (c : Char) : Bool := c = '\t' || (0x20 ≤ c.toNat && c.toNat ≠ 0x7F)

/-- Skips a comment, if there is one. -/
def comment (cs : List Char) : List Char :=
  match cs with
  | '#' :: rest => rest.dropWhile isText
  | cs => cs

/-- A line break. -/
def newline? : List Char → Option (List Char)
  | '\n' :: rest => some rest
  | '\r' :: '\n' :: rest => some rest
  | _ => none

/-- Blanks and a comment up to the end of the line or of the text. -/
def lineEnd? (cs : List Char) : Option (List Char) :=
  match comment (skipBlanks cs) with
  | [] => some []
  | cs => newline? cs

/-! ## Strings -/

/-- A number of hexadecimal digits, and the character with that code. -/
def coded? (width : Nat) (cs : List Char) : Option (Char × List Char) := do
  let digits ← (cs.take width).mapM Text.hexValue?
  let n := digits.foldl (fun n d => 16 * n + d) 0
  if digits.length = width ∧ n.isValidChar then some (Char.ofNat n, cs.drop width) else none

/-- The character of an escape, after the backslash. -/
def escaped? : List Char → Option (Char × List Char)
  | '"' :: rest => some ('"', rest)
  | '\\' :: rest => some ('\\', rest)
  | 'b' :: rest => some ('\x08', rest)
  | 'f' :: rest => some ('\x0c', rest)
  | 'n' :: rest => some ('\n', rest)
  | 'r' :: rest => some ('\r', rest)
  | 't' :: rest => some ('\t', rest)
  | 'u' :: rest => coded? 4 rest
  | 'U' :: rest => coded? 8 rest
  | _ => none

/-- The rest of a string with escapes after its opening quote. -/
def basic? : Nat → List Char → Option (List Char × List Char)
  | 0, _ => none
  | fuel + 1, cs =>
    match cs with
    | '"' :: rest => some ([], rest)
    | '\\' :: rest => do
      let (c, rest) ← escaped? rest
      let (s, rest) ← basic? fuel rest
      return (c :: s, rest)
    | c :: rest => do
      if !isText c then none
      let (s, rest) ← basic? fuel rest
      return (c :: s, rest)
    | [] => none

/-- The rest of a string without escapes after its opening quote. -/
def literal? (cs : List Char) : Option (List Char × List Char) :=
  match cs.span fun c => isText c && c ≠ '\'' with
  | (s, '\'' :: rest) => some (s, rest)
  | _ => none

/-- Skips blanks and line breaks. -/
def skipLines : Nat → List Char → List Char
  | 0, cs => cs
  | fuel + 1, cs =>
    match newline? (skipBlanks cs) with
    | some rest => skipLines fuel rest
    | none => skipBlanks cs

/-- The rest of a string of several lines. It ends with three quotes; up to two more right before
them belong to it. -/
def multiline? (quote : Char) (hasEscapes : Bool) :
    Nat → List Char → Option (List Char × List Char)
  | 0, _ => none
  | fuel + 1, cs =>
    match cs with
    | [] => none
    | c :: rest =>
      if c = quote then
        let run := (cs.takeWhile (· = quote)).length
        if 3 ≤ run then
          let kept := min (run - 3) 2
          some (List.replicate kept quote, cs.drop (kept + 3))
        else do
          let (s, rest) ← multiline? quote hasEscapes fuel rest
          return (c :: s, rest)
      else if c = '\\' ∧ hasEscapes then
        match newline? (skipBlanks rest) with
        | some rest => multiline? quote hasEscapes fuel (skipLines rest.length rest)
        | none => do
          let (c, rest) ← escaped? rest
          let (s, rest) ← multiline? quote hasEscapes fuel rest
          return (c :: s, rest)
      else
        match newline? cs with
        | some rest => do
          let (s, rest) ← multiline? quote hasEscapes fuel rest
          return ('\n' :: s, rest)
        | none => do
          if !isText c then none
          let (s, rest) ← multiline? quote hasEscapes fuel rest
          return (c :: s, rest)

/-- Drops the line break right after the opening quotes. -/
def dropFirstBreak (cs : List Char) : List Char := (newline? cs).getD cs

/-- A string in any of its four forms. -/
def string? : List Char → Option (List Char × List Char)
  | '"' :: '"' :: '"' :: rest => multiline? '"' true (rest.length + 1) (dropFirstBreak rest)
  | '\'' :: '\'' :: '\'' :: rest => multiline? '\'' false (rest.length + 1) (dropFirstBreak rest)
  | '"' :: rest => basic? (rest.length + 1) rest
  | '\'' :: rest => literal? rest
  | _ => none

/-! ## Keys -/

/-- May a character stand in a key without quotes? -/
def isBare (c : Char) : Bool := c.isAlphanum || c = '-' || c = '_'

/-- A key without dots. -/
def key? (cs : List Char) : Option (String × List Char) :=
  match cs with
  | '"' :: rest => (basic? (rest.length + 1) rest).map fun (s, rest) => (String.ofList s, rest)
  | '\'' :: rest => (literal? rest).map fun (s, rest) => (String.ofList s, rest)
  | cs =>
    match cs.span isBare with
    | ([], _) => none
    | (s, rest) => some (String.ofList s, rest)

/-- Keys between dots. The fuel bounds their number. -/
def keys? : Nat → List Char → Option (List String × List Char)
  | 0, _ => none
  | fuel + 1, cs => do
    let (key, rest) ← key? (skipBlanks cs)
    match skipBlanks rest with
    | '.' :: rest => do
      let (keys, rest) ← keys? fuel rest
      return (key :: keys, rest)
    | rest => return ([key], rest)

/-- Values and keys may be nested so many times, one less. -/
def nestingLimit : Nat := 80

/-- A dotted key: a path and the last key. -/
def dottedKey? (cs : List Char) : Option (List String × String × List Char) := do
  let (keys, rest) ← keys? (nestingLimit - 1) cs
  return (keys.dropLast, ← keys.getLast?, rest)

/-! ## Dates, times and numbers -/

/-- A number of digits, as a number in a range. -/
def digits? (width first last : Nat) (cs : List Char) : Option (Nat × List Char) :=
  let ds := cs.take width
  let n := Decimal.value ds
  if ds.length = width ∧ ds.all Char.isDigit ∧ first ≤ n ∧ n ≤ last then some (n, cs.drop width)
  else none

/-- A date of the calendar. -/
def date? (cs : List Char) : Option (List Char) := do
  let (year, rest) ← digits? 4 0 9999 cs
  let rest ← Text.word? ['-'] rest
  let (month, rest) ← digits? 2 1 12 rest
  let rest ← Text.word? ['-'] rest
  let (_, rest) ← digits? 2 1 (Calendar.monthLength year month) rest
  return rest

/-- Hours and minutes. -/
def hourMinute? (cs : List Char) : Option (List Char) := do
  let (_, rest) ← digits? 2 0 23 cs
  let rest ← Text.word? [':'] rest
  let (_, rest) ← digits? 2 0 59 rest
  return rest

/-- A time of day. -/
def time? (cs : List Char) : Option (List Char) := do
  let rest ← Text.word? [':'] (← hourMinute? cs)
  let (_, rest) ← digits? 2 0 60 rest
  match rest with
  | '.' :: rest =>
    match rest.span Char.isDigit with
    | ([], _) => none
    | (_, rest) => return rest
  | rest => return rest

/-- An offset from UTC, if there is one. -/
def offset? (cs : List Char) : Option (List Char) :=
  match cs with
  | 'Z' :: rest | 'z' :: rest => some rest
  | '+' :: rest | '-' :: rest => hourMinute? rest
  | cs => some cs

/-- A date, a time, or both with or without an offset. -/
def moment? (cs : List Char) : Option (List Char) :=
  match date? cs with
  | none => time? cs
  | some rest =>
    match rest with
    | c :: after =>
      if c = 'T' ∨ c = 't' ∨ c = ' ' then
        match time? after with
        | some rest => offset? rest
        | none => some rest
      else some rest
    | [] => some []

/-- Do single underscores stand only between digits? -/
def isGrouped : List Char → Bool
  | [] => false
  | c :: '_' :: rest => c ≠ '_' && isGrouped rest
  | c :: rest => c ≠ '_' && (rest.isEmpty || isGrouped rest)

/-- Digits, underscores between them allowed and dropped. -/
def grouped? (isDigit : Char → Bool) (cs : List Char) : Option (List Char × List Char) :=
  match cs.span fun c => isDigit c || c = '_' with
  | (ds, rest) => if isGrouped ds then some (ds.filter isDigit, rest) else none

/-- A sign, if there is one: is it a minus? -/
def sign (cs : List Char) : Bool × List Char :=
  match cs with
  | '-' :: rest => (true, rest)
  | '+' :: rest => (false, rest)
  | cs => (false, cs)

/-- A natural number in decimal digits. A zero stands in front of nothing. -/
def natural? (cs : List Char) : Option (Nat × List Char) :=
  match cs with
  | '0' :: rest => some (0, rest)
  | cs => (grouped? Char.isDigit cs).map fun (ds, rest) => (Decimal.value ds, rest)

/-- A number under its sign. -/
def signed (negative : Bool) (n : Nat) : Int := if negative then -n else n

/-- A decimal integer. -/
def decimal? (cs : List Char) : Option (Int × List Char) := do
  let (negative, cs) := sign cs
  let (n, rest) ← natural? cs
  return (signed negative n, rest)

/-- The power of ten after `e` or `E`. -/
def power? (cs : List Char) : Option (Int × List Char) :=
  match cs with
  | 'e' :: rest | 'E' :: rest => do
    let (negative, rest) := sign rest
    let (ds, rest) ← grouped? Char.isDigit rest
    return (signed negative (Decimal.value ds), rest)
  | _ => none

/-- A number without a sign that has a fraction, a power of ten or both. -/
def scientific? (cs : List Char) : Option (Decimal × List Char) := do
  let (whole, rest) ← natural? cs
  match rest with
  | '.' :: rest =>
    let (ds, rest) ← grouped? Char.isDigit rest
    let (power, rest) := (power? rest).getD (0, rest)
    return (⟨whole * 10 ^ ds.length + Decimal.value ds, power - ds.length⟩, rest)
  | rest =>
    let (power, rest) ← power? rest
    return (⟨whole, power⟩, rest)

/-- A fractional number, or one that is infinite or no number by name. Digits are refused if they
spell a positive number beyond all doubles. -/
def float? (cs : List Char) : Option (List Char) :=
  let (negative, cs) := sign cs
  match Text.word? "inf".toList cs <|> Text.word? "nan".toList cs with
  | some rest => some rest
  | none => do
    let (x, rest) ← scientific? cs
    if negative || (Double.ofDecimal? false x).isSome then some rest else none

/-- An integer in a base. -/
def based? (base : Nat) (cs : List Char) : Option (Int × List Char) := do
  let isDigit (c : Char) := (Text.hexValue? c).any (· < base)
  let (ds, rest) ← grouped? isDigit cs
  let n := ds.foldl (fun n c => base * n + (Text.hexValue? c).getD 0) 0
  return ((n : Int), rest)

/-- An integer of 64 bits with a sign. -/
def integer? (cs : List Char) : Option (Int × List Char) := do
  let (n, rest) ← match cs with
    | '0' :: 'x' :: rest => based? 16 rest
    | '0' :: 'o' :: rest => based? 8 rest
    | '0' :: 'b' :: rest => based? 2 rest
    | cs => decimal? cs
  if -2 ^ (63 : Nat) ≤ n ∧ n < 2 ^ (63 : Nat) then some (n, rest) else none

end DocWatch.Toml
