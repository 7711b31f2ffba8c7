import DocWatch.Text
import DocWatch.Timestamp

/-!
# Reading timestamps

The grammar is that of RFC 3339 and a little wider: numbers may be short, blanks may stand between
the parts, date and time may be separated by a blank, the year may have a sign and more digits, and
`UTC` stands for the offset zero.

- `Timestamp.ReadError`: why a text is no timestamp.
- `Timestamp.read`: the point in time that a text names.
-/

namespace DocWatch.Timestamp

-- Powers are those of the core library whatever else is imported, so exponents have their type.
attribute [local instance (high)] instPowNat

/-- Why a text is no timestamp. -/
inductive ReadError where
  /-- The parts have the right form but name no point in time. -/
  | outOfRange
  /-- The point in time lies beyond the years that are kept. -/
  | impossible
  | tooShort
  | invalid
  | trailing
deriving DecidableEq, Repr

/-- The message of a read error. -/
def ReadError.message : ReadError → String
  | .outOfRange => "input is out of range"
  | .impossible => "no possible date and time matching input"
  | .tooShort => "premature end of input"
  | .invalid => "input contains invalid characters"
  | .trailing => "trailing input"

/-- The first and the last year of a date. -/
def yearRange : Int × Int := (-262143, 262142)

/-- Digits at the start of a text, at least one and at most `width` of them. -/
def number (width : Nat) (cs : List Char) : Except ReadError (Nat × List Char) :=
  match cs with
  | [] => .error .tooShort
  | c :: _ =>
    if c.isDigit then
      let ds := (cs.take width).takeWhile Char.isDigit
      if Decimal.value ds < 2 ^ (63 : Nat) then .ok (Decimal.value ds, cs.drop ds.length)
      else .error .outOfRange
    else .error .invalid

/-- A number of at most two digits in a range, blanks before it allowed. -/
def field (first last : Nat) (cs : List Char) : Except ReadError (Nat × List Char) := do
  let (n, rest) ← number 2 (Text.trimLeft cs)
  if first ≤ n ∧ n ≤ last then return (n, rest) else throw .outOfRange

/-- A year. With a sign it may have any number of digits. -/
def year (cs : List Char) : Except ReadError (Int × List Char) := do
  let cs := Text.trimLeft cs
  let (n, rest) ← match cs with
    | '-' :: rest => do
      let (n, rest) ← number rest.length rest
      pure (-(n : Int), rest)
    | '+' :: rest => do
      let (n, rest) ← number rest.length rest
      pure ((n : Int), rest)
    | cs => do
      let (n, rest) ← number 4 cs
      pure ((n : Int), rest)
  if -2 ^ (31 : Nat) ≤ n ∧ n < 2 ^ (31 : Nat) then return (n, rest) else throw .outOfRange

/-- A mark between two numbers, blanks before it allowed. -/
def mark (c : Char) (cs : List Char) : Except ReadError (List Char) :=
  match Text.trimLeft cs with
  | [] => .error .tooShort
  | d :: rest => if c = d then .ok rest else .error .invalid

/-- Nanoseconds after a point, if there is one. Digits beyond the ninth are dropped. -/
def fraction (cs : List Char) : Except ReadError (Nat × List Char) :=
  match cs with
  | '.' :: rest => do
    let (n, after) ← number 9 rest
    let width := rest.length - after.length
    return (n * 10 ^ (9 - width), after.dropWhile Char.isDigit)
  | cs => .ok (0, cs)

/-- Two digits of an offset. -/
def twoDigits (cs : List Char) : Except ReadError (Nat × Nat × List Char) :=
  match cs with
  | [] => .error .tooShort
  | [c] => if c.utf8Size = 1 then .error .tooShort else .error .invalid
  | c :: d :: rest =>
    if c.isDigit ∧ d.isDigit then .ok (Decimal.digitValue c, Decimal.digitValue d, rest)
    else .error .invalid

/-- The hours and minutes of an offset, in seconds. -/
def offsetAmount (cs : List Char) : Except ReadError (Int × List Char) := do
  let (a, b, rest) ← twoDigits cs
  let (c, d, rest) ← twoDigits (rest.dropWhile fun c => c = ':' || Text.isBlank c)
  if 6 ≤ c then throw .outOfRange
  return (((10 * a + b) * 3600 + (10 * c + d) * 60 : Nat), rest)

/-- The offset from UTC in seconds. -/
def offset (cs : List Char) : Except ReadError (Int × List Char) :=
  match cs with
  | [] => .error .tooShort
  | c :: rest =>
    if c = 'Z' ∨ c = 'z' then .ok (0, rest)
    else if (cs.take 3).map Char.toUpper = ['U', 'T', 'C'] then .ok (0, cs.drop 3)
    else if c = '+' then offsetAmount rest
    else if c = '-' ∨ c = '\u2212' then (fun (n, rest) => (-n, rest)) <$> offsetAmount rest
    else .error .invalid

/-- The parts of a timestamp. -/
structure Parts where
  date : Calendar.Date
  hour : Nat
  minute : Nat
  second : Nat
  nanos : Nat
  offset : Int

/-- The parts that a text names. -/
def parts (cs : List Char) : Except ReadError Parts := do
  let (y, rest) ← year cs
  let rest ← mark '-' rest
  let (m, rest) ← field 1 12 rest
  let rest ← mark '-' rest
  let (d, rest) ← field 1 31 rest
  let rest ← match rest with
    | [] => throw .tooShort
    | c :: rest => if c = 'T' ∨ c = 't' ∨ c = ' ' then pure rest else throw .invalid
  let (hour, rest) ← field 0 23 rest
  let rest ← mark ':' rest
  let (minute, rest) ← field 0 59 rest
  let rest ← mark ':' rest
  let (second, rest) ← field 0 60 rest
  let (nanos, rest) ← fraction rest
  let (o, rest) ← offset (Text.trimLeft rest)
  if (Text.trimLeft rest).isEmpty then return ⟨⟨y, m, d⟩, hour, minute, second, nanos, o⟩
  else throw .trailing

/-- The point in time that parts name. -/
def ofParts (p : Parts) : Except ReadError Timestamp :=
  let (first, last) := yearRange
  if ¬ (p.date.isValid ∧ first ≤ p.date.year ∧ p.date.year ≤ last) then .error .outOfRange
  else if 86400 ≤ p.offset.natAbs then .error .outOfRange
  else
    let (second, nanos) := if p.second = 60 then (59, p.nanos + 1000000000) else (p.second, p.nanos)
    let clock : Int := Calendar.dayNumber p.date * 86400 + p.hour * 3600 + p.minute * 60 + second
    let utc := clock - p.offset
    let y := (Calendar.date (utc / 86400)).year
    if first ≤ y ∧ y ≤ last then .ok ⟨utc, nanos⟩ else .error .impossible

/-- The point in time that a text names. -/
def read (text : String) : Except ReadError Timestamp := do ofParts (← parts text.toList)

end DocWatch.Timestamp
