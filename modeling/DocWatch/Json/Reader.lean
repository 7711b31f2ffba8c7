import DocWatch.Decimal
import DocWatch.Json.Basic
import DocWatch.Text

/-!
# Reading JSON text

- `Json.Reader.number?`: a number. Integers of at most 64 bits stay integers. Of a longer or a
  fractional literal the digits that fit a 64-bit word are kept, rounded to a double, and scaled by
  the power of ten.
- `Json.parse?`: a whole text. A key that comes again overwrites the earlier value in its place.
-/

namespace DocWatch.Json.Reader

-- Powers are those of the core library whatever else is imported, so exponents have their type.
attribute [local instance (high)] instPowNat

/-- Skips blanks. -/
def skipBlanks (cs : List Char) : List Char :=
  cs.dropWhile fun c => c = ' ' || c = '\n' || c = '\r' || c = '\t'

/-- Reads digits into a word as long as they fit. The second part counts the digits left over. -/
def fillWord (word : Nat) : List Char → Nat × Nat
  | [] => (word, 0)
  | c :: rest =>
    if 10 * word + Decimal.digitValue c < 2 ^ (64 : Nat) then
      fillWord (10 * word + Decimal.digitValue c) rest
    else (word, rest.length + 1)

/-- The power of ten after `e` or `E`: `none` if no digit follows. -/
def power? (cs : List Char) : Option (Int × List Char) :=
  let (negative, cs) := match cs with
    | '+' :: rest => (false, rest)
    | '-' :: rest => (true, rest)
    | cs => (false, cs)
  match Decimal.span cs with
  | ([], _) => none
  | (ds, rest) => some (if negative then -(Decimal.value ds : Int) else Decimal.value ds, rest)

/-- A double from the digits before and after the point and a power of ten. -/
def double? (negative : Bool) (whole fraction : List Char) (power : Int) : Option Double :=
  let (word, excess) := fillWord 0 whole
  let (word, kept) := if 0 < excess then (word, 0) else
    let (word, dropped) := fillWord word fraction
    (word, fraction.length - dropped)
  ((Double.ofInt word).scale? (power + excess - kept)).map fun x => ⟨negative, x.rank, x.rank_lt⟩

/-- An integer literal: an integer if it fits and is not `-0`, a double otherwise. -/
def integer? (negative : Bool) (ds : List Char) : Option Number :=
  let n := Decimal.value ds
  if negative then
    if h : 0 < n ∧ n ≤ 2 ^ (63 : Nat) then some (.int (-(n : Int)) ⟨by omega, by omega⟩)
    else (double? true ds [] 0).map .double
  else
    if h : n < 2 ^ (64 : Nat) then some (.int n ⟨by omega, by omega⟩)
    else (double? false ds [] 0).map .double

/-- A number at the start of a text. -/
def number? (cs : List Char) : Option (Number × List Char) :=
  let (negative, cs) := match cs with
    | '-' :: rest => (true, rest)
    | cs => (false, cs)
  match Decimal.span cs with
  | ([], _) => none
  | ('0' :: _ :: _, _) => none
  | (whole, rest) =>
    match rest with
    | '.' :: rest =>
      match Decimal.span rest with
      | ([], _) => none
      | (fraction, rest) =>
        match rest with
        | 'e' :: rest | 'E' :: rest => do
          let (power, rest) ← power? rest
          return (.double (← double? negative whole fraction power), rest)
        | rest => do return (.double (← double? negative whole fraction 0), rest)
    | 'e' :: rest | 'E' :: rest => do
      let (power, rest) ← power? rest
      return (.double (← double? negative whole [] power), rest)
    | rest => do return (← integer? negative whole, rest)

/-- Four hexadecimal digits. -/
def unit? : List Char → Option (Nat × List Char)
  | a :: b :: c :: d :: rest => do
    let a ← Text.hexValue? a
    let b ← Text.hexValue? b
    let c ← Text.hexValue? c
    let d ← Text.hexValue? d
    return (a * 4096 + b * 256 + c * 16 + d, rest)
  | _ => none

/-- The character of an escape, after the backslash. Code units above the basic plane come in
pairs; one without the other is refused. -/
def escaped? : List Char → Option (Char × List Char)
  | '"' :: rest => some ('"', rest)
  | '\\' :: rest => some ('\\', rest)
  | '/' :: rest => some ('/', rest)
  | 'b' :: rest => some ('\x08', rest)
  | 'f' :: rest => some ('\x0c', rest)
  | 'n' :: rest => some ('\n', rest)
  | 'r' :: rest => some ('\r', rest)
  | 't' :: rest => some ('\t', rest)
  | 'u' :: rest => do
    let (n, rest) ← unit? rest
    if n < 0xD800 ∨ 0xE000 ≤ n then return (Char.ofNat n, rest)
    else if 0xDC00 ≤ n then none
    else match rest with
      | '\\' :: 'u' :: rest => do
        let (m, rest) ← unit? rest
        if 0xDC00 ≤ m ∧ m < 0xE000 then
          return (Char.ofNat (0x10000 + (n - 0xD800) * 1024 + (m - 0xDC00)), rest)
        else none
      | _ => none
  | _ => none

/-- The rest of a string after its opening quote. -/
def string? : Nat → List Char → Option (List Char × List Char)
  | 0, _ => none
  | fuel + 1, cs =>
    match cs with
    | [] => none
    | '"' :: rest => some ([], rest)
    | '\\' :: rest => do
      let (c, rest) ← escaped? rest
      let (s, rest) ← string? fuel rest
      return (c :: s, rest)
    | c :: rest =>
      if c.toNat < 32 then none
      else do
        let (s, rest) ← string? fuel rest
        return (c :: s, rest)

/-- A key with the colon after it. -/
def key? (cs : List Char) : Option (String × List Char) :=
  match skipBlanks cs with
  | '"' :: rest => do
    let (k, rest) ← string? (rest.length + 1) rest
    match skipBlanks rest with
    | ':' :: rest => return (String.ofList k, rest)
    | _ => none
  | _ => none

mutual

/-- A value at the start of a text. -/
def value? : Nat → List Char → Option (Json × List Char)
  | 0, _ => none
  | fuel + 1, cs =>
    match skipBlanks cs with
    | '"' :: rest => do
      let (s, rest) ← string? (rest.length + 1) rest
      return (.str (String.ofList s), rest)
    | '[' :: rest =>
      match skipBlanks rest with
      | ']' :: rest => some (.arr [], rest)
      | rest => do
        let (items, rest) ← items? fuel rest
        return (.arr items, rest)
    | '\x7b' :: rest =>
      match skipBlanks rest with
      | '\x7d' :: rest => some (.obj [], rest)
      | rest => do
        let (fields, rest) ← fields? fuel [] rest
        return (.obj fields, rest)
    | 'n' :: rest => (Text.word? "ull".toList rest).map (.null, ·)
    | 't' :: rest => (Text.word? "rue".toList rest).map (.bool true, ·)
    | 'f' :: rest => (Text.word? "alse".toList rest).map (.bool false, ·)
    | cs => (number? cs).map fun (n, rest) => (.num n, rest)

/-- The elements of an array up to its closing bracket. -/
def items? : Nat → List Char → Option (List Json × List Char)
  | 0, _ => none
  | fuel + 1, cs => do
    let (v, rest) ← value? fuel cs
    match skipBlanks rest with
    | ',' :: rest => do
      let (items, rest) ← items? fuel rest
      return (v :: items, rest)
    | ']' :: rest => return ([v], rest)
    | _ => none

/-- The members of an object up to its closing brace, added to those already read. -/
def fields? : Nat → Members Json → List Char → Option (Members Json × List Char)
  | 0, _, _ => none
  | fuel + 1, fields, cs => do
    let (k, rest) ← key? cs
    let (v, rest) ← value? fuel rest
    match skipBlanks rest with
    | ',' :: rest => fields? fuel (fields.insert k v) rest
    | '\x7d' :: rest => return (fields.insert k v, rest)
    | _ => none

end

end DocWatch.Json.Reader

namespace DocWatch

/-- The value that a text spells, blanks around it allowed. -/
def Json.parse? (text : String) : Option Json := do
  let cs := text.toList
  let (v, rest) ← Json.Reader.value? (2 * cs.length + 1) cs
  if (Json.Reader.skipBlanks rest).isEmpty then some v else none

end DocWatch
