import DocWatch.Double.Shortest
import DocWatch.Json.Basic

/-!
# Compact text of JSON values

Members and elements in order, no blanks. Signatures of queries, error messages and identities use
this text, so it is fixed to the character.

- `Double.chars`: positional from `10 ^ -5` up to below `10 ^ 16`, scientific outside.
- `Json.chars`, `Json.text`: the text of a value, as characters and as a string.
-/

namespace DocWatch

namespace Double

/-- Least power of ten of a leading digit that is written positionally. -/
def positionalFrom : Int := -5

/-- Least power of ten of a leading digit beyond that is no longer written positionally. -/
def positionalBelow : Int := 16

/-- Digits with a point after the first `whole` of them, and always a digit on either side of it. -/
def positional (digits : List Char) (whole : Int) : List Char :=
  match whole with
  | .ofNat 0 => '0' :: '.' :: digits
  | .ofNat w =>
    if digits.length ≤ w then digits ++ List.replicate (w - digits.length) '0' ++ ['.', '0']
    else digits.take w ++ '.' :: digits.drop w
  | .negSucc k => '0' :: '.' :: (List.replicate (k + 1) '0' ++ digits)

/-- Digits with a point after the first one, if there are more, and a power of ten with its sign. -/
def scientific (digits : List Char) (power : Int) : List Char :=
  let mantissa := match digits with
    | [] => []
    | [c] => [c]
    | c :: rest => c :: '.' :: rest
  let sign := if power < 0 then '-' else '+'
  mantissa ++ 'e' :: sign :: Decimal.natChars power.natAbs

/-- The text of a double without its sign. -/
def magnitudeChars (x : Double) : List Char :=
  if x.rank = 0 then ['0', '.', '0']
  else
    let d := x.shortest
    let digits := Decimal.natChars d.digits
    let leading := d.exponent + digits.length - 1
    if positionalFrom ≤ leading ∧ leading < positionalBelow then positional digits (leading + 1)
    else scientific digits leading

/-- The text of a double: the shortest decimal that reads back. -/
def chars (x : Double) : List Char :=
  if x.negative then '-' :: x.magnitudeChars else x.magnitudeChars

end Double

/-- The text of a number. An integer has no point, a double always has a point or a power. -/
def Number.chars : Number → List Char
  | .int i _ => Decimal.intChars i
  | .double x => x.chars

namespace Json

/-- A hexadecimal digit in lower case. -/
def hexDigit (n : Nat) : Char := Nat.digitChar n

/-- How a character stands inside a string: quote, backslash and control characters are escaped. -/
def escape (c : Char) : List Char :=
  if c = '"' then ['\\', '"']
  else if c = '\\' then ['\\', '\\']
  else if c = '\x08' then ['\\', 'b']
  else if c = '\x0c' then ['\\', 'f']
  else if c = '\n' then ['\\', 'n']
  else if c = '\r' then ['\\', 'r']
  else if c = '\t' then ['\\', 't']
  else if c.toNat < 32 then ['\\', 'u', '0', '0', hexDigit (c.toNat / 16), hexDigit (c.toNat % 16)]
  else [c]

/-- A string in quotes. -/
def quote (s : String) : List Char := '"' :: (s.toList.flatMap escape ++ ['"'])

mutual

/-- The characters of the compact text of a value. -/
def chars : Json → List Char
  | .null => "null".toList
  | .bool true => "true".toList
  | .bool false => "false".toList
  | .num n => n.chars
  | .str s => quote s
  | .arr items => '[' :: (itemsChars items ++ [']'])
  | .obj fields => '\x7b' :: (fieldsChars fields ++ ['\x7d'])

/-- Elements with commas between them. -/
def itemsChars : List Json → List Char
  | [] => []
  | [v] => v.chars
  | v :: rest => v.chars ++ ',' :: itemsChars rest

/-- Members with commas between them. -/
def fieldsChars : Members Json → List Char
  | [] => []
  | [(k, v)] => quote k ++ ':' :: v.chars
  | (k, v) :: rest => quote k ++ ':' :: (v.chars ++ ',' :: fieldsChars rest)

end

/-- The compact text of a value. -/
def text (v : Json) : String := String.ofList v.chars

end Json
end DocWatch
