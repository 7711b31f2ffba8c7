/-!
# Decimal notation

- `Decimal.natChars`, `Decimal.intChars`: how integers are written.
- `Decimal.value`: what digits spell.
- `Decimal`: digits and a power of ten.
-/

namespace DocWatch

/-- The number `digits * 10 ^ exponent`. -/
structure Decimal where
  digits : Nat
  exponent : Int
deriving DecidableEq, Repr

namespace Decimal

/-- The digits of a natural number. -/
def natChars (n : Nat) : List Char := Nat.toDigits 10 n

/-- The text of an integer. -/
def intChars : Int → List Char
  | .ofNat n => natChars n
  | .negSucc n => '-' :: natChars (n + 1)

/-- The value of one digit. -/
def digitValue (c : Char) : Nat := c.toNat - '0'.toNat

/-- The number that digits spell. -/
def value (digits : List Char) : Nat := digits.foldl (fun n c => 10 * n + digitValue c) 0

/-- The digits at the start of a text, and the rest. -/
def span (cs : List Char) : List Char × List Char := cs.span Char.isDigit

/-- Removes the zeros at the end of the digits, at most `limit` of them. -/
def stripZeros : Nat → Decimal → Decimal
  | 0, x => x
  | limit + 1, x =>
    if x.digits ≠ 0 ∧ x.digits % 10 = 0 then stripZeros limit ⟨x.digits / 10, x.exponent + 1⟩
    else x

end Decimal
end DocWatch
