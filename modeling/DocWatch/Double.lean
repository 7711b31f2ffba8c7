import DocWatch.Decimal

/-!
# Finite binary64 numbers

A double is stored as its sign and its *rank*: its position among the non-negative finite doubles
in increasing order. The rank of a magnitude is the word that stores it, so that comparing
magnitudes is comparing natural numbers.

- `Double.order`: the integer that orders doubles. The two zeros have the same one.
- `Double.units`: the magnitude as a whole number of the smallest positive double, `2 ^ -1074`.
- `Double.rankOfRatio`: the rank nearest to a ratio of two naturals, a tie going to the even rank.
- `Double.ofRatio?`, `Double.ofInt`: rounding of a ratio and of an integer.
- `Double.scale?`: a double times a power of ten, rounded.
- `Double.ofDecimal?`: the double nearest to a decimal.
-/

namespace DocWatch

-- Powers are those of the core library whatever else is imported, so exponents have their type.
attribute [local instance (high)] instPowNat

/-- The rank that the first power of two above all finite doubles would have. -/
def Double.rankLimit : Nat := 2047 * 2 ^ (52 : Nat)

/-- A finite binary64 number, by its sign and the position of its magnitude. -/
structure Double where
  negative : Bool
  rank : Nat
  rank_lt : rank < Double.rankLimit
deriving DecidableEq

namespace Double

/-- The zero with the given sign. -/
def zero (negative : Bool) : Double := ⟨negative, 0, by decide⟩

instance : Inhabited Double := ⟨zero false⟩

/-- The integer that orders doubles; it does not tell the zeros apart. -/
def order (x : Double) : Int := if x.negative then -(x.rank : Int) else x.rank

/-- The power of two that one step of the significand is worth, counted from `2 ^ -1074`. -/
def exponent (x : Double) : Nat := x.rank / 2 ^ (52 : Nat) - 1

/-- The integral significand, below `2 ^ 53`. -/
def significand (x : Double) : Nat :=
  if x.rank < 2 ^ (52 : Nat) then x.rank else 2 ^ (52 : Nat) + x.rank % 2 ^ (52 : Nat)

/-- The magnitude as a multiple of `2 ^ -1074`. -/
def units (x : Double) : Nat := x.significand * 2 ^ x.exponent

/-- Quotient rounded to the nearest natural, a tie going to the even one. -/
def divNearest (n d : Nat) : Nat :=
  let q := n / d
  let r := n % d
  if 2 * r < d then q
  else if d < 2 * r then q + 1
  else q + q % 2

/-- The rank nearest to `n / d`. A significand that rounds up to `2 ^ 53` carries into the exponent
because ranks are consecutive. The result may reach `rankLimit`. -/
def rankOfRatio (n d : Nat) : Nat :=
  let scaled := n * 2 ^ (1074 : Nat)
  let whole := scaled / d
  let e := if whole < 2 ^ (53 : Nat) then 0 else whole.log2 - 52
  e * 2 ^ (52 : Nat) + divNearest scaled (d * 2 ^ e)

/-- The double with the given sign and rank, if that is finite. -/
def ofRank? (negative : Bool) (rank : Nat) : Option Double :=
  if h : rank < rankLimit then some ⟨negative, rank, h⟩ else none

/-- The double nearest to `± n / d`, if that is finite. -/
def ofRatio? (negative : Bool) (n d : Nat) : Option Double :=
  ofRank? negative (rankOfRatio n d)

/-- The double nearest to an integer; integers beyond all doubles give the largest one. -/
def ofInt (i : Int) : Double :=
  let negative := decide (i < 0)
  (ofRatio? negative i.natAbs 1).getD ⟨negative, rankLimit - 1, by decide⟩

/-- The double nearest to a power of ten up to `10 ^ 308`. -/
def tenPow (k : Nat) : Double := ofInt (10 ^ k)

/-- The rounded product, if that is finite. -/
def mul? (x y : Double) : Option Double :=
  ofRatio? (x.negative != y.negative) (x.units * y.units) (2 ^ (2148 : Nat))

/-- The rounded quotient by a double other than zero, if that is finite. -/
def div? (x y : Double) : Option Double :=
  ofRatio? (x.negative != y.negative) x.units y.units

/-- Division by `10 ^ k`, in steps of at most `10 ^ 308`. -/
def divTenPow? (x : Double) (k : Nat) : Option Double :=
  if k ≤ 308 then x.div? (tenPow k)
  else if x.rank = 0 then some x
  else (x.div? (tenPow 308)).bind fun y => y.divTenPow? (k - 308)
termination_by k
decreasing_by omega

/-- Multiplication by `10 ^ e`, each step rounded; `none` if that exceeds all doubles. -/
def scale? (x : Double) (e : Int) : Option Double :=
  match e with
  | .ofNat k =>
    if k ≤ 308 then x.mul? (tenPow k)
    else if x.rank = 0 then some x
    else none
  | .negSucc k => x.divTenPow? (k + 1)

/-- The integer that a double is, if it is one. -/
def toInt? (x : Double) : Option Int :=
  if x.units % 2 ^ (1074 : Nat) = 0 then
    let n : Int := (x.units / 2 ^ (1074 : Nat) : Nat)
    some (if x.negative then -n else n)
  else none

end Double

/-! ## Doubles nearest to decimals

A decimal with `k` digits before its point lies from `10 ^ (k - 1)` up to, but not at, `10 ^ k`.
Beyond `10 ^ 309` there are no finite doubles, and below `10 ^ -324` all decimals round to zero, so
that powers of ten of any size are decided without computing them.
-/

/-- The number of digits before the point; it is negative if zeros follow the point. -/
def Decimal.magnitude (x : Decimal) : Int := (natChars x.digits).length + x.exponent

/-- The double nearest to a decimal, if that is finite. A tie goes to the even rank. -/
def Double.ofDecimal? (negative : Bool) (x : Decimal) : Option Double :=
  if x.digits = 0 ∨ x.magnitude ≤ -324 then some (zero negative)
  else if 309 < x.magnitude then none
  else
    match x.exponent with
    | .ofNat k => ofRatio? negative (x.digits * 10 ^ k) 1
    | .negSucc k => ofRatio? negative x.digits (10 ^ (k + 1))

end DocWatch
