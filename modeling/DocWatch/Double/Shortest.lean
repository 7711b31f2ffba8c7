import DocWatch.Decimal
import DocWatch.Double

/-!
# Shortest decimals

The decimal of a double is the shortest that reads back as it, and among those of one length the
nearest. The reals that round to a double form an interval, whose ends belong to it when its rank
is even. A decimal grid meets that interval only if one of the two grid points around the double
does, so it is enough to look at those two for one digit, two digits, and so on.

- `Double.shortest`: the decimal of a double other than zero.
-/

namespace DocWatch

-- Powers are those of the core library whatever else is imported, so exponents have their type.
attribute [local instance (high)] instPowNat

namespace Double

/-- Numerator over denominator of a quarter of `2 ^ -1074` times `n`, on a grid of step
`10 ^ e`. -/
def onGrid (n : Nat) (e : Int) : Nat × Nat :=
  match e with
  | .ofNat k => (n, 2 ^ (1076 : Nat) * 10 ^ k)
  | .negSucc k => (n * 10 ^ (k + 1), 2 ^ (1076 : Nat))

/-- Is `c` steps of `10 ^ e` within the interval of reals that round to this double? Distances are
counted in quarters of `2 ^ -1074`; below a power of two the neighbour is half as far. -/
def roundsFrom (x : Double) (c : Nat) (e : Int) : Bool :=
  let step := 2 ^ x.exponent
  let low := 4 * x.units -
    (if x.significand = 2 ^ (52 : Nat) ∧ 0 < x.exponent then step else 2 * step)
  let high := 4 * x.units + 2 * step
  let (l, d) := onGrid low e
  let (h, _) := onGrid high e
  if x.rank % 2 = 0 then l ≤ c * d && c * d ≤ h else l < c * d && c * d < h

/-- The point of the grid of step `10 ^ e` that reads back as this double, the nearer one if both
neighbours do, and the even one if they are equally near. -/
def gridPoint? (x : Double) (e : Int) : Option Nat :=
  let (n, d) := onGrid (4 * x.units) e
  let below := n / d
  let r := n % d
  let above := if r = 0 then below else below + 1
  match x.roundsFrom below e, x.roundsFrom above e with
  | true, true => some (if 2 * r < d then below else if d < 2 * r then above
      else below + below % 2)
  | true, false => some below
  | false, true => some above
  | false, false => none

/-- The least `k`, at most `fuel` above the given one, for which `n * 10 ^ k` reaches `d`. -/
def stepsToReach (n d : Nat) : Nat → Nat → Nat
  | 0, k => k
  | fuel + 1, k => if d ≤ n * 10 ^ k then k else stepsToReach n d fuel (k + 1)

/-- The power of ten of the leading digit of a positive ratio not below `10 ^ -400`. -/
def leadingPower (n d : Nat) : Int :=
  if d ≤ n then ((Nat.toDigits 10 (n / d)).length : Int) - 1 else -(stepsToReach n d 400 1 : Int)

/-- Tries grids from coarse to fine. -/
def shortestFrom (x : Double) (top : Int) : Nat → Nat → Decimal
  | 0, k => ⟨(x.gridPoint? (top - k)).getD 0, top - k⟩
  | fuel + 1, k =>
    match x.gridPoint? (top - k) with
    | some c => if 0 < c then ⟨c, top - k⟩ else shortestFrom x top fuel (k + 1)
    | none => shortestFrom x top fuel (k + 1)

/-- The shortest decimal that reads back as the magnitude of a double other than zero. -/
def shortest (x : Double) : Decimal :=
  let top := leadingPower x.units (2 ^ (1074 : Nat))
  Decimal.stripZeros 20 (x.shortestFrom top 17 0)

end Double
end DocWatch
