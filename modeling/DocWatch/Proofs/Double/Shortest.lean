import DocWatch.Double.Shortest
import DocWatch.Proofs.Double
import Mathlib.Algebra.Order.Field.Power
import Mathlib.Data.Rat.Cast.Order
import Mathlib.Tactic.FieldSimp
import Mathlib.Tactic.Linarith
import Mathlib.Tactic.Positivity
import Mathlib.Tactic.Ring

/-!
# The shortest decimal tells doubles apart

The reals that round to a double reach half-way to the doubles next to it, and a point half-way
belongs to the one with the even rank. So no real rounds to two magnitudes. Seventeen digits are
always enough to come so near to a double, so that the decimal that is found does round to it.

- `Double.unitsOf`, `Double.unitsOf_succ`: the steps from one double to the next.
- `Double.Rounds`: the reals that round to a double, in quarters of `2 ^ -1074`.
- `Double.rank_eq_of_rounds`: they round to no other magnitude.
- `Double.rounds_shortest`: the shortest decimal is among them.
-/

namespace DocWatch

/-- The value of a decimal. -/
def Decimal.toRat (x : Decimal) : ℚ := x.digits * (10 : ℚ) ^ x.exponent

/-- Removing zeros at the end of the digits does not change the value. -/
theorem Decimal.toRat_stripZeros (limit : Nat) (x : Decimal) :
    (Decimal.stripZeros limit x).toRat = x.toRat := by
  induction limit generalizing x with
  | zero => rfl
  | succ limit ih =>
    rw [Decimal.stripZeros]
    split
    · rename_i h
      rw [ih, Decimal.toRat, Decimal.toRat, zpow_add_one₀ (by norm_num)]
      obtain ⟨q, hq⟩ := Nat.dvd_of_mod_eq_zero h.2
      rw [hq, Nat.mul_div_cancel_left q (by decide)]
      push_cast
      ring
    · rfl

namespace Double

/-! ## From one double to the next -/

/-- The magnitude with a rank, as a multiple of `2 ^ -1074`. -/
def unitsOf (rank : Nat) : Nat :=
  (if rank < 2 ^ 52 then rank else 2 ^ 52 + rank % 2 ^ 52) * 2 ^ (rank / 2 ^ 52 - 1)

theorem units_eq (x : Double) : x.units = unitsOf x.rank := rfl

/-- The next magnitude is one step of the significand away. -/
theorem unitsOf_succ (rank : Nat) :
    unitsOf (rank + 1) = unitsOf rank + 2 ^ (rank / 2 ^ 52 - 1) := by
  generalize hnext : rank + 1 = next
  unfold unitsOf
  by_cases hcarry : next % 2 ^ 52 = 0
  · -- the significand carries into the exponent
    have hdiv : next / 2 ^ 52 = rank / 2 ^ 52 + 1 := by omega
    have hmod : rank % 2 ^ 52 = 2 ^ 52 - 1 := by omega
    rw [if_neg (by omega), hcarry, hdiv, Nat.add_sub_cancel]
    by_cases hsmall : rank < 2 ^ 52
    · have hzero : rank / 2 ^ 52 = 0 := by omega
      rw [if_pos hsmall, hzero]
      omega
    · obtain ⟨p, hp⟩ : ∃ p, rank / 2 ^ 52 = p + 1 := ⟨rank / 2 ^ 52 - 1, by omega⟩
      rw [if_neg hsmall, hp, hmod, Nat.add_sub_cancel, Nat.pow_succ 2 p]
      generalize 2 ^ p = step
      omega
  · have hdiv : next / 2 ^ 52 = rank / 2 ^ 52 := by omega
    have hmod : next % 2 ^ 52 = rank % 2 ^ 52 + 1 := by omega
    rw [hdiv, hmod]
    generalize 2 ^ (rank / 2 ^ 52 - 1) = step
    by_cases hsmall : rank < 2 ^ 52
    · rw [if_pos (by omega), if_pos hsmall, ← hnext, Nat.add_mul, Nat.one_mul]
    · rw [if_neg (by omega), if_neg hsmall, ← Nat.add_assoc, Nat.add_mul _ 1, Nat.one_mul]

theorem unitsOf_strictMono : StrictMono unitsOf :=
  strictMono_nat_of_lt_succ fun rank => by
    rw [unitsOf_succ]
    exact Nat.lt_add_of_pos_right (Nat.two_pow_pos _)

theorem significand_lt (x : Double) : x.significand < 2 ^ 53 := by
  unfold significand
  split <;> omega

/-! ## The reals that round to a double -/

/-- The lower end of the reals that round to a double, in quarters of `2 ^ -1074`. -/
def low (x : Double) : Nat :=
  4 * x.units -
    if x.significand = 2 ^ 52 ∧ 0 < x.exponent then 2 ^ x.exponent else 2 * 2 ^ x.exponent

/-- The upper end. -/
def high (x : Double) : Nat := 4 * x.units + 2 * 2 ^ x.exponent

/-- The upper end is half-way to the next double. -/
theorem high_eq (x : Double) : x.high = 2 * (unitsOf x.rank + unitsOf (x.rank + 1)) := by
  rw [high, units_eq, unitsOf_succ, exponent]
  generalize 2 ^ (x.rank / 2 ^ 52 - 1) = step
  omega

/-- The lower end is half-way from the previous one. -/
theorem low_eq {x : Double} (h : x.rank ≠ 0) :
    x.low = 2 * (unitsOf (x.rank - 1) + unitsOf x.rank) := by
  obtain ⟨rank, hrank⟩ := Nat.exists_eq_succ_of_ne_zero h
  have hstep := unitsOf_succ rank
  have hcond : (x.significand = 2 ^ 52 ∧ 0 < x.exponent) ↔
      x.rank % 2 ^ 52 = 0 ∧ 2 * 2 ^ 52 ≤ x.rank := by
    rw [significand, exponent]
    constructor
    · rintro ⟨hsig, hexp⟩
      split at hsig <;> omega
    · rintro ⟨hmod, hle⟩
      rw [if_neg (by omega)]
      omega
  rw [low, units_eq, hrank, Nat.succ_eq_add_one, Nat.add_sub_cancel, hstep]
  rw [hrank, Nat.succ_eq_add_one] at hcond
  by_cases hpower : x.significand = 2 ^ 52 ∧ 0 < x.exponent
  · -- below a power of two, steps are half as wide
    obtain ⟨hmod, hle⟩ := hcond.mp hpower
    have hexp : x.exponent = rank / 2 ^ 52 - 1 + 1 := by
      rw [exponent, hrank]
      omega
    rw [if_pos hpower, hexp]
    generalize rank / 2 ^ 52 - 1 = e
    rw [Nat.pow_succ]
    omega
  · have hexp : x.exponent = rank / 2 ^ 52 - 1 := by
      rw [hcond] at hpower
      rw [exponent, hrank]
      omega
    rw [if_neg hpower, hexp]
    generalize 2 ^ (rank / 2 ^ 52 - 1) = step
    omega

/-- Does a real, in quarters of `2 ^ -1074`, round to the magnitude of the double? -/
def Rounds (x : Double) (v : ℚ) : Prop :=
  if x.rank % 2 = 0 then x.low ≤ v ∧ v ≤ x.high else x.low < v ∧ v < x.high

theorem Rounds.le {x : Double} {v : ℚ} (h : x.Rounds v) : x.low ≤ v ∧ v ≤ x.high := by
  unfold Rounds at h
  split at h
  · exact h
  · exact ⟨h.1.le, h.2.le⟩

/-- A real that rounds to a double other than zero is positive. -/
theorem Rounds.pos {x : Double} {v : ℚ} (h : x.Rounds v) (hx : x.rank ≠ 0) : 0 < v := by
  have hunits : 0 < unitsOf x.rank :=
    Nat.lt_of_le_of_lt (Nat.zero_le _) (unitsOf_strictMono (Nat.pos_of_ne_zero hx))
  have hlow : 0 < x.low := by
    rw [low_eq hx]
    omega
  exact lt_of_lt_of_le (by exact_mod_cast hlow) h.le.1

/-- The reals that round to a double lie below those that round to a greater one. -/
theorem not_rounds_of_lt {x y : Double} (hlt : x.rank < y.rank) {v : ℚ} (hx : x.Rounds v) :
    ¬ y.Rounds v := by
  intro hy
  have hhigh := high_eq x
  have hlow := low_eq (show y.rank ≠ 0 by omega)
  have hends : x.high ≤ y.low := by
    have hfirst : unitsOf x.rank ≤ unitsOf (y.rank - 1) :=
      unitsOf_strictMono.monotone (by omega)
    have hsecond : unitsOf (x.rank + 1) ≤ unitsOf y.rank := unitsOf_strictMono.monotone hlt
    omega
  have hmeet : (x.high : ℚ) ≤ y.low := by exact_mod_cast hends
  by_cases hnext : y.rank = x.rank + 1
  · -- of two neighbours one is odd, and does not reach its ends
    by_cases heven : x.rank % 2 = 0
    · rw [Rounds, if_neg (by omega)] at hy
      linarith [hx.le.2, hy.1]
    · rw [Rounds, if_neg heven] at hx
      linarith [hx.2, hy.le.1]
  · have hgap : x.high < y.low := by
      have hfirst : unitsOf x.rank < unitsOf (y.rank - 1) := unitsOf_strictMono (by omega)
      have hsecond : unitsOf (x.rank + 1) < unitsOf y.rank := unitsOf_strictMono (by omega)
      omega
    have hgap' : (x.high : ℚ) < y.low := by exact_mod_cast hgap
    linarith [hx.le.2, hy.le.1]

/-- No real rounds to two magnitudes. -/
theorem rank_eq_of_rounds {x y : Double} {v : ℚ} (hx : x.Rounds v) (hy : y.Rounds v) :
    x.rank = y.rank := by
  rcases Nat.lt_trichotomy x.rank y.rank with hlt | heq | hlt
  · exact absurd hy (not_rounds_of_lt hlt hx)
  · exact heq
  · exact absurd hx (not_rounds_of_lt hlt hy)

/-! ## Grids of decimals -/

/-- A point of a decimal grid, in quarters of `2 ^ -1074`. -/
def quarters (c : Nat) (e : Int) : ℚ := c * (10 : ℚ) ^ e * 2 ^ 1076

/-- What is compared on a grid are the values, up to a common factor. -/
theorem exists_onGrid (e : Int) : ∃ factor : ℚ, 0 < factor ∧
    (∀ n, ((onGrid n e).1 : ℚ) = n * factor) ∧
    ∀ n c, ((c * (onGrid n e).2 : Nat) : ℚ) = quarters c e * factor := by
  cases e with
  | ofNat k =>
    refine ⟨1, one_pos, fun n => by rw [onGrid, mul_one], fun n c => ?_⟩
    rw [onGrid, quarters, mul_one, Int.ofNat_eq_natCast, zpow_natCast]
    generalize 1076 = bits
    push_cast
    ring
  | negSucc k =>
    have hten : (10 : ℚ) ^ (k + 1) ≠ 0 := by positivity
    refine ⟨10 ^ (k + 1), by positivity, fun n => by rw [onGrid]; push_cast; rfl, fun n c => ?_⟩
    rw [onGrid, quarters, zpow_negSucc]
    generalize 1076 = bits
    push_cast
    field_simp

/-- The test of a grid point asks whether its value rounds to the double. -/
theorem roundsFrom_iff (x : Double) (c : Nat) (e : Int) :
    x.roundsFrom c e = true ↔ x.Rounds (quarters c e) := by
  obtain ⟨factor, hpos, hvalue, hpoint⟩ := exists_onGrid e
  have hle : ∀ n n' : Nat, (onGrid n e).1 ≤ c * (onGrid n' e).2 ↔ (n : ℚ) ≤ quarters c e := by
    intro n n'
    rw [← Nat.cast_le (α := ℚ), hvalue, hpoint, mul_le_mul_iff_of_pos_right hpos]
  have hge : ∀ n n' : Nat, c * (onGrid n' e).2 ≤ (onGrid n e).1 ↔ quarters c e ≤ n := by
    intro n n'
    rw [← Nat.cast_le (α := ℚ), hvalue, hpoint, mul_le_mul_iff_of_pos_right hpos]
  have htest : x.roundsFrom c e =
      if x.rank % 2 = 0 then
        decide ((onGrid x.low e).1 ≤ c * (onGrid x.low e).2) &&
          decide (c * (onGrid x.low e).2 ≤ (onGrid x.high e).1)
      else
        decide ((onGrid x.low e).1 < c * (onGrid x.low e).2) &&
          decide (c * (onGrid x.low e).2 < (onGrid x.high e).1) := rfl
  rw [htest, Rounds]
  split
  · rw [Bool.and_eq_true, decide_eq_true_iff, decide_eq_true_iff, hle, hge]
  · rw [Bool.and_eq_true, decide_eq_true_iff, decide_eq_true_iff, ← Nat.not_le, ← Nat.not_le, hge,
      hle, not_le, not_le]

/-- The grid point that is not below a double, and nearest to it. -/
def above (x : Double) (e : Int) : Nat :=
  let (n, d) := onGrid (4 * x.units) e
  if n % d = 0 then n / d else n / d + 1

/-- The quotient that is rounded up. -/
theorem le_roundUp (n : Nat) {d : Nat} (hd : 0 < d) :
    n ≤ (if n % d = 0 then n / d else n / d + 1) * d ∧
      (if n % d = 0 then n / d else n / d + 1) * d < n + d := by
  have hdivmod := Nat.div_add_mod' n d
  have hmod := Nat.mod_lt n hd
  split
  · omega
  · rw [Nat.add_mul, Nat.one_mul]
    omega

/-- The point above a double is less than one step of the grid away. -/
theorem quarters_above (x : Double) (e : Int) :
    (4 * x.units : ℚ) ≤ quarters (x.above e) e ∧
      quarters (x.above e) e < 4 * x.units + quarters 1 e := by
  obtain ⟨factor, hpos, hvalue, hpoint⟩ := exists_onGrid e
  have hn : ((onGrid (4 * x.units) e).1 : ℚ) = 4 * x.units * factor := by
    rw [hvalue]
    push_cast
    rfl
  have hd : ((onGrid (4 * x.units) e).2 : ℚ) = quarters 1 e * factor := by
    rw [← hpoint (4 * x.units) 1, Nat.one_mul]
  have hstep : 0 < quarters 1 e := by
    unfold quarters
    positivity
  have hd0 : 0 < (onGrid (4 * x.units) e).2 := by
    rw [← Nat.cast_pos (α := ℚ), hd]
    positivity
  obtain ⟨hlower, hupper⟩ := le_roundUp (onGrid (4 * x.units) e).1 hd0
  rw [← Nat.cast_le (α := ℚ)] at hlower
  rw [← Nat.cast_lt (α := ℚ), Nat.cast_add] at hupper
  have habove : ((x.above e * (onGrid (4 * x.units) e).2 : Nat) : ℚ) =
      quarters (x.above e) e * factor := hpoint _ _
  constructor
  · refine le_of_mul_le_mul_right ?_ hpos
    rw [← hn, ← habove]
    exact hlower
  · refine lt_of_mul_lt_mul_right ?_ hpos.le
    rw [add_mul, ← hn, ← hd, ← habove]
    exact hupper

/-- A point that is answered rounds to the double; there is none only if the point above does
not. -/
theorem gridPoint?_cases (x : Double) (e : Int) :
    (∃ c, x.gridPoint? e = some c ∧ x.roundsFrom c e = true) ∨
      x.gridPoint? e = none ∧ x.roundsFrom (x.above e) e = false := by
  unfold gridPoint? above
  cases onGrid (4 * x.units) e with
  | mk n d =>
  simp only
  cases hbelow : x.roundsFrom (n / d) e with
  | false =>
    cases habove : x.roundsFrom (if n % d = 0 then n / d else n / d + 1) e with
    | false => exact .inr ⟨rfl, rfl⟩
    | true => exact .inl ⟨_, rfl, habove⟩
  | true =>
    cases habove : x.roundsFrom (if n % d = 0 then n / d else n / d + 1) e with
    | false => exact .inl ⟨_, rfl, hbelow⟩
    | true =>
      refine .inl ⟨_, rfl, ?_⟩
      by_cases hsmall : 2 * (n % d) < d
      · rw [if_pos hsmall]
        exact hbelow
      by_cases hlarge : d < 2 * (n % d)
      · rw [if_neg hsmall, if_pos hlarge]
        exact habove
      -- half-way between the two, the even one is taken
      rw [if_neg hsmall, if_neg hlarge]
      rcases Nat.mod_two_eq_zero_or_one (n / d) with heven | hodd
      · rw [heven, Nat.add_zero]
        exact hbelow
      · rw [hodd]
        by_cases hzero : n % d = 0
        · have hd : d = 0 := by omega
          rw [hd, Nat.div_zero] at hodd
          cases hodd
        · rwa [if_neg hzero] at habove

/-- On a grid that is fine enough there is a point that rounds to the double. -/
theorem exists_gridPoint? {x : Double} (hx : x.rank ≠ 0) {e : Int}
    (hfine : quarters 1 e ≤ 2 * 2 ^ x.exponent) : ∃ c, x.gridPoint? e = some c := by
  rcases x.gridPoint?_cases e with ⟨c, hc, -⟩ | ⟨-, habove⟩
  · exact ⟨c, hc⟩
  · obtain ⟨hlower, hupper⟩ := x.quarters_above e
    have hlow : (x.low : ℚ) < 4 * x.units := by
      have hunits : unitsOf (x.rank - 1) < unitsOf x.rank := unitsOf_strictMono (by omega)
      have hlow' : x.low < 4 * x.units := by
        rw [low_eq hx, units_eq]
        omega
      exact_mod_cast hlow'
    have hhigh : (x.high : ℚ) = 4 * x.units + 2 * 2 ^ x.exponent := by
      rw [high]
      push_cast
      rfl
    have hrounds : x.Rounds (quarters (x.above e) e) := by
      unfold Rounds
      split
      · exact ⟨by linarith, by linarith⟩
      · exact ⟨by linarith, by linarith⟩
    rw [(roundsFrom_iff _ _ _).mpr hrounds] at habove
    cases habove

/-! ## The search -/

/-- If the finest of the grids has a point that rounds to the double, one is found. -/
theorem roundsFrom_shortestFrom {x : Double} {top : Int} (fuel k : Nat) {c : Nat}
    (h : x.gridPoint? (top - (k + fuel : Nat)) = some c) :
    x.roundsFrom (x.shortestFrom top fuel k).digits (x.shortestFrom top fuel k).exponent =
      true := by
  have hanswer : ∀ {e : Int} {c : Nat}, x.gridPoint? e = some c → x.roundsFrom c e = true := by
    intro e c hc
    rcases x.gridPoint?_cases e with ⟨c', hc', hrounds⟩ | ⟨hnone, -⟩
    · rwa [Option.some.inj (hc.symm.trans hc')]
    · cases hc.symm.trans hnone
  induction fuel generalizing k with
  | zero =>
    rw [Nat.add_zero] at h
    rw [shortestFrom, h]
    exact hanswer h
  | succ fuel ih =>
    have hrest := ih (k + 1) (by rwa [Nat.add_assoc, Nat.add_comm 1 fuel])
    rw [shortestFrom]
    cases hk : x.gridPoint? (top - k) with
    | none => exact hrest
    | some c' =>
      by_cases hpos : 0 < c'
      · simp only [hpos, if_true]
        exact hanswer hk
      · simp only [hpos, if_false]
        exact hrest

/-! ## The leading digit -/

-- From here on powers are those of the core library, as in the terms that the search computes with.
attribute [local instance (high)] instPowNat

/-- The least power that reaches is among those that are tried. -/
theorem le_stepsToReach {n d k : Nat} (h : d ≤ n * 10 ^ k) (fuel start : Nat)
    (hk : k ≤ start + fuel) : d ≤ n * 10 ^ stepsToReach n d fuel start := by
  induction fuel generalizing start with
  | zero => exact h.trans (Nat.mul_le_mul_left n (Nat.pow_le_pow_right (by decide) hk))
  | succ fuel ih =>
    rw [stepsToReach]
    split
    · assumption
    · exact ih (start + 1) (by omega)

/-- A number is not below the power of ten of its leading digit, in units of a power of two. -/
theorem leadingPower_le {n bits k : Nat} (hk : k ≤ 1 + 400) (h : 2 ^ bits ≤ n * 10 ^ k) :
    (10 : ℚ) ^ leadingPower n (2 ^ bits) * 2 ^ bits ≤ n := by
  unfold leadingPower
  by_cases hle : 2 ^ bits ≤ n
  · have hpos : 0 < n / 2 ^ bits := Nat.div_pos hle (Nat.two_pow_pos bits)
    obtain ⟨len, hlen⟩ : ∃ len, (Nat.toDigits 10 (n / 2 ^ bits)).length = len + 1 :=
      ⟨_, (Nat.succ_pred_eq_of_pos Nat.length_toDigits_pos).symm⟩
    have hpow : 10 ^ len ≤ n / 2 ^ bits := by
      cases len with
      | zero => exact hpos
      | succ len =>
        refine Nat.not_lt.mp fun hlt => ?_
        have hshort := (Nat.length_toDigits_le_iff (by decide) (Nat.succ_pos len)).mpr hlt
        omega
    have hmul : 10 ^ len * 2 ^ bits ≤ n := (Nat.le_div_iff_mul_le (Nat.two_pow_pos bits)).mp hpow
    rw [if_pos hle, hlen, Nat.cast_succ, add_sub_cancel_right, zpow_natCast]
    exact_mod_cast hmul
  · have hreach := le_stepsToReach h 400 1 hk
    rw [if_neg hle, zpow_neg, zpow_natCast]
    generalize stepsToReach n (2 ^ bits) 400 1 = steps at hreach ⊢
    rw [inv_mul_le_iff₀ (by positivity), mul_comm]
    exact_mod_cast hreach

/-- Seventeen digits are enough. -/
theorem quarters_finest {x : Double} {top : Int} (h : (10 : ℚ) ^ top * 2 ^ 1074 ≤ x.units) :
    quarters 1 (top - 17) ≤ 2 * 2 ^ x.exponent := by
  have hsignificand : (x.significand : ℚ) ≤ 2 ^ 53 := by
    exact_mod_cast (significand_lt x).le
  have hunits : (x.units : ℚ) = x.significand * 2 ^ x.exponent := by
    rw [units]
    push_cast
    rfl
  have hstep : (0 : ℚ) < 2 ^ x.exponent := by positivity
  have hscaled : quarters 1 (top - 17) = (10 : ℚ) ^ top * 2 ^ 1074 * (4 / 10 ^ 17) := by
    have hfour : ∀ n : Nat, (2 : ℚ) ^ (n + 2) = 2 ^ n * 4 := fun n => by
      rw [pow_add]
      norm_num
    have hquarter : (2 : ℚ) ^ 1076 = 2 ^ 1074 * 4 := hfour 1074
    rw [quarters, zpow_sub₀ (by norm_num), hquarter]
    generalize (2 : ℚ) ^ 1074 = one
    norm_num
    ring
  calc quarters 1 (top - 17) = (10 : ℚ) ^ top * 2 ^ 1074 * (4 / 10 ^ 17) := hscaled
    _ ≤ x.units * (4 / 10 ^ 17) := mul_le_mul_of_nonneg_right h (by norm_num)
    _ = x.significand * 2 ^ x.exponent * (4 / 10 ^ 17) := by rw [hunits]
    _ ≤ 2 ^ 53 * 2 ^ x.exponent * (4 / 10 ^ 17) := by gcongr
    _ ≤ 2 * 2 ^ x.exponent := by
      generalize (2 : ℚ) ^ x.exponent = step at hstep ⊢
      norm_num
      linarith

/-- **The shortest decimal rounds to its double.** -/
theorem rounds_shortest {x : Double} (hx : x.rank ≠ 0) :
    x.Rounds (x.shortest.toRat * 2 ^ 1076) := by
  have hunits : 0 < x.units := by
    rw [units_eq]
    exact Nat.lt_of_le_of_lt (Nat.zero_le _) (unitsOf_strictMono (Nat.pos_of_ne_zero hx))
  have hreach : ∀ bits k : Nat, bits ≤ 3 * k → 2 ^ bits ≤ x.units * 10 ^ k := fun bits k hk =>
    calc 2 ^ bits ≤ 2 ^ (3 * k) := Nat.pow_le_pow_right (by decide) hk
      _ = (2 ^ 3) ^ k := Nat.pow_mul 2 3 k
      _ ≤ 10 ^ k := Nat.pow_le_pow_left (by decide) k
      _ ≤ x.units * 10 ^ k := Nat.le_mul_of_pos_left _ hunits
  have htop := leadingPower_le (by decide) (hreach 1074 358 (by decide))
  obtain ⟨c, hc⟩ := exists_gridPoint? hx (quarters_finest htop)
  have hrounds := (roundsFrom_iff _ _ _).mp (roundsFrom_shortestFrom 17 0 hc)
  rw [shortest, Decimal.toRat_stripZeros]
  exact hrounds

end Double
end DocWatch
