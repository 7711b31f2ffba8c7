import DocWatch.Double

/-!
# Integers among the doubles

Below `2 ^ 53` every integer is a double of its own. From there on several integers share one, but
none of them shares it with a smaller integer.

- `Double.units_ofInt`: an integer below `2 ^ 53` becomes the double of its value.
- `Double.le_units_ofInt`: the other integers become doubles that are not below `2 ^ 53` either.
- `Double.toInt?_eq_of_order_eq`: what doubles are compared by decides which integer they are.
-/

namespace DocWatch.Double

-- Powers are those of the core library whatever else is imported, so exponents have their type.
attribute [local instance (high)] instPowNat

/-! ## Ranks and units -/

theorem units_eq_of_rank_eq {x y : Double} (h : x.rank = y.rank) : x.units = y.units := by
  rw [units, units, significand, significand, exponent, exponent, h]

theorem units_of_rank_zero {x : Double} (h : x.rank = 0) : x.units = 0 := by
  rw [units, significand, h, if_pos (Nat.two_pow_pos 52), Nat.zero_mul]

/-- The magnitude of a normal double, from its significand and the power that a step is worth. -/
theorem units_of_rank {x : Double} {e m : Nat} (hlow : 2 ^ (52 : Nat) ≤ m)
    (hhigh : m < 2 ^ (53 : Nat))
    (h : x.rank = e * 2 ^ (52 : Nat) + m) : x.units = m * 2 ^ e := by
  have hdiv : x.rank / 2 ^ (52 : Nat) = e + 1 := by omega
  have hmod : x.rank % 2 ^ (52 : Nat) = m - 2 ^ (52 : Nat) := by omega
  have hnormal : ¬ x.rank < 2 ^ (52 : Nat) := by omega
  have hexponent : x.exponent = e := by rw [exponent, hdiv, Nat.add_sub_cancel]
  have hsignificand : x.significand = m := by
    rw [significand, if_neg hnormal, hmod]
    omega
  rw [units, hexponent, hsignificand]

/-- From its first rank on, a power has at least its least magnitude. -/
theorem le_units_of_le_rank {x : Double} {e : Nat} (h : (e + 1) * 2 ^ (52 : Nat) ≤ x.rank) :
    2 ^ (52 : Nat) * 2 ^ e ≤ x.units := by
  have hnormal : ¬ x.rank < 2 ^ (52 : Nat) := by omega
  have hexponent : e ≤ x.exponent := by
    have hdiv : e + 1 ≤ x.rank / 2 ^ (52 : Nat) := (Nat.le_div_iff_mul_le (by decide)).mpr h
    rw [exponent]
    omega
  have hsignificand : 2 ^ (52 : Nat) ≤ x.significand := by
    rw [significand, if_neg hnormal]
    exact Nat.le_add_right _ _
  exact Nat.mul_le_mul hsignificand (Nat.pow_le_pow_right (by decide) hexponent)

/-! ## Order -/

theorem rank_eq_of_order_eq {x y : Double} (h : x.order = y.order) : x.rank = y.rank := by
  unfold order at h
  split at h <;> split at h <;> omega

/-- Only the zeros are not told apart. -/
theorem eq_of_order_eq {x y : Double} (h : x.order = y.order) (hx : x.rank ≠ 0) : x = y := by
  have hrank := rank_eq_of_order_eq h
  obtain ⟨negative, rank, hlt⟩ := x
  obtain ⟨negative', rank', hlt'⟩ := y
  simp only [order] at h hx hrank
  subst hrank
  -- of opposite signs, both orders would be zero
  have hsign : negative = negative' := by
    cases negative <;> cases negative'
    · rfl
    · simp only [Bool.false_eq_true, if_false, if_true] at h
      omega
    · simp only [Bool.false_eq_true, if_false, if_true] at h
      omega
    · rfl
  rw [hsign]

/-- A magnitude of whole units of `1` is an integer. -/
theorem toInt?_of_units {x : Double} {n : Nat} (h : x.units = n * 2 ^ (1074 : Nat)) :
    x.toInt? = some (if x.negative then -(n : Int) else n) := by
  have hpow : 0 < 2 ^ (1074 : Nat) := Nat.two_pow_pos 1074
  rw [toInt?, h]
  generalize 2 ^ (1074 : Nat) = one at hpow ⊢
  rw [Nat.mul_mod_left, if_pos rfl, Nat.mul_div_cancel n hpow]

theorem toInt?_of_rank_zero {x : Double} (h : x.rank = 0) : x.toInt? = some 0 := by
  rw [toInt?, units_of_rank_zero h]
  generalize 2 ^ (1074 : Nat) = one
  rw [Nat.zero_mod, if_pos rfl, Nat.zero_div]
  cases x.negative <;> rfl

/-- The integer of a double depends on its order alone. -/
theorem toInt?_eq_of_order_eq {x y : Double} (h : x.order = y.order) : x.toInt? = y.toInt? := by
  by_cases hx : x.rank = 0
  · have hy : y.rank = 0 := by rw [← rank_eq_of_order_eq h, hx]
    rw [toInt?_of_rank_zero hx, toInt?_of_rank_zero hy]
  · rw [eq_of_order_eq h hx]

/-- The magnitude of a double that is an integer. -/
theorem units_of_toInt? {x : Double} {i : Int} (h : x.toInt? = some i) :
    x.units = i.natAbs * 2 ^ (1074 : Nat) := by
  unfold toInt? at h
  by_cases hdvd : x.units % 2 ^ (1074 : Nat) = 0
  · rw [if_pos hdvd] at h
    have habs : i.natAbs = x.units / 2 ^ (1074 : Nat) := by
      rw [← Option.some.inj h]
      cases x.negative
      · exact Int.natAbs_natCast _
      · exact (Int.natAbs_neg _).trans (Int.natAbs_natCast _)
    rw [habs]
    exact (Nat.div_mul_cancel (Nat.dvd_of_mod_eq_zero hdvd)).symm
  · rw [if_neg hdvd] at h
    cases h

/-! ## Rounding of naturals -/

/-- A quotient without a remainder is not rounded. -/
theorem divNearest_mul (q : Nat) {d : Nat} (hd : 0 < d) : divNearest (q * d) d = q := by
  unfold divNearest
  rw [Nat.mul_div_cancel q hd, Nat.mul_mod_left]
  exact if_pos hd

theorem div_le_divNearest (n d : Nat) : n / d ≤ divNearest n d := by
  unfold divNearest
  simp only
  split
  · exact Nat.le_refl _
  split
  · exact Nat.le_succ _
  · exact Nat.le_add_right _ _

/-- Two products of powers of two are the same if their exponents have the same sum. -/
theorem two_pow_mul_eq {a b c d : Nat} (h : a + b = c + d) : 2 ^ a * 2 ^ b = 2 ^ c * 2 ^ d := by
  rw [← Nat.pow_add, ← Nat.pow_add, h]

theorem log2_mul_two_pow {n : Nat} (hn : n ≠ 0) (k : Nat) :
    (n * 2 ^ k).log2 = n.log2 + k := by
  have hpow : 0 < 2 ^ k := Nat.two_pow_pos k
  obtain ⟨hlow, hhigh⟩ := (Nat.log2_eq_iff hn).mp rfl
  refine (Nat.log2_eq_iff (Nat.mul_ne_zero hn (Nat.ne_of_gt hpow))).mpr ⟨?_, ?_⟩
  · rw [Nat.pow_add]
    exact Nat.mul_le_mul_right _ hlow
  · rw [Nat.add_right_comm, Nat.pow_add]
    exact Nat.mul_lt_mul_of_pos_right hhigh hpow

theorem rankOfRatio_zero (d : Nat) : rankOfRatio 0 d = 0 := by
  unfold rankOfRatio
  simp only [Nat.zero_mul, Nat.zero_div, if_pos (Nat.two_pow_pos 53), Nat.pow_zero, Nat.mul_one,
    Nat.zero_add]
  unfold divNearest
  simp

/-- The rank of a natural number, before its significand is rounded. -/
theorem rankOfRatio_nat {n : Nat} (hn : n ≠ 0) :
    rankOfRatio n 1 =
      (n.log2 + 1022) * 2 ^ (52 : Nat) +
        divNearest (n * 2 ^ (1074 : Nat)) (2 ^ (n.log2 + 1022)) := by
  have hbig : 2 ^ (53 : Nat) ≤ n * 2 ^ (1074 : Nat) :=
    Nat.le_trans (Nat.pow_le_pow_right (by decide) (by decide))
      (Nat.le_mul_of_pos_left (2 ^ (1074 : Nat)) (Nat.pos_of_ne_zero hn))
  have hsub : n.log2 + 1074 - 52 = n.log2 + 1022 := by omega
  rw [rankOfRatio]
  simp only [Nat.div_one, if_neg (Nat.not_lt.mpr hbig), log2_mul_two_pow hn, hsub, Nat.one_mul]

/-- Below `2 ^ 53` the significand is exact. -/
theorem exists_significand {n : Nat} (hn : n ≠ 0) (hlt : n < 2 ^ (53 : Nat)) :
    ∃ e m, 2 ^ (52 : Nat) ≤ m ∧ m < 2 ^ (53 : Nat) ∧ e ≤ 1074 ∧ m * 2 ^ e = n * 2 ^ (1074 : Nat) ∧
      rankOfRatio n 1 = e * 2 ^ (52 : Nat) + m := by
  obtain ⟨hlow, hhigh⟩ := (Nat.log2_eq_iff hn).mp rfl
  have hlog : n.log2 ≤ 52 := Nat.le_of_lt_succ ((Nat.log2_lt hn).mpr hlt)
  have hexact : n * 2 ^ (52 - n.log2) * 2 ^ (n.log2 + 1022) = n * 2 ^ (1074 : Nat) := by
    have hsum : 52 - n.log2 + (n.log2 + 1022) = 1074 := by omega
    rw [Nat.mul_assoc, ← Nat.pow_add, hsum]
  -- shifted up to 53 bits, the number is its own significand
  refine ⟨n.log2 + 1022, n * 2 ^ (52 - n.log2), ?_, ?_, by omega, hexact, ?_⟩
  · calc 2 ^ (52 : Nat) = 2 ^ n.log2 * 2 ^ (52 - n.log2) := by
          rw [← Nat.pow_add, Nat.add_sub_cancel' hlog]
      _ ≤ n * 2 ^ (52 - n.log2) := Nat.mul_le_mul_right _ hlow
  · calc n * 2 ^ (52 - n.log2) < 2 ^ (n.log2 + 1) * 2 ^ (52 - n.log2) :=
          Nat.mul_lt_mul_of_pos_right hhigh (Nat.two_pow_pos _)
      _ = 2 ^ (53 : Nat) := by
          have hsum : n.log2 + 1 + (52 - n.log2) = 53 := by omega
          rw [← Nat.pow_add, hsum]
  · rw [rankOfRatio_nat hn, ← hexact, divNearest_mul _ (Nat.two_pow_pos _)]

/-- From `2 ^ 53` on the rank is not below that of `2 ^ 53`. -/
theorem le_rankOfRatio {n : Nat} (h : 2 ^ (53 : Nat) ≤ n) :
    1076 * 2 ^ (52 : Nat) ≤ rankOfRatio n 1 := by
  have hn : n ≠ 0 := by omega
  have hlog : 53 ≤ n.log2 := (Nat.le_log2 hn).mpr h
  -- rounding may carry, but never goes below the least significand
  have hround : 2 ^ (52 : Nat) ≤ divNearest (n * 2 ^ (1074 : Nat)) (2 ^ (n.log2 + 1022)) := by
    refine Nat.le_trans ((Nat.le_div_iff_mul_le (Nat.two_pow_pos _)).mpr ?_) (div_le_divNearest _ _)
    calc 2 ^ (52 : Nat) * 2 ^ (n.log2 + 1022) = 2 ^ n.log2 * 2 ^ (1074 : Nat) :=
          two_pow_mul_eq (by omega)
      _ ≤ n * 2 ^ (1074 : Nat) := Nat.mul_le_mul_right _ (Nat.log2_self_le hn)
  rw [rankOfRatio_nat hn]
  omega

/-! ## Integers -/

theorem negative_getD_ofRank? (negative : Bool) (rank : Nat) (h : rankLimit - 1 < rankLimit) :
    ((ofRank? negative rank).getD ⟨negative, rankLimit - 1, h⟩).negative = negative := by
  unfold ofRank?
  by_cases hlt : rank < rankLimit
  · rw [dif_pos hlt, Option.getD_some]
  · rw [dif_neg hlt, Option.getD_none]

theorem rank_getD_ofRank? (negative : Bool) (rank : Nat) (h : rankLimit - 1 < rankLimit) :
    ((ofRank? negative rank).getD ⟨negative, rankLimit - 1, h⟩).rank =
      min rank (rankLimit - 1) := by
  unfold ofRank?
  by_cases hlt : rank < rankLimit
  · rw [dif_pos hlt, Option.getD_some]
    exact (Nat.min_eq_left (Nat.le_sub_one_of_lt hlt)).symm
  · rw [dif_neg hlt, Option.getD_none]
    exact (Nat.min_eq_right (Nat.le_trans (Nat.sub_le _ _) (Nat.not_lt.mp hlt))).symm

theorem negative_ofInt (i : Int) : (ofInt i).negative = decide (i < 0) :=
  negative_getD_ofRank? _ _ _

/-- Integers beyond all doubles become the largest one. -/
theorem rank_ofInt (i : Int) :
    (ofInt i).rank = min (rankOfRatio i.natAbs 1) (rankLimit - 1) :=
  rank_getD_ofRank? _ _ _

theorem le_rankLimit {e m : Nat} (he : e ≤ 1074) (hm : m < 2 ^ (53 : Nat)) :
    e * 2 ^ (52 : Nat) + m ≤ rankLimit - 1 := by
  unfold rankLimit
  omega

/-- An integer below `2 ^ 53` is a double. -/
theorem units_ofInt {i : Int} (h : i.natAbs < 2 ^ (53 : Nat)) :
    (ofInt i).units = i.natAbs * 2 ^ (1074 : Nat) := by
  have hrank := rank_ofInt i
  by_cases hi : i.natAbs = 0
  · rw [hi, rankOfRatio_zero, Nat.zero_min] at hrank
    rw [units_of_rank_zero hrank, hi]
    generalize 2 ^ (1074 : Nat) = one
    exact (Nat.zero_mul one).symm
  · obtain ⟨e, m, hlow, hhigh, he, hvalue, hratio⟩ := exists_significand hi h
    rw [hratio, Nat.min_eq_left (le_rankLimit he hhigh)] at hrank
    rw [units_of_rank hlow hhigh hrank, hvalue]

/-- An integer that is not below `2 ^ 53` does not become a double that is. -/
theorem le_units_ofInt {i : Int} (h : 2 ^ (53 : Nat) ≤ i.natAbs) :
    2 ^ (53 : Nat) * 2 ^ (1074 : Nat) ≤ (ofInt i).units := by
  have hrank : (1075 + 1) * 2 ^ (52 : Nat) ≤ (ofInt i).rank := by
    have hratio := le_rankOfRatio h
    rw [rank_ofInt]
    unfold rankLimit
    omega
  rw [two_pow_mul_eq (show 53 + 1074 = 52 + 1075 by decide)]
  exact le_units_of_le_rank (e := 1075) hrank

theorem units_ofInt_lt_iff (i : Int) :
    (ofInt i).units < 2 ^ (53 : Nat) * 2 ^ (1074 : Nat) ↔ i.natAbs < 2 ^ (53 : Nat) := by
  constructor
  · intro h
    refine Nat.not_le.mp fun hbig => ?_
    exact absurd (le_units_ofInt hbig) (Nat.not_le.mpr h)
  · intro h
    have hpow : 0 < 2 ^ (1074 : Nat) := Nat.two_pow_pos 1074
    rw [units_ofInt h]
    generalize 2 ^ (1074 : Nat) = one at hpow ⊢
    exact Nat.mul_lt_mul_of_pos_right h hpow

theorem toInt?_ofInt {i : Int} (h : i.natAbs < 2 ^ (53 : Nat)) : (ofInt i).toInt? = some i := by
  rw [toInt?_of_units (units_ofInt h), negative_ofInt, Option.some.injEq]
  by_cases hi : i < 0
  · rw [decide_eq_true hi, if_pos rfl]
    omega
  · rw [decide_eq_false hi, if_neg Bool.false_ne_true]
    omega

end DocWatch.Double
