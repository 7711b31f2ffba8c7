import DocWatch.Json.Text
import DocWatch.Proofs.Double.Shortest
import Mathlib.Data.List.TakeWhile

/-!
# The text of a double tells it apart

From the text of a double its shortest decimal can be read back, whether it is written with a point
among the digits or with a power of ten behind them. So two doubles of one text have one shortest
decimal, and that rounds to only one magnitude.

- `Decimal.value_natChars`, `Decimal.value_append`: reading digits.
- `Double.spelled`: the value that a text spells.
- `Double.spelled_magnitudeChars`: for the text of a double this is its shortest decimal.
- `Double.chars_inj`: doubles of one text are the same.
-/

namespace DocWatch

namespace Decimal

/-! ## Reading digits -/

theorem value_natChars (n : Nat) : value (natChars n) = n := Nat.ofDigitChars_ten_toDigits

theorem value_append (ds es : List Char) :
    value (ds ++ es) = value ds * 10 ^ es.length + value es := by
  have hfrom : ∀ (es : List Char) (start : Nat),
      es.foldl (fun n c => 10 * n + digitValue c) start = start * 10 ^ es.length + value es := by
    intro es
    induction es with
    | nil => exact fun start => by simp [value]
    | cons c rest ih =>
      intro start
      have hvalue : value (c :: rest) = (10 * 0 + digitValue c) * 10 ^ rest.length + value rest :=
        ih _
      rw [List.foldl_cons, ih, hvalue, List.length_cons]
      ring
  rw [value, List.foldl_append, hfrom]
  rfl

theorem value_zeros (k : Nat) : value (List.replicate k '0') = 0 := by
  induction k with
  | zero => rfl
  | succ k ih =>
    have hzero : value ['0'] = 0 := rfl
    rw [List.replicate_succ, ← List.singleton_append, value_append, ih, hzero, Nat.zero_mul]

/-- Zeros in front of digits do not count. -/
theorem value_zeros_append (k : Nat) (ds : List Char) :
    value (List.replicate k '0' ++ ds) = value ds := by
  rw [value_append, value_zeros, Nat.zero_mul, Nat.zero_add]

theorem natChars_ne_nil (n : Nat) : natChars n ≠ [] := Nat.toDigits_ne_nil

theorem isDigit_of_mem_natChars {n : Nat} {c : Char} (h : c ∈ natChars n) : c.isDigit = true :=
  Nat.isDigit_of_mem_toDigits (by decide) (by decide) h

/-- A character that is no digit stands in no digits. -/
theorem not_mem_natChars {c : Char} (hc : c.isDigit = false) (n : Nat) : c ∉ natChars n := by
  intro h
  rw [isDigit_of_mem_natChars h] at hc
  cases hc

theorem natChars_inj {n m : Nat} (h : natChars n = natChars m) : n = m := by
  rw [← value_natChars n, h, value_natChars]

end Decimal

namespace Double

open Decimal (value)

/-! ## Reading decimals -/

/-- The power of ten behind the digits. -/
def spelledPower : List Char → Int
  | 'e' :: '-' :: ds => -(value ds : Int)
  | 'e' :: '+' :: ds => value ds
  | _ => 0

/-- The value that digits with a point among them spell, and a power of ten behind them. -/
def spelled (cs : List Char) : ℚ :=
  let mantissa := cs.takeWhile (· ≠ 'e')
  let whole := mantissa.takeWhile (· ≠ '.')
  let fraction := (mantissa.dropWhile (· ≠ '.')).drop 1
  value (whole ++ fraction) * (10 : ℚ) ^ (spelledPower (cs.dropWhile (· ≠ 'e')) - fraction.length)

/-- What stands before the first occurrence of a character, and from it on. -/
theorem split_append {c : Char} {cs : List Char} (h : c ∉ cs) (rest : List Char) :
    (cs ++ c :: rest).takeWhile (· ≠ c) = cs ∧ (cs ++ c :: rest).dropWhile (· ≠ c) = c :: rest := by
  have hall : ∀ d ∈ cs, decide (d ≠ c) = true := fun d hd =>
    decide_eq_true fun he => h (he ▸ hd)
  rw [List.takeWhile_append_of_pos hall, List.dropWhile_append_of_pos hall]
  simp

theorem split_of_not_mem {c : Char} {cs : List Char} (h : c ∉ cs) :
    cs.takeWhile (· ≠ c) = cs ∧ cs.dropWhile (· ≠ c) = [] := by
  have hall : ∀ d ∈ cs, decide (d ≠ c) = true := fun d hd =>
    decide_eq_true fun he => h (he ▸ hd)
  exact ⟨List.takeWhile_eq_self_iff.mpr hall, List.dropWhile_eq_nil_iff.mpr hall⟩

/-- A character that is no digit does not stand among digits. -/
theorem not_mem_digits {ds : List Char} (hdigits : ∀ c ∈ ds, c.isDigit = true) {c : Char}
    (hc : c.isDigit = false) : c ∉ ds := by
  intro h
  rw [hdigits c h] at hc
  cases hc

/-- Digits with a point among them. -/
theorem spelled_point {whole fraction : List Char}
    (hdigits : ∀ c ∈ whole ++ fraction, c.isDigit = true) :
    spelled (whole ++ '.' :: fraction) =
      value (whole ++ fraction) * (10 : ℚ) ^ (-(fraction.length : Int)) := by
  obtain ⟨hwhole, hfraction⟩ := List.forall_mem_append.mp hdigits
  have hpower : 'e' ∉ whole ++ '.' :: fraction := by
    intro hmem
    rcases List.mem_append.mp hmem with hmem | hmem
    · exact not_mem_digits hwhole (by decide) hmem
    · rcases List.mem_cons.mp hmem with hmem | hmem
      · cases hmem
      · exact not_mem_digits hfraction (by decide) hmem
  obtain ⟨htake, hdrop⟩ := split_of_not_mem hpower
  have hpoint : '.' ∉ whole := not_mem_digits hwhole (by decide)
  obtain ⟨htake', hdrop'⟩ := split_append hpoint fraction
  unfold spelled
  simp only [htake, hdrop, htake', hdrop', List.drop_one, List.tail_cons, spelledPower, zero_sub]

/-- Digits with a power of ten behind them. -/
theorem spelled_power {mantissa : List Char} (h : 'e' ∉ mantissa) (power : Int) :
    spelled (mantissa ++ 'e' :: (if power < 0 then '-' else '+') ::
      Decimal.natChars power.natAbs) = spelled mantissa * (10 : ℚ) ^ power := by
  obtain ⟨htake, hdrop⟩ := split_of_not_mem h
  obtain ⟨htake', hdrop'⟩ := split_append h
    ((if power < 0 then '-' else '+') :: Decimal.natChars power.natAbs)
  have hread : spelledPower ('e' :: (if power < 0 then '-' else '+') ::
      Decimal.natChars power.natAbs) = power := by
    by_cases hneg : power < 0
    · rw [if_pos hneg, spelledPower, Decimal.value_natChars]
      omega
    · rw [if_neg hneg, spelledPower, Decimal.value_natChars]
      omega
  have hnone : spelledPower [] = 0 := rfl
  unfold spelled
  simp only [htake, hdrop, htake', hdrop', hread, hnone]
  rw [mul_assoc, ← zpow_add₀ (by norm_num)]
  congr 2
  ring

/-- Digits alone. -/
theorem spelled_digits {ds : List Char} (hpoint : '.' ∉ ds) (hpower : 'e' ∉ ds) :
    spelled ds = value ds := by
  obtain ⟨htake, hdrop⟩ := split_of_not_mem hpower
  obtain ⟨htake', hdrop'⟩ := split_of_not_mem hpoint
  unfold spelled
  simp only [htake, hdrop, htake', hdrop', spelledPower, List.drop_nil, List.append_nil,
    List.length_nil, Nat.cast_zero, sub_zero, zpow_zero, mul_one]

/-! ## The text of a double -/

theorem isDigit_zeros (k : Nat) : ∀ c ∈ List.replicate k '0', c.isDigit = true := by
  intro c hc
  rw [List.eq_of_mem_replicate hc]
  rfl

section Digits

variable {ds : List Char} (hdigits : ∀ c ∈ ds, c.isDigit = true)
include hdigits

/-- Digits behind the point, with zeros between. -/
theorem spelled_behind (k : Nat) : spelled ('0' :: '.' :: (List.replicate k '0' ++ ds)) =
    value ds * (10 : ℚ) ^ (-(k : Int) - ds.length) := by
  have hall : ∀ c ∈ ['0'] ++ (List.replicate k '0' ++ ds), c.isDigit = true :=
    List.forall_mem_append.mpr ⟨isDigit_zeros 1,
      List.forall_mem_append.mpr ⟨isDigit_zeros k, hdigits⟩⟩
  have hvalue : value (['0'] ++ (List.replicate k '0' ++ ds)) = value ds := by
    rw [← List.append_assoc, show ['0'] = List.replicate 1 '0' from rfl,
      List.replicate_append_replicate, Decimal.value_zeros_append]
  have hread := spelled_point hall
  rw [hvalue, List.length_append, List.length_replicate] at hread
  refine hread.trans ?_
  congr 2
  omega

/-- Digits in front of the point, with zeros between. -/
theorem spelled_before (k : Nat) : spelled (ds ++ List.replicate k '0' ++ ['.', '0']) =
    value ds * (10 : ℚ) ^ (k : Int) := by
  have hall : ∀ c ∈ (ds ++ List.replicate k '0') ++ ['0'], c.isDigit = true :=
    List.forall_mem_append.mpr ⟨List.forall_mem_append.mpr ⟨hdigits, isDigit_zeros k⟩,
      isDigit_zeros 1⟩
  have hvalue : value (ds ++ List.replicate k '0' ++ ['0']) = value ds * 10 ^ k * 10 := by
    have hlast : value ['0'] = 0 := rfl
    rw [Decimal.value_append, Decimal.value_append, Decimal.value_zeros, List.length_replicate,
      hlast]
    simp
  rw [spelled_point hall, hvalue, List.length_singleton, zpow_natCast, Nat.cast_one, zpow_neg_one]
  push_cast
  field_simp

/-- Digits on both sides of the point. -/
theorem spelled_parted {w : Nat} (h : w ≤ ds.length) : spelled (ds.take w ++ '.' :: ds.drop w) =
    value ds * (10 : ℚ) ^ ((w : Int) - ds.length) := by
  have hall : ∀ c ∈ ds.take w ++ ds.drop w, c.isDigit = true := by
    rwa [List.take_append_drop]
  rw [spelled_point hall, List.take_append_drop, List.length_drop]
  congr 2
  omega

/-- Digits written positionally. -/
theorem spelled_positional (whole : Int) :
    spelled (positional ds whole) = value ds * (10 : ℚ) ^ (whole - ds.length) := by
  unfold positional
  split
  · have hread := spelled_behind hdigits 0
    simpa using hread
  · rename_i w _
    split
    · rename_i hle
      rw [spelled_before hdigits, Nat.cast_sub hle]
      rfl
    · rename_i hlt
      exact spelled_parted hdigits (Nat.le_of_not_le hlt)
  · rename_i k
    rw [spelled_behind hdigits, Int.negSucc_eq]
    push_cast
    rfl

/-- Digits written with a power of ten. -/
theorem spelled_scientific (hne : ds ≠ []) (power : Int) :
    spelled (scientific ds power) = value ds * (10 : ℚ) ^ (power - (ds.length - 1)) := by
  have hpoint : '.' ∉ ds := not_mem_digits hdigits (by decide)
  have hpower : 'e' ∉ ds := not_mem_digits hdigits (by decide)
  unfold scientific
  match ds with
  | [] => exact absurd rfl hne
  | [c] =>
    simp only
    rw [spelled_power hpower, spelled_digits hpoint hpower]
    simp
  | c :: d :: rest =>
    simp only
    have hmantissa : 'e' ∉ [c] ++ '.' :: d :: rest := by
      intro hmem
      rcases List.mem_cons.mp hmem with h | h
      · exact hpower (h ▸ List.mem_cons_self)
      · rcases List.mem_cons.mp h with h | h
        · cases h
        · exact hpower (List.mem_cons_of_mem c h)
    rw [show c :: '.' :: d :: rest = [c] ++ '.' :: d :: rest from rfl, spelled_power hmantissa,
      spelled_point hdigits, mul_assoc, ← zpow_add₀ (by norm_num)]
    congr 2
    simp only [List.length_cons]
    push_cast
    ring

end Digits

/-- The text of a magnitude spells its shortest decimal. -/
theorem spelled_magnitudeChars {x : Double} (hx : x.rank ≠ 0) :
    spelled x.magnitudeChars = x.shortest.toRat := by
  unfold magnitudeChars
  rw [if_neg hx]
  generalize x.shortest = d
  have hdigits : ∀ c ∈ Decimal.natChars d.digits, c.isDigit = true :=
    fun c hc => Decimal.isDigit_of_mem_natChars hc
  simp only
  split
  · rw [spelled_positional hdigits, Decimal.value_natChars, Decimal.toRat]
    congr 2
    ring
  · rw [spelled_scientific hdigits (Decimal.natChars_ne_nil _), Decimal.value_natChars,
      Decimal.toRat]
    congr 2
    ring

/-- Magnitudes of one text are the same. -/
theorem rank_eq_of_magnitudeChars_eq {x y : Double} (h : x.magnitudeChars = y.magnitudeChars) :
    x.rank = y.rank := by
  have hzero : ∀ {z : Double}, z.rank = 0 → spelled z.magnitudeChars = 0 := by
    intro z hz
    have hread : spelled ['0', '.', '0'] = 0 := by
      have hpoint := spelled_before (isDigit_zeros 1) 0
      have hvalue : value (List.replicate 1 '0') = 0 := rfl
      rw [hvalue, Nat.cast_zero, zero_mul] at hpoint
      exact hpoint
    rw [magnitudeChars, if_pos hz, hread]
  have hpos : ∀ {z : Double}, z.rank ≠ 0 → 0 < spelled z.magnitudeChars := by
    intro z hz
    rw [spelled_magnitudeChars hz]
    have hpow : (0 : ℚ) < 2 ^ 1076 := by positivity
    exact (mul_pos_iff_of_pos_right hpow).mp ((rounds_shortest hz).pos hz)
  by_cases hx : x.rank = 0
  · by_contra hne
    have hy : y.rank ≠ 0 := fun hy => hne (hx.trans hy.symm)
    have hlt := hpos hy
    rw [← h, hzero hx] at hlt
    exact lt_irrefl 0 hlt
  · have hy : y.rank ≠ 0 := by
      intro hy
      have hlt := hpos hx
      rw [h, hzero hy] at hlt
      exact lt_irrefl 0 hlt
    have hsame := rounds_shortest hx
    rw [← spelled_magnitudeChars hx, h, spelled_magnitudeChars hy] at hsame
    exact rank_eq_of_rounds hsame (rounds_shortest hy)

/-! ## Signs, points and powers -/

/-- The text of a magnitude begins with a digit. -/
theorem isDigit_of_head?_magnitudeChars (x : Double) {c : Char}
    (h : x.magnitudeChars.head? = some c) : c.isDigit = true := by
  have hdigit : ∀ {ds : List Char}, (∀ c ∈ ds, c.isDigit = true) → ds.head? = some c →
      c.isDigit = true := fun hds hc => hds c (List.mem_of_mem_head? hc)
  have hzero : some '0' = some c → c.isDigit = true := by
    intro hc
    obtain rfl := Option.some.inj hc
    rfl
  unfold magnitudeChars at h
  split at h
  · exact hzero h
  generalize x.shortest = d at h
  have hdigits : ∀ c ∈ Decimal.natChars d.digits, c.isDigit = true :=
    fun c hc => Decimal.isDigit_of_mem_natChars hc
  have hne := Decimal.natChars_ne_nil d.digits
  simp only at h
  split at h
  · unfold positional at h
    split at h
    · exact hzero h
    · rename_i w hw _
      split at h
      · rw [List.append_assoc, List.head?_append_of_ne_nil _ hne] at h
        exact hdigit hdigits h
      · have hpos : w ≠ 0 := by
          rintro rfl
          exact hw rfl
        rw [List.head?_append, List.head?_take, if_neg hpos] at h
        rw [List.head?_eq_some_head hne, Option.some_or] at h
        exact hdigits c (Option.some.inj h ▸ List.head_mem hne)
    · exact hzero h
  · unfold scientific at h
    match hds : Decimal.natChars d.digits with
    | [] => exact absurd hds hne
    | [first] =>
      rw [hds] at h hdigits
      exact hdigits c (Option.some.inj h ▸ List.mem_cons_self)
    | first :: second :: rest =>
      rw [hds] at h hdigits
      exact hdigits c (Option.some.inj h ▸ List.mem_cons_self)

/-- The text of a double has a point or a power of ten. -/
theorem point_or_power_mem_chars (x : Double) : '.' ∈ x.chars ∨ 'e' ∈ x.chars := by
  have hmagnitude : '.' ∈ x.magnitudeChars ∨ 'e' ∈ x.magnitudeChars := by
    unfold magnitudeChars
    split
    · exact .inl (by decide)
    simp only
    split
    · refine .inl ?_
      unfold positional
      split
      · exact List.mem_cons_of_mem _ List.mem_cons_self
      · split
        · exact List.mem_append_right _ List.mem_cons_self
        · exact List.mem_append_right _ List.mem_cons_self
      · exact List.mem_cons_of_mem _ List.mem_cons_self
    · exact .inr (List.mem_append_right _ List.mem_cons_self)
  unfold chars
  split
  · exact hmagnitude.imp (List.mem_cons_of_mem _) (List.mem_cons_of_mem _)
  · exact hmagnitude

/-- The text of a magnitude begins with no sign. -/
theorem minus_cons_ne_magnitudeChars (cs : List Char) (x : Double) :
    '-' :: cs ≠ x.magnitudeChars := by
  intro h
  have hdigit := x.isDigit_of_head?_magnitudeChars (c := '-') (by rw [← h]; rfl)
  cases hdigit

/-- **Doubles of one text are the same.** -/
theorem chars_inj {x y : Double} (h : x.chars = y.chars) : x = y := by
  have heq : x.negative = y.negative ∧ x.rank = y.rank := by
    unfold chars at h
    cases hx : x.negative <;> cases hy : y.negative <;> rw [hx, hy] at h
    · exact ⟨rfl, rank_eq_of_magnitudeChars_eq h⟩
    · exact absurd h.symm (minus_cons_ne_magnitudeChars _ x)
    · exact absurd h (minus_cons_ne_magnitudeChars _ y)
    · exact ⟨rfl, rank_eq_of_magnitudeChars_eq (List.tail_eq_of_cons_eq h)⟩
  obtain ⟨negative, rank, hlt⟩ := x
  obtain ⟨negative', rank', hlt'⟩ := y
  obtain ⟨rfl, rfl⟩ := heq
  rfl

end Double
end DocWatch
