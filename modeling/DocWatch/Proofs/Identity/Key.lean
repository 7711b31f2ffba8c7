import DocWatch.Proofs.Double
import DocWatch.Proofs.Identity
import DocWatch.Proofs.Json.Text

/-!
# Keys of identities

The key of an identity stands for everything that is equal to it, as long as the identity is no
container and no number that shares its double with others: whole doubles are spelled like
integers, and below `2 ^ 53` each integer has a double of its own. From there on two integers of one
double are equal to a query and have different keys.

- `Number.IsExact`: the numbers below `2 ^ 53`.
- `Identity.key_num_eq`: such numbers have one key if they are equal to a query.
- `Identity.key_eq_of_equiv`: so do all values that are no containers.
- `Identity.key_arr_ne`: the key of an array is that of no other kind of value.
-/

namespace DocWatch

-- Powers are those of the core library whatever else is imported, so exponents have their type.
attribute [local instance (high)] instPowNat

namespace Number

/-- Is the magnitude below `2 ^ 53`, where each integer is a double of its own? -/
def IsExact (n : Number) : Prop := n.toDouble.units < 2 ^ (53 : Nat) * 2 ^ (1074 : Nat)

theorem isExact_congr {m n : Number} (h : m.order = n.order) : m.IsExact ↔ n.IsExact := by
  unfold IsExact
  rw [Double.units_eq_of_rank_eq (Double.rank_eq_of_order_eq h)]

theorem natAbs_lt_of_isExact {i : Int} {fits : -2 ^ (63 : Nat) ≤ i ∧ i < 2 ^ (64 : Nat)}
    (h : (int i fits).IsExact) : i.natAbs < 2 ^ (53 : Nat) :=
  (Double.units_ofInt_lt_iff i).mp h

end Number

namespace Identity

/-! ## Numbers -/

/-- A number that is an integer below `2 ^ 53` has the key of that integer. -/
theorem key_num_of_toInt? {n : Number} {i : Int} (hexact : n.IsExact)
    (h : n.toDouble.toInt? = some i) : key (.num n) = String.ofList (Decimal.intChars i) := by
  cases n with
  | int j fits =>
    have hj : (Double.ofInt j).toInt? = some j :=
      Double.toInt?_ofInt (Number.natAbs_lt_of_isExact hexact)
    obtain rfl := Option.some.inj (hj.symm.trans h)
    rfl
  | double x =>
    have htoInt : x.toInt? = some i := h
    have hlt : i.natAbs < 2 ^ (53 : Nat) := by
      have hunits : x.units < 2 ^ (53 : Nat) * 2 ^ (1074 : Nat) := hexact
      rw [Double.units_of_toInt? htoInt] at hunits
      generalize 2 ^ (1074 : Nat) = one at hunits
      exact Nat.lt_of_mul_lt_mul_right hunits
    have hwhole : -wholeLimit < i ∧ i < wholeLimit := by
      unfold wholeLimit
      omega
    simp only [key, htoInt, if_pos hwhole]

/-- Exact numbers that are equal to a query have one key. -/
theorem key_num_eq {m n : Number} (h : m.order = n.order) (hexact : n.IsExact) :
    key (.num m) = key (.num n) := by
  have hexact' : m.IsExact := (Number.isExact_congr h).mpr hexact
  have htoInt : m.toDouble.toInt? = n.toDouble.toInt? := Double.toInt?_eq_of_order_eq h
  cases hi : n.toDouble.toInt? with
  | some i =>
    rw [key_num_of_toInt? hexact' (htoInt.trans hi), key_num_of_toInt? hexact hi]
  | none =>
    -- neither is an integer, so both are doubles other than zero, and equal ones are the same
    cases m with
    | int j fits =>
      have hj : (Double.ofInt j).toInt? = some j :=
        Double.toInt?_ofInt (Number.natAbs_lt_of_isExact hexact')
      exact absurd (hj.symm.trans (htoInt.trans hi)) (by simp)
    | double x =>
      cases n with
      | int j fits =>
        have hj : (Double.ofInt j).toInt? = some j :=
          Double.toInt?_ofInt (Number.natAbs_lt_of_isExact hexact)
        exact absurd (hj.symm.trans hi) (by simp)
      | double y =>
        have hx : x.rank ≠ 0 := by
          intro hzero
          exact absurd ((Double.toInt?_of_rank_zero hzero).symm.trans (htoInt.trans hi)) (by simp)
        have hsame : x = y := Double.eq_of_order_eq h hx
        rw [hsame]

/-! ## Values that are no containers -/

/-- What is equal to a value that is no container has its key, up to numbers that are not exact. -/
theorem key_eq_of_equiv {u v : Json} (hscalar : v.IsScalar)
    (hexact : ∀ n, v = .num n → n.IsExact) (h : u.equiv v = true) : key u = key v := by
  cases v with
  | null => rw [(Json.equiv_null_iff u).mp h]
  | bool b => rw [(Json.equiv_bool_iff u b).mp h]
  | str s => rw [(Json.equiv_str_iff u s).mp h]
  | num n =>
    obtain ⟨m, rfl, horder⟩ := (Json.equiv_num_iff u n).mp h
    exact key_num_eq horder (hexact n rfl)
  | arr items => exact hscalar.elim
  | obj fields => exact hscalar.elim

/-- The key of a number has only numeric characters. -/
theorem numeric_key (n : Number) {c : Char} (h : c ∈ (key (.num n)).toList) : Json.Numeric c := by
  have htext : ∀ cs : List Char, c ∈ (String.ofList cs).toList → c ∈ cs := by
    intro cs hc
    rwa [String.toList_ofList] at hc
  cases n with
  | int i fits => exact Json.numeric_number (.int i fits) (htext _ h)
  | double x =>
    unfold key at h
    simp only at h
    split at h
    · split at h
      · exact Json.numeric_intChars (htext _ h)
      · exact Json.numeric_number (.double x) (htext _ h)
    · exact Json.numeric_number (.double x) (htext _ h)

/-- The key of a value that is no container does not begin like that of an array. -/
theorem head?_key_ne {v : Json} (hscalar : v.IsScalar) : (key v).toList.head? ≠ some '[' := by
  cases v with
  | null => decide
  | bool b => cases b <;> decide
  | str s => simp [key, Json.text, Json.chars, Json.quote]
  | num n =>
    intro h
    have hmem : '[' ∈ (key (.num n)).toList := List.mem_of_mem_head? h
    exact absurd (numeric_key n hmem) (by decide)
  | arr items => exact hscalar.elim
  | obj fields => exact hscalar.elim

/-- The key of an array is that of no value that is no container. -/
theorem key_arr_ne (items : List Json) {v : Json} (hscalar : v.IsScalar) :
    key (.arr items) ≠ key v := by
  intro h
  have hhead : (key (.arr items)).toList.head? = some '[' := by
    simp [key, Json.text, Json.chars]
  rw [h] at hhead
  exact head?_key_ne hscalar hhead

end Identity
end DocWatch
