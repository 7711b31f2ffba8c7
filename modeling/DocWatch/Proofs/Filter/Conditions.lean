import DocWatch.Filter.Compile
import DocWatch.Proofs.Filter.Meaning

/-!
# What conditions ask

Each test that evaluation computes, against what it asks of the values found at a path.

- `Json.equalsOrContains_iff`, `Json.anyEquals_iff`: equality, also with an element of an array.
- `Json.inRange_iff`: ranges.
- `FilterDocument.hasOperator_iff` and its like: the tests on keys that tell operators from
  literals.
- `FilterDocument.holds_range_iff` and its like: the conditions, one after another.
-/

namespace DocWatch

/-! ## Values against values -/

namespace Json

theorem equalsOrContains_iff (v x : Json) : v.equalsOrContains x = true ↔ v.HasEqual x := by
  unfold equalsOrContains HasEqual Offers
  cases v with
  | arr items =>
    rw [Bool.or_eq_true, List.any_eq_true]
    constructor
    · rintro (h | ⟨w, hmem, hw⟩)
      · exact ⟨_, .inl rfl, h⟩
      · exact ⟨w, .inr ⟨items, rfl, hmem⟩, hw⟩
    · rintro ⟨w, rfl | ⟨items', he, hmem⟩, hw⟩
      · exact .inl hw
      · cases he
        exact .inr ⟨w, hmem, hw⟩
  | _ => simp

theorem anyEquals_iff (found : List Json) (x : Json) :
    anyEquals found x = true ↔ FilterDocument.FindsEqual {w | w ∈ found} x := by
  unfold anyEquals FilterDocument.FindsEqual
  rw [Bool.or_eq_true, List.any_eq_true, or_comm]
  refine or_congr (exists_congr fun v => and_congr_right fun _ => equalsOrContains_iff v x) ?_
  rw [Bool.and_eq_true, List.isEmpty_iff]
  refine and_congr ?_ ?_
  · cases x <;> simp [isNull]
  · rw [Set.eq_empty_iff_forall_notMem, List.eq_nil_iff_forall_not_mem]
    exact Iff.rfl

end Json

theorem Comparison.accepts_iff (c : Comparison) (o : Ordering) :
    c.accepts o = true ↔ o ∈ c.orderings := by
  cases c <;> cases o <;> decide

/-- Is a value ordered against a bound in a way that a range operator accepts? -/
theorem Comparison.check_iff (c : Comparison) (w bound : Json) :
    (match w.compare? bound with
      | none => false
      | some o => c.accepts o) = true ↔ ∃ o, w.compare? bound = some o ∧ o ∈ c.orderings := by
  cases w.compare? bound with
  | none => simp
  | some o => simp [c.accepts_iff]

theorem Json.inRange_iff (v : Json) (c : Comparison) (bound : Json) :
    v.inRange c bound = true ↔ v.HasOrdered c.orderings bound := by
  by_cases harr : ∃ items, v = .arr items
  · obtain ⟨items, rfl⟩ := harr
    rw [inRange, List.any_eq_true]
    constructor
    · rintro ⟨w, hmem, hw⟩
      obtain ⟨o, ho, hin⟩ := (c.check_iff w bound).mp hw
      exact ⟨w, o, .inr ⟨items, rfl, hmem⟩, ho, hin⟩
    · rintro ⟨w, o, rfl | ⟨items', he, hmem⟩, ho, hin⟩
      · -- an array itself is never ordered
        cases bound <;> cases ho
      · cases he
        exact ⟨w, hmem, (c.check_iff w bound).mpr ⟨o, ho, hin⟩⟩
  · have hscalar : v.inRange c bound = match v.compare? bound with
        | none => false
        | some o => c.accepts o := by
      cases v with
      | arr items => exact absurd ⟨items, rfl⟩ harr
      | _ => rfl
    rw [hscalar, c.check_iff]
    constructor
    · rintro ⟨o, ho, hin⟩
      exact ⟨v, o, .inl rfl, ho, hin⟩
    · rintro ⟨w, o, rfl | ⟨items, he, -⟩, ho, hin⟩
      · exact ⟨o, ho, hin⟩
      · exact absurd ⟨items, he⟩ harr

namespace FilterDocument

/-! ## Keys -/

theorem isOperator_iff (key : String) : Filter.isOperator key = true ↔ IsOperator key := by
  unfold Filter.isOperator IsOperator
  cases key.toList with
  | nil => simp
  | cons c rest =>
    rw [List.head?_cons, beq_iff_eq, Option.some.injEq, List.cons_prefix_cons]
    exact ⟨fun h => ⟨h.symm, List.nil_prefix⟩, fun h => h.1.symm⟩

theorem hasOperator_iff (fields : Members Json) :
    Filter.hasOperator fields = true ↔ IsExpression fields := by
  unfold Filter.hasOperator IsExpression Members.keys
  rw [List.any_eq_true]
  constructor
  · rintro ⟨kv, hmem, h⟩
    exact ⟨kv.1, List.mem_map_of_mem hmem, (isOperator_iff _).mp h⟩
  · rintro ⟨key, hmem, h⟩
    obtain ⟨kv, hkv, rfl⟩ := List.mem_map.mp hmem
    exact ⟨kv, hkv, (isOperator_iff _).mpr h⟩

theorem onlyValueOperators_iff (fields : Members Json) :
    Filter.onlyValueOperators fields = true ↔ AsksElements fields := by
  unfold Filter.onlyValueOperators AsksElements Members.keys logical
  rw [Bool.and_eq_true, List.all_eq_true, List.forall_mem_map]
  refine and_congr (by cases fields <;> simp) (forall₂_congr fun kv _ => ?_)
  simp [isOperator_iff, and_assoc]

/-! ## Conditions -/

section Conditions

variable (found : List Json)

attribute [local simp] Condition.holds

theorem holds_range_iff (c : Comparison) (bound : Json) :
    (Condition.range c bound).holds found = true ↔
      FindsOrdered {w | w ∈ found} c.orderings bound := by
  rw [Condition.holds, List.any_eq_true]
  exact exists_congr fun v => and_congr_right fun _ => v.inRange_iff c bound

theorem holds_ne_iff (x : Json) :
    (Condition.ne x).holds found = true ↔ ¬ FindsEqual {w | w ∈ found} x := by
  simp [← Json.anyEquals_iff]

theorem holds_oneOf_iff (items : List Json) :
    (Condition.oneOf items).holds found = true ↔ ∃ x ∈ items, FindsEqual {w | w ∈ found} x := by
  rw [Condition.holds, List.any_eq_true]
  exact exists_congr fun x => and_congr_right fun _ => Json.anyEquals_iff found x

theorem holds_noneOf_iff (items : List Json) :
    (Condition.noneOf items).holds found = true ↔
      ∀ x ∈ items, ¬ FindsEqual {w | w ∈ found} x := by
  rw [Condition.holds, Bool.not_eq_true', List.any_eq_false]
  exact forall₂_congr fun x _ => not_congr (Json.anyEquals_iff found x)

theorem holds_containing_iff (items : List Json) :
    (Condition.containing items).holds found = true ↔
      items ≠ [] ∧ ∃ v ∈ {w | w ∈ found}, ∀ x ∈ items, v.HasEqual x := by
  rw [Condition.holds, Bool.and_eq_true, List.any_eq_true]
  refine and_congr (by cases items <;> simp) ?_
  refine exists_congr fun v => and_congr_right fun _ => ?_
  rw [List.all_eq_true]
  exact forall₂_congr fun x _ => v.equalsOrContains_iff x

theorem holds_present_iff (expected : Bool) :
    (Condition.present expected).holds found = true ↔
      (expected = true ↔ {w | w ∈ found}.Nonempty) := by
  rw [Condition.holds]
  cases found with
  | nil => cases expected <;> simp
  | cons v rest =>
    have hne : {w | w ∈ v :: rest}.Nonempty := ⟨v, List.mem_cons_self⟩
    rw [iff_true_right hne]
    cases expected <;> simp

theorem holds_size_iff (length : Nat) :
    (Condition.size length).holds found = true ↔
      ∃ items, .arr items ∈ {w | w ∈ found} ∧ items.length = length := by
  rw [Condition.holds, List.any_eq_true]
  constructor
  · rintro ⟨v, hmem, hv⟩
    cases v with
    | arr items => exact ⟨items, hmem, beq_iff_eq.mp hv⟩
    | _ => cases hv
  · rintro ⟨items, hmem, hlength⟩
    exact ⟨_, hmem, beq_iff_eq.mpr hlength⟩

/-- A condition on the elements asks for an array with such an element. -/
theorem any_element_iff (P : Json → Bool) :
    (found.any fun v => match v with
      | .arr items => items.any P
      | _ => false) = true ↔ ∃ items, .arr items ∈ {w | w ∈ found} ∧ ∃ item ∈ items, P item := by
  rw [List.any_eq_true]
  constructor
  · rintro ⟨v, hmem, hv⟩
    cases v with
    | arr items => exact ⟨items, hmem, List.any_eq_true.mp hv⟩
    | _ => cases hv
  · rintro ⟨items, hmem, hitems⟩
    exact ⟨_, hmem, List.any_eq_true.mpr hitems⟩

end Conditions

end FilterDocument

end DocWatch
