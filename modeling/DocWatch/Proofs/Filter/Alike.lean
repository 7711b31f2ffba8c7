import DocWatch.Filter.Match
import DocWatch.Proofs.Json.Alike

/-!
# Filters do not tell alike documents apart

Alike documents have alike values at each path, and no condition looks at more of a value than
alike values have in common. So a filter selects both of two alike documents, or neither.

- `Json.reach_alike`: the values found at a path.
- `Json.anyEquals_eq_of_alike` and its like: the tests of conditions.
- `Filter.selects_eq_of_alike`: whole filters.
-/

namespace DocWatch

namespace Json

/-- A test that does not tell related elements apart finds one in both of two related lists, or in
neither. -/
theorem any_eq_of_forall₂ {α β : Type} {R : α → β → Prop} {xs : List α} {ys : List β}
    (h : List.Forall₂ R xs ys) {p : α → Bool} {q : β → Bool}
    (hpq : ∀ x y, R x y → p x = q y) : xs.any p = ys.any q := by
  induction h with
  | nil => rfl
  | cons hxy _ ih => rw [List.any_cons, List.any_cons, hpq _ _ hxy, ih]

/-! ## Values at a path -/

/-- What a key leads to in an element of an array. -/
theorem Alike.field? {v w : Json} (h : Alike v w) (key : String) :
    Option.Rel Alike (v.field? key) (w.field? key) := by
  cases h.form with
  | obj _ _ found => exact found key
  | _ => exact .none

/-- Alike documents have alike values at a path, in the same order. -/
theorem reach_alike (path : FieldPath) {v w : Json} (h : Alike v w) :
    List.Forall₂ Alike (reach path v) (reach path w) := by
  induction path generalizing v w with
  | nil => exact .cons h .nil
  | cons segment rest ih =>
    cases h.form with
    | obj _ _ found =>
      simp only [reach]
      rcases rel_cases (found segment) with ⟨hx, hy⟩ | ⟨x, y, hx, hy, hinner⟩
      · rw [hx, hy]
        exact .nil
      · rw [hx, hy]
        exact ih hinner
    | arr items =>
      simp only [reach]
      cases FieldPath.signedIndex? segment with
      | some i =>
        rcases rel_cases (getElem?_rel items i) with ⟨hx, hy⟩ | ⟨x, y, hx, hy, hinner⟩
        · simp only [hx, hy]
          exact .nil
        · simp only [hx, hy]
          exact ih hinner
      | none =>
        refine List.rel_flatMap items fun v w hvw => ?_
        rcases rel_cases (hvw.field? segment) with ⟨hx, hy⟩ | ⟨x, y, hx, hy, hinner⟩
        · rw [hx, hy]
          exact .nil
        · rw [hx, hy]
          exact ih hinner
    | _ => exact .nil

/-! ## Tests on values -/

/-- A test on the elements of an array. Other values do not pass it. -/
theorem elements_eq_of_alike {v w : Json} {p q : List Json → Bool}
    (hpq : ∀ xs ys, List.Forall₂ Alike xs ys → p xs = q ys) :
    Alike v w →
      (match v with
        | .arr items => p items
        | _ => false) =
        match w with
        | .arr items => q items
        | _ => false := by
  intro h
  cases h.form with
  | arr items => exact hpq _ _ items
  | _ => rfl

theorem equalsOrContains_eq_of_alike {v w : Json} (h : Alike v w) (expected : Json) :
    v.equalsOrContains expected = w.equalsOrContains expected := by
  unfold equalsOrContains
  rw [h.equiv_eq expected]
  refine congrArg (w.equiv expected || ·) (elements_eq_of_alike (fun xs ys hitems => ?_) h)
  exact any_eq_of_forall₂ hitems fun x y hxy => hxy.equiv_eq expected

theorem inRange_eq_of_alike {v w : Json} (h : Alike v w) (comparison : Comparison)
    (bound : Json) : v.inRange comparison bound = w.inRange comparison bound := by
  cases h.form with
  | arr items =>
    refine any_eq_of_forall₂ items fun x y hxy => ?_
    simp only [hxy.compare?_eq bound]
  | num => simp only [inRange, h.compare?_eq bound]
  | _ => rfl

theorem anyEquals_eq_of_alike {found found' : List Json} (h : List.Forall₂ Alike found found')
    (expected : Json) : anyEquals found expected = anyEquals found' expected := by
  have hempty : found.isEmpty = found'.isEmpty := by
    cases h <;> rfl
  rw [anyEquals, anyEquals, hempty,
    any_eq_of_forall₂ h fun v w hvw => equalsOrContains_eq_of_alike hvw expected]

end Json

open Json

/-! ## Predicates and conditions -/

mutual

/-- A predicate holds for both of two alike documents, or for neither. -/
theorem Predicate.holds_eq_of_alike (p : Predicate) {v w : Json} (h : Alike v w) :
    p.holds v = p.holds w := by
  match p with
  | .all clauses =>
    rw [Predicate.holds, Predicate.holds, Predicate.allHold_eq_of_alike clauses h]
  | .any clauses =>
    rw [Predicate.holds, Predicate.holds, Predicate.anyHolds_eq_of_alike clauses h]
  | .neither clauses =>
    rw [Predicate.holds, Predicate.holds, Predicate.anyHolds_eq_of_alike clauses h]
  | .field path conditions =>
    rw [Predicate.holds, Predicate.holds,
      Condition.allHold_eq_of_alike conditions (reach_alike path h)]

theorem Predicate.allHold_eq_of_alike (clauses : List Predicate) {v w : Json} (h : Alike v w) :
    Predicate.allHold clauses v = Predicate.allHold clauses w := by
  match clauses with
  | [] => rfl
  | p :: rest =>
    rw [Predicate.allHold, Predicate.allHold, p.holds_eq_of_alike h,
      Predicate.allHold_eq_of_alike rest h]

theorem Predicate.anyHolds_eq_of_alike (clauses : List Predicate) {v w : Json}
    (h : Alike v w) : Predicate.anyHolds clauses v = Predicate.anyHolds clauses w := by
  match clauses with
  | [] => rfl
  | p :: rest =>
    rw [Predicate.anyHolds, Predicate.anyHolds, p.holds_eq_of_alike h,
      Predicate.anyHolds_eq_of_alike rest h]

/-- A condition holds for both of two lists of alike values, or for neither. -/
theorem Condition.holds_eq_of_alike (c : Condition) {found found' : List Json}
    (h : List.Forall₂ Alike found found') : c.holds found = c.holds found' := by
  match c with
  | .eq value =>
    rw [Condition.holds, Condition.holds, anyEquals_eq_of_alike h value]
  | .ne value =>
    rw [Condition.holds, Condition.holds, anyEquals_eq_of_alike h value]
  | .range comparison bound =>
    rw [Condition.holds, Condition.holds]
    exact any_eq_of_forall₂ h fun v w hvw => inRange_eq_of_alike hvw comparison bound
  | .oneOf values =>
    have hfound : anyEquals found = anyEquals found' := funext (anyEquals_eq_of_alike h)
    rw [Condition.holds, Condition.holds, hfound]
  | .noneOf values =>
    have hfound : anyEquals found = anyEquals found' := funext (anyEquals_eq_of_alike h)
    rw [Condition.holds, Condition.holds, hfound]
  | .present expected =>
    have hempty : found.isEmpty = found'.isEmpty := by
      cases h <;> rfl
    rw [Condition.holds, Condition.holds, hempty]
  | .size length =>
    rw [Condition.holds, Condition.holds]
    refine any_eq_of_forall₂ h fun v w => elements_eq_of_alike fun xs ys hitems => ?_
    rw [hitems.length_eq]
  | .containing values =>
    rw [Condition.holds, Condition.holds]
    refine congrArg (!values.isEmpty && ·) (any_eq_of_forall₂ h fun v w hvw => ?_)
    rw [funext (equalsOrContains_eq_of_alike hvw)]
  | .elementDocument predicate =>
    rw [Condition.holds, Condition.holds]
    refine any_eq_of_forall₂ h fun v w => elements_eq_of_alike fun xs ys hitems => ?_
    refine any_eq_of_forall₂ hitems fun x y hxy => ?_
    rw [hxy.isObject_eq, predicate.holds_eq_of_alike hxy]
  | .elementValue conditions =>
    rw [Condition.holds, Condition.holds]
    refine any_eq_of_forall₂ h fun v w => elements_eq_of_alike fun xs ys hitems => ?_
    exact any_eq_of_forall₂ hitems fun x y hxy =>
      Condition.allHold_eq_of_alike conditions (.cons hxy .nil)
  | .negated conditions =>
    rw [Condition.holds, Condition.holds, Condition.allHold_eq_of_alike conditions h]

theorem Condition.allHold_eq_of_alike (conditions : List Condition) {found found' : List Json}
    (h : List.Forall₂ Alike found found') :
    Condition.allHold conditions found = Condition.allHold conditions found' := by
  match conditions with
  | [] => rfl
  | c :: rest =>
    rw [Condition.allHold, Condition.allHold, c.holds_eq_of_alike h,
      Condition.allHold_eq_of_alike rest h]

end

/-- **Filters do not tell alike documents apart.** -/
theorem Filter.selects_eq_of_alike (f : Filter) {v w : Json} (h : Alike v w) :
    f.selects v = f.selects w :=
  f.predicate.holds_eq_of_alike h

end DocWatch
