import DocWatch.Proofs.Action
import DocWatch.Proofs.Filter.Field

/-!
# What a pull removes

An object under a pull is read by its keys: with an operator among them it is a condition, which
each element is put under a key of its own for, and otherwise it is a filter of the elements that
are objects. A filter that asks for an element of an array reads the same object by another test of
its keys and looks at the elements in their array. Both readings select the same elements.

- `Filter.onlyValueOperators_of_compileOperators`: the two tests agree on what is accepted.
- `Selector.exists_elemMatch`: the elements of an array that a filter asks for.
- `Update.run_pull`: the array after a pull.
- `Update.pull_agrees_with_elemMatch`: the main result.
-/

namespace DocWatch

open Json (single)

/-! ## One operand, two tests -/

namespace Filter

variable {fields : Members Json}

/-- In an operator expression there are operators on values only. -/
theorem mem_valueOperators_of_compileOperators {conditions : List Condition}
    (h : compileOperators fields = .ok conditions) : ∀ m ∈ fields, m.1 ∈ valueOperators := by
  induction fields generalizing conditions with
  | nil => exact List.forall_mem_nil _
  | cons m rest ih =>
    obtain ⟨key, v⟩ := m
    rw [compileOperators_cons] at h
    obtain ⟨c, hmember, h⟩ := exists_of_bind_ok h
    obtain ⟨cs, hrest, -⟩ := exists_of_bind_ok h
    refine List.forall_mem_cons.mpr ⟨?_, ih hrest⟩
    by_contra hunknown
    unfold compileMember at hmember
    split_ifs at hmember
    rw [compileOperator_unknown v hunknown] at hmember
    cases hmember

/-- What is accepted as a condition on the elements is one for `$elemMatch` as well. -/
theorem onlyValueOperators_of_compileOperators (hexpr : hasOperator fields = true)
    {conditions : List Condition} (h : compileOperators fields = .ok conditions) :
    onlyValueOperators fields = true := by
  have hvalue : ∀ key ∈ valueOperators,
      (isOperator key && key != "$and" && key != "$or" && key != "$nor") = true := by decide
  unfold onlyValueOperators
  rw [Bool.and_eq_true, List.all_eq_true]
  refine ⟨?_, fun m hm => hvalue m.1 (mem_valueOperators_of_compileOperators h m hm)⟩
  cases fields with
  | nil => cases hexpr
  | cons m rest => rfl

/-- And so is a filter of the elements. -/
theorem onlyValueOperators_of_not_hasOperator (h : hasOperator fields = false) :
    onlyValueOperators fields = false := by
  cases fields with
  | nil => rfl
  | cons m rest =>
    rw [hasOperator, List.any_cons, Bool.or_eq_false_iff] at h
    simp only [onlyValueOperators, List.all_cons, h.1, Bool.false_and, Bool.and_false]

end Filter

/-! ## The elements that are selected -/

namespace Selector

variable {fields : Members Json} {selector : Selector}

/-- A condition is asked of the element alone. -/
theorem selects_condition (conditions : List Condition) (source element : Json) :
    (condition ⟨.field [liftKey] conditions, source⟩).selects element =
      Condition.allHold conditions [element] := by
  have hlifted : (single liftKey element).get? [liftKey] = some element := rfl
  rw [selects, Filter.selects, Predicate.holds]
  exact congrArg _ (Json.reach_of_get? hlifted)

/-- What is accepted under a pull is accepted under `$elemMatch`, and asks for an element that the
pull would remove. -/
theorem exists_elemMatch (h : parse (.obj fields) = .ok selector) :
    ∃ c, Filter.compileOperator "$elemMatch" (.obj fields) = .ok c ∧
      ∀ items, c.holds [.arr items] = items.any selector.selects := by
  rw [parse] at h
  cases hexpr : Filter.hasOperator fields with
  | true =>
    have hlift : Filter.compile (.obj [(liftKey, .obj fields)]) =
        (fun conditions => ⟨.field [liftKey] conditions, single liftKey (.obj fields)⟩) <$>
          Filter.compileOperators fields := by
      have hfield : Filter.compileFieldValue (.obj fields) = Filter.compileOperators fields := by
        rw [Filter.compileFieldValue, if_pos hexpr]
      rw [← hfield]
      exact Filter.compile_single (by decide) (by decide +kernel) _
    rw [hexpr, if_pos rfl, hlift] at h
    cases hconditions : Filter.compileOperators fields with
    | error e =>
      rw [hconditions] at h
      cases h
    | ok conditions =>
      rw [hconditions] at h
      obtain rfl := Except.ok.inj h
      refine ⟨.elementValue conditions, ?_, fun items => ?_⟩
      · rw [Filter.compileOperator_elemMatch,
          if_pos (Filter.onlyValueOperators_of_compileOperators hexpr hconditions), hconditions]
        rfl
      · rw [Condition.holds, List.any_cons, List.any_nil, Bool.or_false,
          funext (selects_condition conditions _)]
  | false =>
    rw [hexpr, if_neg Bool.false_ne_true, Filter.compile] at h
    cases hclauses : Filter.compileClauses fields with
    | error e =>
      rw [hclauses] at h
      cases h
    | ok clauses =>
      rw [hclauses] at h
      obtain rfl := Except.ok.inj h
      refine ⟨.elementDocument (Filter.conjunction clauses), ?_, fun items => ?_⟩
      · rw [Filter.compileOperator_elemMatch, Filter.onlyValueOperators_of_not_hasOperator hexpr,
          if_neg Bool.false_ne_true, hclauses]
        rfl
      · rw [Condition.holds, List.any_cons, List.any_nil, Bool.or_false]
        rfl

end Selector

/-! ## The array after a pull -/

namespace Update

/-- A pull from an array succeeds. -/
theorem run_pull {d : Json} {path : FieldPath} {items : List Json}
    (h : d.get? path = some (.arr items)) (selector : Selector) :
    run [.pull path selector] d =
      .ok (d.modify path fun _ => .arr (items.filter fun v => !selector.selects v)) :=
  (run_cons_ok_iff _ _ _ _).mpr ⟨_, apply_pull h selector, rfl⟩

/-- **A pull removes what `$elemMatch` asks for.** Whatever object is accepted under a pull makes
a filter under `$elemMatch` too, and that asks for an array with an element that the pull removes.
So where storage reaches an array, the pull succeeds, the array keeps the other elements in order,
the filter does not ask for it any more, and another pull changes nothing. -/
theorem pull_agrees_with_elemMatch {fields : Members Json} {selector : Selector}
    (h : Selector.parse (.obj fields) = .ok selector) :
    (∀ element, Filter.answer (single "a" (single "$elemMatch" (.obj fields)))
      (single "a" (.arr [element])) = .ok (selector.selects element)) ∧
    ∀ key path d items, Filter.isOperator key = false → FieldPath.parse key = .ok path →
      d.get? path = some (.arr items) →
      ∃ u new, parse (single "$pull" (single key (.obj fields))) = .ok u ∧
        run u d = .ok new ∧
        new.get? path = some (.arr (items.filter fun v => !selector.selects v)) ∧
        Filter.answer (single key (single "$elemMatch" (.obj fields))) new = .ok false ∧
        run u new = .ok new := by
  obtain ⟨c, hcompile, hholds⟩ := Selector.exists_elemMatch h
  have hanswer : ∀ {key path d items}, Filter.isOperator key = false →
      FieldPath.parse key = .ok path → d.get? path = some (.arr items) →
      Filter.answer (single key (single "$elemMatch" (.obj fields))) d =
        .ok (items.any selector.selects) := by
    intro key path d items hkey hpath hget
    rw [Filter.answer_operator hkey hpath hget (by decide), hcompile]
    exact congrArg _ (hholds items)
  constructor
  · intro element
    have hget : (single "a" (.arr [element])).get? ["a"] = some (.arr [element]) := rfl
    rw [hanswer (by decide) (by decide +kernel) hget, List.any_cons, List.any_nil, Bool.or_false]
  · intro key path d items hkey hpath hget
    have hnew := Json.get?_modify hget fun _ => .arr (items.filter fun v => !selector.selects v)
    refine ⟨[.pull path selector], _, ?_, run_pull hget selector, hnew, ?_, ?_⟩
    · rw [parse_single (by decide), parseOperator, hpath]
      simp only [h]
      rfl
    · rw [hanswer hkey hpath hnew]
      simp [List.any_filter]
    · have hagain : Json.arr ((items.filter fun v => !selector.selects v).filter
          fun v => !selector.selects v) = .arr (items.filter fun v => !selector.selects v) := by
        simp [List.filter_filter]
      rw [run_pull hnew, Json.modify_of_fixed hnew hagain]

/-- Numbers, an array of numbers and a text. -/
def shelf : Json :=
  .obj [("a", .obj [("b", .arr [.nat 5, .nat 1, .arr [.nat 2, .nat 7], .str "x"])])]

/-- A bound selects numbers above it, and arrays with such a number. -/
theorem pull_above_bound :
    (∃ selector, Selector.parse (single "$gt" (.nat 3)) = .ok selector) ∧
    ∃ u new, parse (single "$pull" (single "a.b" (single "$gt" (.nat 3)))) = .ok u ∧
      run u shelf = .ok new ∧ new.get? ["a", "b"] = some (.arr [.nat 1, .str "x"]) ∧
      Filter.answer (single "a.b" (single "$elemMatch" (single "$gt" (.nat 3)))) new =
        .ok false := by
  have hpath : FieldPath.parse "a.b" = .ok ["a", "b"] := by decide +kernel
  obtain ⟨selector, hselector⟩ :
      ∃ selector, Selector.parse (single "$gt" (.nat 3)) = .ok selector := ⟨_, rfl⟩
  obtain ⟨u, new, hparse, hrun, hget, hanswer, -⟩ :=
    (pull_agrees_with_elemMatch hselector).2 "a.b" _ shelf _ (by decide) hpath rfl
  obtain rfl := Except.ok.inj hselector
  exact ⟨⟨_, rfl⟩, u, new, hparse, hrun, hget.trans (by decide +kernel), hanswer⟩

end Update
end DocWatch
