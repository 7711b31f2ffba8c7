import DocWatch.Filter.Match
import DocWatch.Proofs.FieldPath
import Mathlib.Data.Set.Basic

/-!
# What filter documents mean

The vocabulary of filters, read off the filter document itself. A filter is null, which selects
everything, or an object with one clause for each key; all clauses have to hold. The clauses under
`$and`, `$or` and `$nor` are filters again. Every other key is a dotted path, and what stands under
it is asked of the values that the path reaches in the document.

- `Json.Reaches`: the values that a path reaches, and `Json.mem_reach_iff`: they are found.
- `FilterDocument.Valid`: the documents that are filters.
- `FilterDocument.Holds`: what a filter document says about a document.
- `FilterDocument.operator_cases`: the operators one by one, each with its equations.
-/

namespace DocWatch

namespace Json

/-! ## Values that a path reaches -/

/-- A path reaches a value. In an array, a segment that is an index goes to its slot, and any other
segment into each element that is an object. -/
inductive Reaches : Json → FieldPath → Json → Prop
  | here (v : Json) : Reaches v [] v
  | member {fields : Members Json} {segment : String} {inner w : Json} {rest : FieldPath} :
      Members.get? fields segment = some inner → Reaches inner rest w →
      Reaches (.obj fields) (segment :: rest) w
  | slot {items : List Json} {segment : String} {i : Nat} {inner w : Json} {rest : FieldPath} :
      FieldPath.signedIndex? segment = some i → items[i]? = some inner → Reaches inner rest w →
      Reaches (.arr items) (segment :: rest) w
  | element {items : List Json} {fields : Members Json} {segment : String} {w : Json}
      {rest : FieldPath} :
      FieldPath.signedIndex? segment = none → .obj fields ∈ items →
      Reaches (.obj fields) (segment :: rest) w → Reaches (.arr items) (segment :: rest) w

theorem reaches_nil_iff (v w : Json) : v.Reaches [] w ↔ w = v := by
  constructor
  · intro h
    cases h
    rfl
  · rintro rfl
    exact .here w

theorem reaches_obj_iff (fields : Members Json) (segment : String) (rest : FieldPath) (w : Json) :
    (obj fields).Reaches (segment :: rest) w ↔
      ∃ inner, Members.get? fields segment = some inner ∧ inner.Reaches rest w := by
  constructor
  · intro h
    cases h with
    | member hget hinner => exact ⟨_, hget, hinner⟩
  · rintro ⟨inner, hget, hinner⟩
    exact .member hget hinner

/-- An element is gone into if it is an object that has the member. -/
theorem reaches_element_iff {items : List Json} {segment : String}
    (h : FieldPath.signedIndex? segment = none) (rest : FieldPath) (w : Json) :
    (arr items).Reaches (segment :: rest) w ↔
      ∃ item ∈ items, ∃ inner, item.field? segment = some inner ∧ inner.Reaches rest w := by
  constructor
  · intro hreach
    cases hreach with
    | slot hindex _ _ =>
      rw [h] at hindex
      cases hindex
    | element _ hmem hinner =>
      obtain ⟨inner, hget, hrest⟩ := (reaches_obj_iff _ _ _ _).mp hinner
      exact ⟨_, hmem, inner, hget, hrest⟩
  · rintro ⟨item, hmem, inner, hfield, hrest⟩
    cases item with
    | obj fields => exact .element h hmem (.member hfield hrest)
    | _ => cases hfield

theorem reaches_slot_iff {items : List Json} {segment : String} {i : Nat}
    (h : FieldPath.signedIndex? segment = some i) (rest : FieldPath) (w : Json) :
    (arr items).Reaches (segment :: rest) w ↔
      ∃ inner, items[i]? = some inner ∧ inner.Reaches rest w := by
  constructor
  · intro hreach
    cases hreach with
    | slot hindex hitem hinner =>
      rw [h] at hindex
      cases hindex
      exact ⟨_, hitem, hinner⟩
    | element hindex _ _ =>
      rw [h] at hindex
      cases hindex
  · rintro ⟨inner, hitem, hinner⟩
    exact .slot h hitem hinner

/-- The values that are found at a path are those that it reaches. -/
theorem mem_reach_iff (path : FieldPath) (v w : Json) : w ∈ reach path v ↔ v.Reaches path w := by
  induction path generalizing v with
  | nil => rw [reach, List.mem_singleton, reaches_nil_iff]
  | cons segment rest ih =>
    cases v with
    | obj fields =>
      rw [reach, reaches_obj_iff]
      cases hget : Members.get? fields segment with
      | none => simp
      | some inner => simp [ih]
    | arr items =>
      rw [reach]
      cases hindex : FieldPath.signedIndex? segment with
      | some i =>
        rw [reaches_slot_iff hindex]
        cases hitem : items[i]? with
        | none => simp [hitem]
        | some inner => simp [hitem, ih]
      | none =>
        rw [reaches_element_iff hindex]
        simp only [List.mem_flatMap]
        refine exists_congr fun item => and_congr_right fun _ => ?_
        cases item.field? segment with
        | none => simp
        | some inner => simp [ih]
    | _ =>
      refine iff_of_false List.not_mem_nil fun h => ?_
      cases h

/-! ## What is asked of the values found -/

/-- A comparison with a value looks at the value, and at its elements if it is an array. -/
def Offers (v w : Json) : Prop := w = v ∨ ∃ items, v = .arr items ∧ w ∈ items

/-- Is a value, or one of its elements, equal to another value? -/
def HasEqual (v x : Json) : Prop := ∃ w, v.Offers w ∧ w.equiv x = true

/-- Is a value, or one of its elements, ordered in one of these ways against a bound? -/
def HasOrdered (v : Json) (orderings : List Ordering) (bound : Json) : Prop :=
  ∃ w o, v.Offers w ∧ w.compare? bound = some o ∧ o ∈ orderings

/-- Does the operand ask for a presence? Every number but zero does. -/
def AsksPresence (operand : Json) : Prop :=
  operand = .bool true ∨ ∃ n : Number, operand = .num n ∧ n.order ≠ 0

/-- Is this the number that counts `length` things? -/
def Counts (operand : Json) (length : Nat) : Prop :=
  ∃ n : Number, operand = .num n ∧ n.toNat? = some length

end Json

namespace FilterDocument

/-- One of the values found is or holds an equal one. Finding nothing is finding null. -/
def FindsEqual (found : Set Json) (x : Json) : Prop :=
  (∃ v ∈ found, v.HasEqual x) ∨ (x = .null ∧ found = ∅)

/-- One of the values found lies in a range. -/
def FindsOrdered (found : Set Json) (orderings : List Ordering) (bound : Json) : Prop :=
  ∃ v ∈ found, v.HasOrdered orderings bound

/-! ## Keys -/

/-- Does a key begin with a dollar sign? -/
def IsOperator (key : String) : Prop := ['$'] <+: key.toList

instance : DecidablePred IsOperator := fun key => inferInstanceAs (Decidable (['$'] <+: key.toList))

/-- The operators on documents. -/
def logical : List String := ["$and", "$or", "$nor"]

/-- An object with an operator among its keys is an operator expression, not a literal. -/
def IsExpression (fields : Members Json) : Prop := ∃ key ∈ Members.keys fields, IsOperator key

instance : DecidablePred IsExpression := fun fields =>
  inferInstanceAs (Decidable (∃ key ∈ Members.keys fields, IsOperator key))

/-- An object that asks something of the elements themselves: all its keys are operators, but none
of them is an operator on documents. -/
def AsksElements (fields : Members Json) : Prop :=
  fields ≠ [] ∧ ∀ key ∈ Members.keys fields, IsOperator key ∧ key ∉ logical

instance : DecidablePred AsksElements := fun fields =>
  inferInstanceAs (Decidable (fields ≠ [] ∧ ∀ key ∈ Members.keys fields, IsOperator key ∧
    key ∉ logical))

/-! ## Filters -/

mutual

/-- An object is a filter if each key and what stands under it are a clause. -/
def ValidClauses : Members Json → Prop
  | [] => True
  | (key, v) :: rest => ValidClause key v ∧ ValidClauses rest

/-- A clause: a logical operator and its filters, or a path and what is asked of its values. -/
def ValidClause (key : String) (v : Json) : Prop :=
  if key ∈ logical then ValidFilters v
  else ¬ IsOperator key ∧ "" ∉ FieldPath.dotted key ∧ ValidField v

/-- The operand of a logical operator: an array with at least one filter. -/
def ValidFilters : Json → Prop
  | .arr items => items ≠ [] ∧ ValidItems items
  | _ => False

/-- Each item is a filter. -/
def ValidItems : List Json → Prop
  | [] => True
  | v :: rest => ValidItem v ∧ ValidItems rest

/-- A filter inside another one: an object, and not null. -/
def ValidItem : Json → Prop
  | .obj fields => ValidClauses fields
  | _ => False

/-- What may be asked of the values at a path: an operator expression, or any literal. -/
def ValidField : Json → Prop
  | .obj fields => if IsExpression fields then ValidOperators fields else True
  | _ => True

/-- An operator expression: each key is an operator, and what stands under it suits it. -/
def ValidOperators : Members Json → Prop
  | [] => True
  | (operator, operand) :: rest => ValidOperator operator operand ∧ ValidOperators rest

/-- The operators and the operands that suit them. -/
def ValidOperator (operator : String) (operand : Json) : Prop :=
  match operator with
  | "$eq" | "$ne" | "$gt" | "$gte" | "$lt" | "$lte" => True
  | "$in" | "$nin" | "$all" => ∃ items, operand = .arr items
  | "$exists" => operand = .null ∨ (∃ b, operand = .bool b) ∨ ∃ n, operand = .num n
  | "$size" => ∃ length, operand.Counts length
  | "$elemMatch" =>
    match operand with
    | .obj fields => if AsksElements fields then ValidOperators fields else ValidClauses fields
    | _ => False
  | "$not" =>
    match operand with
    | .obj fields => IsExpression fields ∧ ValidOperators fields
    | _ => False
  | _ => False

end

/-- The documents that are filters. -/
def Valid : Json → Prop
  | .null => True
  | v => ValidItem v

/-! ## What filters say -/

mutual

/-- All clauses hold. -/
def ClausesHold : Members Json → Json → Prop
  | [], _ => True
  | (key, v) :: rest, doc => ClauseHolds key v doc ∧ ClausesHold rest doc

/-- What one clause says about a document. -/
def ClauseHolds (key : String) (v doc : Json) : Prop :=
  match key with
  | "$and" => match v with
    | .arr items => AllHold items doc
    | _ => False
  | "$or" => match v with
    | .arr items => AnyHolds items doc
    | _ => False
  | "$nor" => match v with
    | .arr items => ¬ AnyHolds items doc
    | _ => False
  | field => FieldHolds v {w | doc.Reaches (FieldPath.dotted field) w}

/-- All of these filters hold. -/
def AllHold : List Json → Json → Prop
  | [], _ => True
  | v :: rest, doc => ItemHolds v doc ∧ AllHold rest doc

/-- One of these filters holds. -/
def AnyHolds : List Json → Json → Prop
  | [], _ => False
  | v :: rest, doc => ItemHolds v doc ∨ AnyHolds rest doc

/-- What a filter inside another one says. -/
def ItemHolds : Json → Json → Prop
  | .obj fields, doc => ClausesHold fields doc
  | _, _ => False

/-- What is asked of the values found at a path: an operator expression is evaluated, and any other
value has to be found. -/
def FieldHolds : Json → Set Json → Prop
  | .obj fields, found =>
    if IsExpression fields then OperatorsHold fields found else FindsEqual found (.obj fields)
  | v, found => FindsEqual found v

/-- All operators hold. -/
def OperatorsHold : Members Json → Set Json → Prop
  | [], _ => True
  | (operator, operand) :: rest, found =>
    OperatorHolds operator operand found ∧ OperatorsHold rest found

/-- What one operator says about the values found. -/
def OperatorHolds (operator : String) (operand : Json) (found : Set Json) : Prop :=
  match operator with
  | "$eq" => FindsEqual found operand
  | "$ne" => ¬ FindsEqual found operand
  | "$gt" => FindsOrdered found [.gt] operand
  | "$gte" => FindsOrdered found [.gt, .eq] operand
  | "$lt" => FindsOrdered found [.lt] operand
  | "$lte" => FindsOrdered found [.lt, .eq] operand
  | "$in" => ∃ items, operand = .arr items ∧ ∃ x ∈ items, FindsEqual found x
  | "$nin" => ∃ items, operand = .arr items ∧ ∀ x ∈ items, ¬ FindsEqual found x
  | "$all" => ∃ items, operand = .arr items ∧ items ≠ [] ∧
      ∃ v ∈ found, ∀ x ∈ items, v.HasEqual x
  | "$exists" => operand.AsksPresence ↔ found.Nonempty
  | "$size" => ∃ items, .arr items ∈ found ∧ operand.Counts items.length
  | "$elemMatch" =>
    match operand with
    | .obj fields => ∃ items, .arr items ∈ found ∧ ∃ item ∈ items,
        if AsksElements fields then OperatorsHold fields {item}
        else item.isObject = true ∧ ClausesHold fields item
    | _ => False
  | "$not" =>
    match operand with
    | .obj fields => ¬ OperatorsHold fields found
    | _ => False
  | _ => False

end

/-- What a filter document says about a document. -/
def Holds : Json → Json → Prop
  | .null, _ => True
  | v, doc => ItemHolds v doc

end FilterDocument

/-! ## One operator at a time -/

/-- How a range operator is written. -/
def Comparison.operator : Comparison → String
  | .gt => "$gt"
  | .gte => "$gte"
  | .lt => "$lt"
  | .lte => "$lte"

/-- The orderings that a range operator accepts. -/
def Comparison.orderings : Comparison → List Ordering
  | .gt => [.gt]
  | .gte => [.gt, .eq]
  | .lt => [.lt]
  | .lte => [.lt, .eq]

/-- The operators on values. -/
def Filter.valueOperators : List String :=
  ["$eq", "$ne", "$gt", "$gte", "$lt", "$lte", "$in", "$nin", "$all", "$exists", "$size",
    "$elemMatch", "$not"]

namespace FilterDocument

open DocWatch.Filter (valueOperators)

/-- What is shown of every operator on values, and of the strings that are none, holds of every
string. The range operators are one case. -/
@[elab_as_elim]
theorem operator_cases {motive : String → Prop} (eq : motive "$eq") (ne : motive "$ne")
    (range : ∀ c : Comparison, motive c.operator) (oneOf : motive "$in") (noneOf : motive "$nin")
    (containing : motive "$all") (present : motive "$exists") (size : motive "$size")
    (elemMatch : motive "$elemMatch") (negated : motive "$not")
    (unknown : ∀ operator ∉ valueOperators, motive operator) (operator : String) :
    motive operator := by
  by_cases hknown : operator ∈ valueOperators
  · simp only [valueOperators, List.mem_cons, List.not_mem_nil, or_false] at hknown
    rcases hknown with rfl | rfl | rfl | rfl | rfl | rfl | rfl | rfl | rfl | rfl | rfl | rfl | rfl
    exacts [eq, ne, range .gt, range .gte, range .lt, range .lte, oneOf, noneOf, containing,
      present, size, elemMatch, negated]
  · exact unknown operator hknown

section Operand

variable (operand : Json)

attribute [local simp] ValidOperator OperatorHolds Comparison.operator Comparison.orderings

/-! ### Operands that suit an operator -/

theorem validOperator_eq : ValidOperator "$eq" operand ↔ True := by simp

theorem validOperator_ne : ValidOperator "$ne" operand ↔ True := by simp

theorem validOperator_range (c : Comparison) : ValidOperator c.operator operand ↔ True := by
  cases c <;> simp

theorem validOperator_list {operator : String} (h : operator ∈ ["$in", "$nin", "$all"]) :
    ValidOperator operator operand ↔ ∃ items, operand = .arr items := by
  simp only [List.mem_cons, List.not_mem_nil, or_false] at h
  rcases h with rfl | rfl | rfl <;> simp

theorem validOperator_exists : ValidOperator "$exists" operand ↔
    operand = .null ∨ (∃ b, operand = .bool b) ∨ ∃ n, operand = .num n := by simp

theorem validOperator_size : ValidOperator "$size" operand ↔ ∃ length, operand.Counts length := by
  simp

theorem not_validOperator {operator : String} (h : operator ∉ valueOperators) :
    ¬ ValidOperator operator operand := by
  simp only [valueOperators, List.mem_cons, List.not_mem_nil, or_false, not_or] at h
  rw [ValidOperator] <;> simp [h]

/-! ### What an operator says -/

variable (found : Set Json)

theorem operatorHolds_eq : OperatorHolds "$eq" operand found ↔ FindsEqual found operand := by
  simp

theorem operatorHolds_ne : OperatorHolds "$ne" operand found ↔ ¬ FindsEqual found operand := by
  simp

theorem operatorHolds_range (c : Comparison) :
    OperatorHolds c.operator operand found ↔ FindsOrdered found c.orderings operand := by
  cases c <;> simp

theorem operatorHolds_in : OperatorHolds "$in" operand found ↔
    ∃ items, operand = .arr items ∧ ∃ x ∈ items, FindsEqual found x := by simp

theorem operatorHolds_nin : OperatorHolds "$nin" operand found ↔
    ∃ items, operand = .arr items ∧ ∀ x ∈ items, ¬ FindsEqual found x := by simp

theorem operatorHolds_all : OperatorHolds "$all" operand found ↔
    ∃ items, operand = .arr items ∧ items ≠ [] ∧ ∃ v ∈ found, ∀ x ∈ items, v.HasEqual x := by
  simp

theorem operatorHolds_exists : OperatorHolds "$exists" operand found ↔
    (operand.AsksPresence ↔ found.Nonempty) := by simp

theorem operatorHolds_size : OperatorHolds "$size" operand found ↔
    ∃ items, .arr items ∈ found ∧ operand.Counts items.length := by simp

theorem operatorHolds_unknown {operator : String} (h : operator ∉ valueOperators) :
    ¬ OperatorHolds operator operand found := by
  simp only [valueOperators, List.mem_cons, List.not_mem_nil, or_false, not_or] at h
  rw [OperatorHolds] <;> simp [h]

end Operand

end FilterDocument
end DocWatch
