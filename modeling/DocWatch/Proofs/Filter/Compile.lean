import DocWatch.Proofs.Filter.Conditions
import DocWatch.Proofs.Settles

/-!
# Compiled filters mean what filter documents say

Compilation succeeds exactly on the documents that are filters, and the predicate that it gives
holds of a document exactly if the filter document says so. Both are shown at once, along the
recursion of the compiler (`Settles`), because the meaning of a part is needed as soon as the
part is known to be valid.

- `Filter.settles_clauses` and its companions: one statement for each function of the compiler.
- `Filter.compile_means`: the main result.
-/

namespace DocWatch

namespace Filter

open FilterDocument

/-! ## The compiler, function by function -/

/-- A conjunction of one clause is that clause, so nothing changes for the document. -/
theorem holds_conjunction (ps : List Predicate) (doc : Json) :
    (conjunction ps).holds doc = Predicate.allHold ps doc := by
  unfold conjunction
  split
  · rw [Predicate.allHold, Predicate.allHold, Bool.and_true]
  · rw [Predicate.holds]

/-- The clause of one key. -/
def compileClause (key : String) (v : Json) : Except CompileError Predicate :=
  if key = "$and" then Predicate.all <$> compileFilters key v
  else if key = "$or" then Predicate.any <$> compileFilters key v
  else if key = "$nor" then Predicate.neither <$> compileFilters key v
  else if isOperator key then .error (.unknownOperator key)
  else match FieldPath.parse key with
    | .error _ => .error (.invalidPath key)
    | .ok path => Predicate.field path <$> compileFieldValue v

theorem compileClauses_cons (key : String) (v : Json) (rest : Members Json) :
    compileClauses ((key, v) :: rest) = (do
      let clause ← compileClause key v
      let clauses ← compileClauses rest
      return clause :: clauses) := by
  rw [compileClauses, compileClause]
  split_ifs
  · rfl
  · rfl
  · rfl
  · rfl
  · cases FieldPath.parse key <;> rfl

/-- A filter inside another one. -/
def compileItem : Json → Except CompileError Predicate
  | .obj fields => conjunction <$> compileClauses fields
  | v => .error (.notAnObject v.typeName)

theorem compileFilterItems_cons (v : Json) (rest : List Json) :
    compileFilterItems (v :: rest) = (do
      let p ← compileItem v
      let ps ← compileFilterItems rest
      return p :: ps) := by
  cases v <;> rfl

/-- The condition of one member of an operator expression. -/
def compileMember (key : String) (v : Json) : Except CompileError Condition :=
  if isOperator key then compileOperator key v else .error (.invalidOperand key .mixedKeys)

theorem compileOperators_cons (key : String) (v : Json) (rest : Members Json) :
    compileOperators ((key, v) :: rest) = (do
      let condition ← compileMember key v
      let conditions ← compileOperators rest
      return condition :: conditions) := by
  rw [compileOperators, compileMember]
  split_ifs <;> rfl

section Operand

variable (operand : Json)

attribute [local simp] compileOperator Comparison.operator

theorem compileOperator_eq : compileOperator "$eq" operand = .ok (.eq operand) := by simp

theorem compileOperator_ne : compileOperator "$ne" operand = .ok (.ne operand) := by simp

theorem compileOperator_range (c : Comparison) :
    compileOperator c.operator operand = .ok (.range c operand) := by
  cases c <;> simp

theorem compileOperator_in :
    compileOperator "$in" operand = Condition.oneOf <$> arrayOperand "$in" operand := by
  simp

theorem compileOperator_nin :
    compileOperator "$nin" operand = Condition.noneOf <$> arrayOperand "$nin" operand := by
  simp

theorem compileOperator_all :
    compileOperator "$all" operand = Condition.containing <$> arrayOperand "$all" operand := by
  simp

theorem compileOperator_exists : compileOperator "$exists" operand =
    Condition.present <$> presenceOperand "$exists" operand := by
  simp

theorem compileOperator_size :
    compileOperator "$size" operand = Condition.size <$> sizeOperand "$size" operand := by
  simp

theorem compileOperator_elemMatch (fields : Members Json) :
    compileOperator "$elemMatch" (.obj fields) =
      if onlyValueOperators fields then Condition.elementValue <$> compileOperators fields
      else (fun ps => Condition.elementDocument (conjunction ps)) <$> compileClauses fields := by
  simp

theorem compileOperator_not (fields : Members Json) :
    compileOperator "$not" (.obj fields) =
      if hasOperator fields then Condition.negated <$> compileOperators fields
      else .error (.invalidOperand "$not" .notOperators) := by
  simp

theorem compileOperator_unknown {operator : String} (h : operator ∉ valueOperators) :
    compileOperator operator operand = .error (.unknownOperator operator) := by
  simp only [valueOperators, List.mem_cons, List.not_mem_nil, or_false, not_or] at h
  rw [compileOperator] <;> simp [h]

end Operand

/-- A condition agrees with what is asked of the values found. -/
def ConditionAgrees (asked : Set Json → Prop) (c : Condition) : Prop :=
  ∀ found : List Json, c.holds found = true ↔ asked {w | w ∈ found}

/-- Conditions agree with what is asked of the values found. -/
def ConditionsAgree (asked : Set Json → Prop) (cs : List Condition) : Prop :=
  ∀ found : List Json, Condition.allHold cs found = true ↔ asked {w | w ∈ found}

/-- Predicates agree with the clauses of a filter document. -/
def ClausesAgree (fields : Members Json) (ps : List Predicate) : Prop :=
  ∀ doc, Predicate.allHold ps doc = true ↔ ClausesHold fields doc

/-- Filters in an array agree with the items, whether all of them are asked for or one. -/
def ItemsAgree (items : List Json) (ps : List Predicate) : Prop :=
  ∀ doc, (Predicate.allHold ps doc = true ↔ AllHold items doc) ∧
    (Predicate.anyHolds ps doc = true ↔ AnyHolds items doc)

/-- The operand of a logical operator is an array with at least one filter. -/
theorem settles_filters (operator : String) (v : Json)
    (h : ∀ items, v = .arr items →
      Settles (compileFilterItems items) (ValidItems items) (ItemsAgree items)) :
    Settles (compileFilters operator v) (ValidFilters v)
      fun ps => ∃ items, v = .arr items ∧ ItemsAgree items ps := by
  cases v with
  | arr items =>
    rw [ValidFilters]
    cases items with
    | nil => exact settles_error fun hvalid => hvalid.1 rfl
    | cons item rest =>
      rw [eq_true (List.cons_ne_nil item rest), true_and]
      exact (h _ rfl).mono fun ps hps => ⟨_, rfl, hps⟩
  | _ => exact settles_error (by simp [ValidFilters])

/-- A clause with a logical operator. -/
theorem settles_logical {key : String} {v : Json} {P : List Predicate → Predicate}
    (hfilters : Settles (compileFilters key v) (ValidFilters v)
      fun ps => ∃ items, v = .arr items ∧ ItemsAgree items ps)
    (hholds : ∀ items ps, ItemsAgree items ps →
      ∀ doc, (P ps).holds doc = true ↔ ClauseHolds key (.arr items) doc) :
    Settles (P <$> compileFilters key v) (ValidFilters v) fun p =>
      ∀ doc, p.holds doc = true ↔ ClauseHolds key v doc := by
  refine hfilters.map fun ps hps => ?_
  obtain ⟨items, rfl, hagree⟩ := hps
  exact hholds items ps hagree

/-- A clause with a path. -/
theorem settles_field {key : String} {v : Json} (hlogical : key ∉ logical)
    (hfield : Settles (compileFieldValue v) (ValidField v) (ConditionsAgree (FieldHolds v)))
    {r : Except CompileError Predicate}
    (hr : r = if isOperator key then .error (.unknownOperator key)
      else match FieldPath.parse key with
        | .error _ => .error (.invalidPath key)
        | .ok path => Predicate.field path <$> compileFieldValue v) :
    Settles r (¬ IsOperator key ∧ "" ∉ FieldPath.dotted key ∧ ValidField v) fun p =>
      ∀ doc, p.holds doc = true ↔ ClauseHolds key v doc := by
  rw [hr]
  by_cases hop : isOperator key = true
  · rw [if_pos hop]
    exact settles_error fun h => h.1 ((isOperator_iff key).mp hop)
  · rw [if_neg hop]
    cases hparse : FieldPath.parse key with
    | error e =>
      refine settles_error fun h => ?_
      rw [(FieldPath.parse_ok_iff key _).mpr ⟨h.2.1, rfl⟩] at hparse
      cases hparse
    | ok path =>
      obtain ⟨hsegments, rfl⟩ := (FieldPath.parse_ok_iff key path).mp hparse
      have hvalid : (¬ IsOperator key ∧ "" ∉ FieldPath.dotted key ∧ ValidField v) =
          ValidField v := by
        rw [← isOperator_iff]
        simp [hop, hsegments]
      rw [hvalid]
      refine hfield.map fun cs hcs doc => ?_
      have hset : {w | w ∈ Json.reach (FieldPath.dotted key) doc} =
          {w | doc.Reaches (FieldPath.dotted key) w} :=
        Set.ext fun w => Json.mem_reach_iff _ _ _
      simp only [logical, List.mem_cons, List.not_mem_nil, or_false, not_or] at hlogical
      obtain ⟨hand, hor, hnor⟩ := hlogical
      rw [Predicate.holds, hcs, hset, ClauseHolds]
      · exact hand
      · exact hor
      · exact hnor

/-- One clause, given what is known of the filters and of the conditions in it. -/
theorem settles_clause (key : String) (v : Json)
    (hitems : ∀ items, v = .arr items →
      Settles (compileFilterItems items) (ValidItems items) (ItemsAgree items))
    (hfield : Settles (compileFieldValue v) (ValidField v) (ConditionsAgree (FieldHolds v))) :
    Settles (compileClause key v) (ValidClause key v) fun p =>
      ∀ doc, p.holds doc = true ↔ ClauseHolds key v doc := by
  have hfilters := settles_filters key v hitems
  rw [ValidClause, compileClause]
  by_cases hand : key = "$and"
  · subst hand
    refine settles_logical hfilters fun items ps hagree doc => ?_
    rw [Predicate.holds, ClauseHolds]
    exact (hagree doc).1
  by_cases hor : key = "$or"
  · subst hor
    refine settles_logical hfilters fun items ps hagree doc => ?_
    rw [Predicate.holds, ClauseHolds]
    exact (hagree doc).2
  by_cases hnor : key = "$nor"
  · subst hnor
    refine settles_logical hfilters fun items ps hagree doc => ?_
    rw [Predicate.holds, ClauseHolds, Bool.not_eq_true', ← Bool.not_eq_true]
    exact not_congr (hagree doc).2
  · have hlogical : key ∉ logical := by simp [logical, hand, hor, hnor]
    rw [if_neg hlogical, if_neg hand, if_neg hor, if_neg hnor]
    exact settles_field hlogical hfield rfl

/-! ### Operators -/

/-- An operator on a list of values. -/
theorem settles_arrayOperand {operator : String} (operand : Json)
    (make : List Json → Condition) (asked : List Json → Set Json → Prop)
    (h : ∀ items, ConditionAgrees (asked items) (make items)) :
    Settles (make <$> arrayOperand operator operand) (∃ items, operand = .arr items)
      (ConditionAgrees fun found => ∃ items, operand = .arr items ∧ asked items found) := by
  cases operand with
  | arr items =>
    refine ⟨⟨items, rfl⟩, fun found => (h items found).trans ?_⟩
    constructor
    · exact fun hasked => ⟨items, rfl, hasked⟩
    · rintro ⟨items', he, hasked⟩
      cases he
      exact hasked
  | _ =>
    refine settles_error ?_
    rintro ⟨items, he⟩
    cases he

/-- Presence is asked for with a boolean, a number or null. -/
theorem settles_exists (operand : Json) :
    Settles (Condition.present <$> presenceOperand "$exists" operand)
      (operand = .null ∨ (∃ b, operand = .bool b) ∨ ∃ n, operand = .num n)
      (ConditionAgrees fun found => operand.AsksPresence ↔ found.Nonempty) := by
  cases operand with
  | null =>
    refine ⟨.inl rfl, fun found => ?_⟩
    rw [holds_present_iff]
    simp [Json.AsksPresence]
  | bool b =>
    refine ⟨.inr (.inl ⟨b, rfl⟩), fun found => ?_⟩
    rw [holds_present_iff]
    simp [Json.AsksPresence]
  | num n =>
    refine ⟨.inr (.inr ⟨n, rfl⟩), fun found => ?_⟩
    rw [holds_present_iff]
    simp [Json.AsksPresence]
  | _ => exact settles_error (by simp)

/-- A length is asked for with an unsigned integer. -/
theorem settles_size (operand : Json) :
    Settles (Condition.size <$> sizeOperand "$size" operand) (∃ length, operand.Counts length)
      (ConditionAgrees fun found => ∃ items, .arr items ∈ found ∧ operand.Counts items.length) := by
  have hnone : (∀ n : Number, operand = .num n → n.toNat? = none) →
      ¬ ∃ length, operand.Counts length := by
    rintro hn ⟨length, n, he, hlength⟩
    rw [hn n he] at hlength
    cases hlength
  cases operand with
  | num n =>
    rw [sizeOperand]
    cases hcount : n.toNat? with
    | none =>
      refine settles_error (hnone fun n' he => ?_)
      cases he
      exact hcount
    | some k =>
      have hcounts : ∀ length, (Json.num n).Counts length ↔ length = k := by
        intro length
        unfold Json.Counts
        constructor
        · rintro ⟨n', he, hlength⟩
          cases he
          rw [hcount] at hlength
          exact (Option.some.inj hlength).symm
        · rintro rfl
          exact ⟨n, rfl, hcount⟩
      refine ⟨⟨k, (hcounts k).mpr rfl⟩, fun found => ?_⟩
      rw [holds_size_iff]
      simp only [hcounts]
  | _ =>
    refine settles_error (hnone fun n he => ?_)
    cases he

/-- What is known of the object that stands under an operator. -/
structure ObjectSettles (fields : Members Json) : Prop where
  operators : Settles (compileOperators fields) (ValidOperators fields)
    (ConditionsAgree (OperatorsHold fields))
  clauses : Settles (compileClauses fields) (ValidClauses fields) (ClausesAgree fields)

/-- An element is asked for by an operator expression on it or by a filter. -/
theorem settles_elemMatch (operand : Json)
    (hobj : ∀ fields, operand = .obj fields → ObjectSettles fields) :
    Settles (compileOperator "$elemMatch" operand) (ValidOperator "$elemMatch" operand)
      (ConditionAgrees (OperatorHolds "$elemMatch" operand)) := by
  cases operand with
  | obj fields =>
    obtain ⟨hoperators, hclauses⟩ := hobj fields rfl
    rw [compileOperator_elemMatch, ValidOperator]
    by_cases helements : AsksElements fields
    · rw [if_pos ((onlyValueOperators_iff fields).mpr helements), if_pos helements]
      refine hoperators.map fun cs hcs found => ?_
      rw [Condition.holds, OperatorHolds]
      refine (any_element_iff found _).trans ?_
      refine exists_congr fun items => and_congr_right fun _ => ?_
      refine exists_congr fun item => and_congr_right fun _ => ?_
      have hsingle : {w | w ∈ [item]} = ({item} : Set Json) := by
        ext w
        exact List.mem_singleton
      rw [hcs, if_pos helements, hsingle]
    · rw [if_neg (fun h => helements ((onlyValueOperators_iff fields).mp h)), if_neg helements]
      refine hclauses.map fun ps hps found => ?_
      rw [Condition.holds, OperatorHolds]
      refine (any_element_iff found _).trans ?_
      refine exists_congr fun items => and_congr_right fun _ => ?_
      refine exists_congr fun item => and_congr_right fun _ => ?_
      rw [Bool.and_eq_true, holds_conjunction, hps, if_neg helements]
  | _ => exact settles_error (by simp [ValidOperator])

/-- Only an operator expression can be negated. -/
theorem settles_not (operand : Json)
    (hobj : ∀ fields, operand = .obj fields → ObjectSettles fields) :
    Settles (compileOperator "$not" operand) (ValidOperator "$not" operand)
      (ConditionAgrees (OperatorHolds "$not" operand)) := by
  cases operand with
  | obj fields =>
    obtain ⟨hoperators, -⟩ := hobj fields rfl
    rw [compileOperator_not, ValidOperator]
    by_cases hexpr : IsExpression fields
    · rw [if_pos ((hasOperator_iff fields).mpr hexpr), eq_true hexpr, true_and]
      refine hoperators.map fun cs hcs found => ?_
      rw [Condition.holds, OperatorHolds, Bool.not_eq_true', ← Bool.not_eq_true]
      exact not_congr (hcs found)
    · rw [if_neg (fun h => hexpr ((hasOperator_iff fields).mp h))]
      exact settles_error fun h => hexpr h.1
  | _ => exact settles_error (by simp [ValidOperator])

/-- One operator, by its equations: how it is compiled, which operands suit it, and what it says. -/
theorem settles_of_equations {operator : String} {operand : Json}
    {r : Except CompileError Condition} {valid : Prop} {asked : Set Json → Prop}
    (hcompile : compileOperator operator operand = r)
    (hvalid : ValidOperator operator operand ↔ valid)
    (hholds : ∀ found, OperatorHolds operator operand found ↔ asked found)
    (h : Settles r valid (ConditionAgrees asked)) :
    Settles (compileOperator operator operand) (ValidOperator operator operand)
      (ConditionAgrees (OperatorHolds operator operand)) := by
  rw [hcompile]
  exact (h.congr hvalid.symm).mono fun c hc found => (hc found).trans (hholds _).symm

/-- One operator, given what is known of the object that stands under it. -/
theorem settles_operator (operator : String) (operand : Json)
    (hobj : ∀ fields, operand = .obj fields → ObjectSettles fields) :
    Settles (compileOperator operator operand) (ValidOperator operator operand)
      (ConditionAgrees (OperatorHolds operator operand)) := by
  cases operator using operator_cases with
  | eq =>
    exact settles_of_equations (compileOperator_eq operand) (validOperator_eq operand)
      (operatorHolds_eq operand)
      (settles_ok _ fun found => Json.anyEquals_iff found operand)
  | ne =>
    exact settles_of_equations (compileOperator_ne operand) (validOperator_ne operand)
      (operatorHolds_ne operand)
      (settles_ok _ fun found => holds_ne_iff found operand)
  | range c =>
    exact settles_of_equations (compileOperator_range operand c) (validOperator_range operand c)
      (fun found => operatorHolds_range operand found c)
      (settles_ok _ fun found => holds_range_iff found c operand)
  | oneOf =>
    exact settles_of_equations (compileOperator_in operand) (validOperator_list operand (by decide))
      (operatorHolds_in operand)
      (settles_arrayOperand operand .oneOf
        (fun items found => ∃ x ∈ items, FindsEqual found x)
        fun items found => holds_oneOf_iff found items)
  | noneOf =>
    exact settles_of_equations (compileOperator_nin operand)
      (validOperator_list operand (by decide)) (operatorHolds_nin operand)
      (settles_arrayOperand operand .noneOf
        (fun items found => ∀ x ∈ items, ¬ FindsEqual found x)
        fun items found => holds_noneOf_iff found items)
  | containing =>
    exact settles_of_equations (compileOperator_all operand)
      (validOperator_list operand (by decide)) (operatorHolds_all operand)
      (settles_arrayOperand operand .containing
        (fun items found => items ≠ [] ∧ ∃ v ∈ found, ∀ x ∈ items, v.HasEqual x)
        fun items found => holds_containing_iff found items)
  | present =>
    exact settles_of_equations (compileOperator_exists operand) (validOperator_exists operand)
      (operatorHolds_exists operand) (settles_exists operand)
  | size =>
    exact settles_of_equations (compileOperator_size operand) (validOperator_size operand)
      (operatorHolds_size operand) (settles_size operand)
  | elemMatch => exact settles_elemMatch operand hobj
  | negated => exact settles_not operand hobj
  | unknown operator hunknown =>
    rw [compileOperator_unknown operand hunknown]
    exact settles_error (not_validOperator operand hunknown)

/-- In an operator expression, a key that begins with no dollar sign is no operator. -/
theorem settles_member (operator : String) (operand : Json)
    (hobj : ∀ fields, operand = .obj fields → ObjectSettles fields) :
    Settles (compileMember operator operand) (ValidOperator operator operand)
      (ConditionAgrees (OperatorHolds operator operand)) := by
  rw [compileMember]
  by_cases hop : isOperator operator = true
  · rw [if_pos hop]
    exact settles_operator operator operand hobj
  · have hunknown : operator ∉ valueOperators := by
      intro hmem
      have hall : ∀ key ∈ valueOperators, isOperator key = true := by decide
      exact hop (hall operator hmem)
    rw [if_neg hop]
    exact settles_error (not_validOperator operand hunknown)

/-! ### The recursion -/

/-- The literal, or the operator expression, that stands under a path. -/
theorem settles_fieldValue (v : Json)
    (hobj : ∀ fields, v = .obj fields → ObjectSettles fields) :
    Settles (compileFieldValue v) (ValidField v) (ConditionsAgree (FieldHolds v)) := by
  have hliteral : ∀ x : Json, ConditionsAgree (fun found => FindsEqual found x) [.eq x] := by
    intro x found
    rw [Condition.allHold, Condition.allHold, Bool.and_true, Condition.holds]
    exact Json.anyEquals_iff found x
  cases v with
  | obj fields =>
    rw [compileFieldValue, ValidField]
    by_cases hexpr : IsExpression fields
    · rw [if_pos ((hasOperator_iff fields).mpr hexpr), if_pos hexpr]
      refine (hobj fields rfl).operators.mono fun cs hcs found => ?_
      rw [FieldHolds, if_pos hexpr]
      exact hcs found
    · rw [if_neg (fun h => hexpr ((hasOperator_iff fields).mp h)), if_neg hexpr]
      refine settles_ok _ fun found => ?_
      rw [FieldHolds, if_neg hexpr]
      exact hliteral (.obj fields) found
  | _ =>
    simp only [compileFieldValue, ValidField]
    refine settles_ok _ fun found => ?_
    simp only [FieldHolds]
    exact hliteral _ found

mutual

theorem settles_clauses : ∀ fields : Members Json,
    Settles (compileClauses fields) (ValidClauses fields) (ClausesAgree fields)
  | [] => by
    rw [compileClauses, ValidClauses]
    refine settles_ok _ fun doc => ?_
    rw [Predicate.allHold, ClausesHold]
    simp
  | (key, v) :: rest => by
    have hclause := settles_clause key v (fun items _ => settles_items items)
      (settles_fieldValue v fun fields _ => ⟨settles_operators fields, settles_clauses fields⟩)
    rw [compileClauses_cons, ValidClauses]
    refine hclause.cons (settles_clauses rest) fun p ps hp hps doc => ?_
    rw [Predicate.allHold, Bool.and_eq_true, ClausesHold]
    exact and_congr (hp doc) (hps doc)

theorem settles_items : ∀ items : List Json,
    Settles (compileFilterItems items) (ValidItems items) (ItemsAgree items)
  | [] => by
    rw [compileFilterItems, ValidItems]
    refine settles_ok _ fun doc => ⟨?_, ?_⟩
    · rw [Predicate.allHold, AllHold]
      simp
    · rw [Predicate.anyHolds, AnyHolds]
      simp
  | v :: rest => by
    rw [compileFilterItems_cons, ValidItems]
    refine (settles_item v).cons (settles_items rest) fun p ps hp hps doc => ⟨?_, ?_⟩
    · rw [Predicate.allHold, Bool.and_eq_true, AllHold]
      exact and_congr (hp doc) (hps doc).1
    · rw [Predicate.anyHolds, Bool.or_eq_true, AnyHolds]
      exact or_congr (hp doc) (hps doc).2

theorem settles_item : ∀ v : Json, Settles (compileItem v) (ValidItem v) fun p =>
    ∀ doc, p.holds doc = true ↔ ItemHolds v doc
  | .obj fields => by
    rw [compileItem, ValidItem]
    refine (settles_clauses fields).map fun ps hps doc => ?_
    rw [holds_conjunction, ItemHolds]
    exact hps doc
  | .null | .bool _ | .num _ | .str _ | .arr _ => settles_error (by simp [ValidItem])

theorem settles_operators : ∀ fields : Members Json,
    Settles (compileOperators fields) (ValidOperators fields)
      (ConditionsAgree (OperatorsHold fields))
  | [] => by
    rw [compileOperators, ValidOperators]
    refine settles_ok _ fun found => ?_
    rw [Condition.allHold, OperatorsHold]
    simp
  | (operator, operand) :: rest => by
    have hoperator := settles_member operator operand
      fun fields _ => ⟨settles_operators fields, settles_clauses fields⟩
    rw [compileOperators_cons, ValidOperators]
    refine hoperator.cons (settles_operators rest) fun c cs hc hcs found => ?_
    rw [Condition.allHold, Bool.and_eq_true, OperatorsHold]
    exact and_congr (hc found) (hcs found)

end

/-- Null selects everything; any other document has to be an object that is a filter. -/
theorem settles_compile (source : Json) : Settles (compile source) (Valid source) fun f =>
    ∀ doc, f.selects doc = true ↔ Holds source doc := by
  cases source with
  | null =>
    refine settles_ok _ fun doc => ?_
    rw [selects, Predicate.holds, Predicate.allHold, Holds]
    simp
  | obj fields =>
    have hitem := settles_clauses fields
    rw [compile, Valid, ValidItem]
    · refine hitem.map fun ps hps doc => ?_
      rw [selects, holds_conjunction, Holds, ItemHolds]
      · exact hps doc
      · exact Json.noConfusion
    · exact Json.noConfusion
  | _ => exact settles_error (by simp [Valid, ValidItem])

/-- **A compiled filter means what the filter document says.** A document compiles exactly if it is
a filter, and then the filter selects exactly the documents that the filter document describes. -/
theorem compile_means (source : Json) :
    ((∃ f, compile source = .ok f) ↔ Valid source) ∧
      ∀ f, compile source = .ok f → ∀ doc, f.selects doc = true ↔ Holds source doc := by
  have hsettles := settles_compile source
  cases hcompile : compile source with
  | error e =>
    rw [hcompile] at hsettles
    refine ⟨iff_of_false ?_ hsettles, fun f hf => ?_⟩
    · rintro ⟨f, hf⟩
      cases hf
    · cases hf
  | ok f =>
    rw [hcompile] at hsettles
    refine ⟨iff_of_true ⟨f, rfl⟩ hsettles.1, fun f' hf' doc => ?_⟩
    cases hf'
    exact hsettles.2 doc

/-- A choice between an element above a bound and a field that is missing or null. -/
def choice : Json :=
  .obj [("$or", .arr [
    .obj [("a.b", .obj [("$elemMatch", .obj [("$gt", .nat 3)])])],
    .obj [("c", .null)]])]

/-- Inside an array, the path of the first filter reaches the array with the element. -/
theorem choice_holds :
    compile choice = .ok ⟨.any [.field ["a", "b"] [.elementValue [.range .gt (.nat 3)]],
        .field ["c"] [.eq .null]], choice⟩ ∧
      Holds choice (.obj [("a", .arr [.obj [("b", .arr [.nat 1, .nat 5])]]), ("c", .nat 0)]) :=
  ⟨rfl, ((compile_means choice).2 _ rfl _).mp (by decide +kernel)⟩

end Filter
end DocWatch
