import DocWatch.Proofs.Filter.Compile
import DocWatch.Proofs.Json.Reordered

/-!
# The order of keys in filters

A filter document asks the same whatever the order of its keys: of the fields, of the operators
under a field, of the keys in literals and in what stands under an operator. The compiler takes keys
in order and stops at the first fault, but whether there is a fault depends on no order.

- `FilterDocument.Agree`: two parts of filter documents are valid together and say the same.
- `FilterDocument.Interchangeable`: two values agree wherever they stand in a filter document. It is
  shown for arrays and objects from their parts.
- `Filter.compile_reordered`: the main result.
-/

namespace DocWatch

namespace Json

section Related

variable {α β : Type} {R : α → β → Prop} {xs : List α} {ys : List β}

/-- One element of a list has a property if the related element of the other list does. -/
theorem exists_mem_iff_of_forall₂ (h : List.Forall₂ R xs ys) {P : α → Prop} {Q : β → Prop}
    (hPQ : ∀ x y, R x y → (P x ↔ Q y)) : (∃ x ∈ xs, P x) ↔ ∃ y ∈ ys, Q y := by
  induction h with
  | nil => simp
  | cons hxy _ ih => rw [List.exists_mem_cons_iff, List.exists_mem_cons_iff, hPQ _ _ hxy, ih]

theorem forall_mem_iff_of_forall₂ (h : List.Forall₂ R xs ys) {P : α → Prop} {Q : β → Prop}
    (hPQ : ∀ x y, R x y → (P x ↔ Q y)) : (∀ x ∈ xs, P x) ↔ ∀ y ∈ ys, Q y := by
  induction h with
  | nil => simp
  | cons hxy _ ih => rw [List.forall_mem_cons, List.forall_mem_cons, hPQ _ _ hxy, ih]

end Related

/-! ## Alike operands -/

namespace Alike

variable {x y : Json}

theorem hasEqual_iff (h : Alike x y) (v : Json) : v.HasEqual x ↔ v.HasEqual y :=
  exists_congr fun _ => and_congr_right fun _ =>
    ⟨fun hx => equiv_trans hx h.equiv, fun hy => equiv_trans hy h.symm.equiv⟩

theorem eq_null_iff (h : Alike x y) : x = .null ↔ y = .null := by
  cases h.form <;> simp

/-- A value stands alike to alike bounds. -/
theorem compare?_bound (h : Alike x y) (v : Json) : v.compare? x = v.compare? y := by
  cases h.form with
  | num order => cases v <;> simp only [compare?, order]
  | _ => cases v <;> rfl

theorem asksPresence_iff (h : Alike x y) : x.AsksPresence ↔ y.AsksPresence := by
  unfold AsksPresence
  cases h.form with
  | num order => simp [order]
  | _ => simp

/-- What is asked of the items of an array, where alike items are as good. -/
theorem exists_items_iff (h : Alike x y) {P Q : List Json → Prop}
    (hPQ : ∀ xs ys, List.Forall₂ Alike xs ys → (P xs ↔ Q ys)) :
    (∃ items, x = .arr items ∧ P items) ↔ ∃ items, y = .arr items ∧ Q items := by
  cases h.form with
  | arr items => simpa using hPQ _ _ items
  | _ => simp

end Alike

end Json

namespace FilterDocument

open Json

theorem findsEqual_iff_of_alike {x y : Json} (h : Alike x y) (found : Set Json) :
    FindsEqual found x ↔ FindsEqual found y :=
  or_congr (exists_congr fun v => and_congr_right fun _ => h.hasEqual_iff v)
    (and_congr_left fun _ => h.eq_null_iff)

theorem findsOrdered_iff_of_alike {x y : Json} (h : Alike x y) (orderings : List Ordering)
    (found : Set Json) : FindsOrdered found orderings x ↔ FindsOrdered found orderings y := by
  unfold FindsOrdered HasOrdered
  simp only [h.compare?_bound]

/-! ## Parts that agree -/

/-- Two parts of filter documents are valid together, and say the same. -/
structure Agree {α : Type} (valid valid' : Prop) (holds holds' : α → Prop) : Prop where
  valid : valid ↔ valid'
  holds : ∀ a, holds a ↔ holds' a

namespace Agree

variable {α : Type} {p q r : Prop} {P Q R : α → Prop}

theorem refl (p : Prop) (P : α → Prop) : Agree p p P P := ⟨Iff.rfl, fun _ => Iff.rfl⟩

theorem trans (h : Agree p q P Q) (h' : Agree q r Q R) : Agree p r P R :=
  ⟨h.valid.trans h'.valid, fun a => (h.holds a).trans (h'.holds a)⟩

end Agree

/-- Two values agree wherever they stand in a filter document: as a filter in an array, under a key
of a filter, and under an operator. -/
structure Interchangeable (v w : Json) : Prop where
  alike : Alike v w
  item : Agree (ValidItem v) (ValidItem w) (ItemHolds v) (ItemHolds w)
  clause : ∀ key, Agree (ValidClause key v) (ValidClause key w) (ClauseHolds key v)
    (ClauseHolds key w)
  operator : ∀ operator, Agree (ValidOperator operator v) (ValidOperator operator w)
    (OperatorHolds operator v) (OperatorHolds operator w)

theorem Interchangeable.refl {v : Json} (h : v.KeysDistinct) : Interchangeable v v :=
  ⟨.refl h, .refl _ _, fun _ => .refl _ _, fun _ => .refl _ _⟩

/-! ## Lists of parts -/

/-- Filters in an array agree if they do one by one. -/
structure ItemsAgree (xs ys : List Json) : Prop where
  nonempty : xs ≠ [] ↔ ys ≠ []
  all : Agree (ValidItems xs) (ValidItems ys) (AllHold xs) (AllHold ys)
  any : ∀ doc, AnyHolds xs doc ↔ AnyHolds ys doc

theorem itemsAgree_of_forall₂ {xs ys : List Json} (h : List.Forall₂ Interchangeable xs ys) :
    ItemsAgree xs ys := by
  induction h with
  | nil => exact ⟨Iff.rfl, .refl _ _, fun _ => Iff.rfl⟩
  | cons h _ ih =>
    refine ⟨by simp, ⟨?_, fun doc => ?_⟩, fun doc => ?_⟩
    · rw [ValidItems, ValidItems, h.item.valid, ih.all.valid]
    · rw [AllHold, AllHold, h.item.holds, ih.all.holds]
    · rw [AnyHolds, AnyHolds, h.item.holds, ih.any]

/-- Members with the same key and interchangeable values. -/
def MembersAgree : Members Json → Members Json → Prop :=
  List.Forall₂ fun m n => m.1 = n.1 ∧ Interchangeable m.2 n.2

/-- Two objects agree as filters and as operator expressions, and have the same keys. -/
structure ObjectsAgree (xs ys : Members Json) : Prop where
  keys : (Members.keys xs).Perm (Members.keys ys)
  clauses : Agree (ValidClauses xs) (ValidClauses ys) (ClausesHold xs) (ClausesHold ys)
  operators : Agree (ValidOperators xs) (ValidOperators ys) (OperatorsHold xs) (OperatorsHold ys)

namespace ObjectsAgree

variable {xs ys zs : Members Json}

theorem refl (xs : Members Json) : ObjectsAgree xs xs := ⟨.refl _, .refl _ _, .refl _ _⟩

theorem trans (h : ObjectsAgree xs ys) (h' : ObjectsAgree ys zs) : ObjectsAgree xs zs :=
  ⟨h.keys.trans h'.keys, h.clauses.trans h'.clauses, h.operators.trans h'.operators⟩

/-- One more member in both. -/
theorem cons {key : String} {v w : Json}
    (hclause : Agree (ValidClause key v) (ValidClause key w) (ClauseHolds key v)
      (ClauseHolds key w))
    (hoperator : Agree (ValidOperator key v) (ValidOperator key w) (OperatorHolds key v)
      (OperatorHolds key w)) (hrest : ObjectsAgree xs ys) :
    ObjectsAgree ((key, v) :: xs) ((key, w) :: ys) := by
  refine ⟨hrest.keys.cons key, ⟨?_, fun doc => ?_⟩, ⟨?_, fun found => ?_⟩⟩
  · rw [ValidClauses, ValidClauses, hclause.valid, hrest.clauses.valid]
  · rw [ClausesHold, ClausesHold, hclause.holds, hrest.clauses.holds]
  · rw [ValidOperators, ValidOperators, hoperator.valid, hrest.operators.valid]
  · rw [OperatorsHold, OperatorsHold, hoperator.holds, hrest.operators.holds]

/-- All members count, whichever of two comes first. -/
theorem swap (key key' : String) (v w : Json) (rest : Members Json) :
    ObjectsAgree ((key, v) :: (key', w) :: rest) ((key', w) :: (key, v) :: rest) := by
  refine ⟨.swap key' key _, ⟨?_, fun doc => ?_⟩, ⟨?_, fun found => ?_⟩⟩
  · simp only [ValidClauses]
    exact and_left_comm
  · simp only [ClausesHold]
    exact and_left_comm
  · simp only [ValidOperators]
    exact and_left_comm
  · simp only [OperatorsHold]
    exact and_left_comm

theorem of_members (h : MembersAgree xs ys) : ObjectsAgree xs ys := by
  induction h with
  | nil => exact .refl []
  | @cons m n _ _ hmn _ ih =>
    obtain ⟨key, v⟩ := m
    obtain ⟨_, w⟩ := n
    obtain ⟨rfl, hvw⟩ := hmn
    exact .cons (hvw.clause key) (hvw.operator key) ih

theorem of_perm (h : xs.Perm ys) : ObjectsAgree xs ys := by
  induction h with
  | nil => exact .refl []
  | cons m _ ih => exact .cons (.refl _ _) (.refl _ _) ih
  | swap m n rest => exact .swap n.1 m.1 n.2 m.2 rest
  | trans _ _ ih ih' => exact ih.trans ih'

theorem isExpression_iff (h : ObjectsAgree xs ys) : IsExpression xs ↔ IsExpression ys :=
  exists_congr fun _ => and_congr_left fun _ => h.keys.mem_iff

theorem asksElements_iff (h : ObjectsAgree xs ys) : AsksElements xs ↔ AsksElements ys := by
  have hnil : xs = [] ↔ ys = [] := by
    have hlength := h.keys.length_eq
    rw [Members.keys, Members.keys, List.length_map, List.length_map] at hlength
    rw [← List.length_eq_zero_iff, hlength, List.length_eq_zero_iff]
  exact and_congr (not_congr hnil) (forall_congr' fun _ => imp_congr_left h.keys.mem_iff)

end ObjectsAgree

/-! ## Clauses and operators -/

/-- A clause, given what is known of values under a logical operator and under a path. -/
theorem clause_agree {v w : Json}
    (hlogical : ∀ key ∈ logical, Agree (ValidFilters v) (ValidFilters w) (ClauseHolds key v)
      (ClauseHolds key w))
    (hfield : Agree (ValidField v) (ValidField w) (FieldHolds v) (FieldHolds w)) (key : String) :
    Agree (ValidClause key v) (ValidClause key w) (ClauseHolds key v) (ClauseHolds key w) := by
  unfold ValidClause
  by_cases hkey : key ∈ logical
  · rw [if_pos hkey, if_pos hkey]
    exact hlogical key hkey
  · rw [if_neg hkey, if_neg hkey]
    refine ⟨and_congr_right fun _ => and_congr_right fun _ => hfield.valid, fun doc => ?_⟩
    simp only [logical, List.mem_cons, List.not_mem_nil, or_false, not_or] at hkey
    obtain ⟨hand, hor, hnor⟩ := hkey
    rw [ClauseHolds, ClauseHolds] <;> try assumption
    exact hfield.holds _

section Operators

variable {v w : Json} (h : Alike v w)
include h

/-- `$elemMatch` asks for an element with an operator expression or with a filter. -/
theorem elemMatch_agree
    (hobj : ∀ xs ys, v = .obj xs → w = .obj ys → ObjectsAgree xs ys) :
    Agree (ValidOperator "$elemMatch" v) (ValidOperator "$elemMatch" w)
      (OperatorHolds "$elemMatch" v) (OperatorHolds "$elemMatch" w) := by
  cases h.form with
  | @obj xs ys =>
    have hagree := hobj xs ys rfl rfl
    have helements := hagree.asksElements_iff
    refine ⟨?_, fun found => ?_⟩
    · simp only [ValidOperator, helements, hagree.operators.valid, hagree.clauses.valid]
    · simp only [OperatorHolds, helements, hagree.operators.holds, hagree.clauses.holds]
  | _ => exact ⟨by simp only [ValidOperator], fun found => by simp only [OperatorHolds]⟩

/-- `$not` negates an operator expression. -/
theorem not_agree (hobj : ∀ xs ys, v = .obj xs → w = .obj ys → ObjectsAgree xs ys) :
    Agree (ValidOperator "$not" v) (ValidOperator "$not" w)
      (OperatorHolds "$not" v) (OperatorHolds "$not" w) := by
  cases h.form with
  | @obj xs ys =>
    have hagree := hobj xs ys rfl rfl
    refine ⟨?_, fun found => ?_⟩
    · simp only [ValidOperator, hagree.isExpression_iff, hagree.operators.valid]
    · simp only [OperatorHolds, hagree.operators.holds]
  | _ => exact ⟨by simp only [ValidOperator], fun found => by simp only [OperatorHolds]⟩

/-- An operator on a list of values suits arrays only. -/
theorem list_agree {operator : String} (hlist : operator ∈ ["$in", "$nin", "$all"]) :
    ValidOperator operator v ↔ ValidOperator operator w := by
  rw [validOperator_list v hlist, validOperator_list w hlist]
  simpa using h.exists_items_iff (P := fun _ => True) (Q := fun _ => True) fun _ _ _ => Iff.rfl

/-- An operator, given what is known of the objects that stand under it. A length is asked for with
an integer, which alike numbers need not be. -/
theorem operator_agree (hcounts : ∀ length, v.Counts length ↔ w.Counts length)
    (hobj : ∀ xs ys, v = .obj xs → w = .obj ys → ObjectsAgree xs ys) (operator : String) :
    Agree (ValidOperator operator v) (ValidOperator operator w) (OperatorHolds operator v)
      (OperatorHolds operator w) := by
  cases operator using operator_cases with
  | eq =>
    refine ⟨by simp only [validOperator_eq], fun found => ?_⟩
    simp only [operatorHolds_eq, findsEqual_iff_of_alike h]
  | ne =>
    refine ⟨by simp only [validOperator_ne], fun found => ?_⟩
    simp only [operatorHolds_ne, findsEqual_iff_of_alike h]
  | range c =>
    refine ⟨by simp only [validOperator_range], fun found => ?_⟩
    simp only [operatorHolds_range, findsOrdered_iff_of_alike h]
  | oneOf =>
    refine ⟨list_agree h (by decide), fun found => ?_⟩
    rw [operatorHolds_in, operatorHolds_in]
    refine h.exists_items_iff fun xs ys hitems => ?_
    exact exists_mem_iff_of_forall₂ hitems fun x y hxy => findsEqual_iff_of_alike hxy found
  | noneOf =>
    refine ⟨list_agree h (by decide), fun found => ?_⟩
    rw [operatorHolds_nin, operatorHolds_nin]
    refine h.exists_items_iff fun xs ys hitems => ?_
    exact forall_mem_iff_of_forall₂ hitems fun x y hxy =>
      not_congr (findsEqual_iff_of_alike hxy found)
  | containing =>
    refine ⟨list_agree h (by decide), fun found => ?_⟩
    rw [operatorHolds_all, operatorHolds_all]
    refine h.exists_items_iff fun xs ys hitems => and_congr ?_ ?_
    · rw [← List.length_pos_iff, hitems.length_eq, List.length_pos_iff]
    · exact exists_congr fun u => and_congr_right fun _ =>
        forall_mem_iff_of_forall₂ hitems fun x y hxy => hxy.hasEqual_iff u
  | present =>
    refine ⟨?_, fun found => ?_⟩
    · rw [validOperator_exists, validOperator_exists]
      cases h.form <;> simp
    · rw [operatorHolds_exists, operatorHolds_exists, h.asksPresence_iff]
  | size =>
    refine ⟨?_, fun found => ?_⟩
    · simp only [validOperator_size, hcounts]
    · simp only [operatorHolds_size, hcounts]
  | elemMatch => exact elemMatch_agree h hobj
  | negated => exact not_agree h hobj
  | unknown operator hunknown =>
    exact ⟨iff_of_false (not_validOperator v hunknown) (not_validOperator w hunknown),
      fun found => iff_of_false (operatorHolds_unknown v found hunknown)
        (operatorHolds_unknown w found hunknown)⟩

end Operators

/-! ## Reordered values are interchangeable -/

theorem interchangeable_arr {xs ys : List Json} (h : List.Forall₂ Interchangeable xs ys) :
    Interchangeable (.arr xs) (.arr ys) := by
  have halike : Alike (.arr xs) (.arr ys) :=
    (alike_arr_iff xs ys).mpr (h.imp fun _ _ hxy => hxy.alike)
  have hitems := itemsAgree_of_forall₂ h
  refine ⟨halike, ⟨by simp only [ValidItem], fun doc => by simp only [ItemHolds]⟩,
    clause_agree (fun key hkey => ⟨?_, fun doc => ?_⟩) ⟨?_, fun found => ?_⟩,
    operator_agree halike (by simp [Counts]) (by simp)⟩
  · rw [ValidFilters, ValidFilters, hitems.nonempty, hitems.all.valid]
  · simp only [logical, List.mem_cons, List.not_mem_nil, or_false] at hkey
    rcases hkey with rfl | rfl | rfl
    · simp only [ClauseHolds, hitems.all.holds]
    · simp only [ClauseHolds, hitems.any]
    · simp only [ClauseHolds, hitems.any]
  · simp only [ValidField]
  · simp only [FieldHolds, findsEqual_iff_of_alike halike]

theorem interchangeable_obj {xs ys : Members Json} (halike : Alike (.obj xs) (.obj ys))
    (h : ObjectsAgree xs ys) : Interchangeable (.obj xs) (.obj ys) := by
  refine ⟨halike, ⟨?_, fun doc => ?_⟩,
    clause_agree (fun key hkey => ⟨?_, fun doc => ?_⟩) ⟨?_, fun found => ?_⟩,
    operator_agree halike (by simp [Counts]) ?_⟩
  · simp only [ValidItem, h.clauses.valid]
  · simp only [ItemHolds, h.clauses.holds]
  · simp only [ValidFilters]
  · simp only [logical, List.mem_cons, List.not_mem_nil, or_false] at hkey
    rcases hkey with rfl | rfl | rfl <;> simp only [ClauseHolds]
  · simp only [ValidField, h.isExpression_iff, h.operators.valid]
  · simp only [FieldHolds, h.isExpression_iff, h.operators.holds, findsEqual_iff_of_alike halike]
  · rintro _ _ ⟨⟩ ⟨⟩
    exact h

mutual

/-- Values with their keys in another order agree wherever they stand in a filter document. -/
theorem interchangeable_of_reordered : ∀ {v w : Json}, Reordered v w → v.KeysDistinct →
    Interchangeable v w
  | _, _, .refl _, hv => .refl hv
  | _, _, .arr h, hv => interchangeable_arr (interchangeable_items h hv)
  | _, _, .obj h hperm, hv =>
    interchangeable_obj (Reordered.alike (.obj h hperm) hv)
      ((ObjectsAgree.of_members (interchangeable_fields h hv.2)).trans (.of_perm hperm))

theorem interchangeable_items : ∀ {xs ys : List Json}, ReorderedItems xs ys →
    KeysDistinctItems xs → List.Forall₂ Interchangeable xs ys
  | _, _, .nil, _ => .nil
  | _, _, .cons h hrest, hxs =>
    .cons (interchangeable_of_reordered h hxs.1) (interchangeable_items hrest hxs.2)

theorem interchangeable_fields : ∀ {xs ys : Members Json}, ReorderedFields xs ys →
    KeysDistinctFields xs → MembersAgree xs ys
  | _, _, .nil, _ => .nil
  | _, _, .cons _ h hrest, hxs =>
    .cons ⟨rfl, interchangeable_of_reordered h hxs.1⟩ (interchangeable_fields hrest hxs.2)

end

/-- Reordered documents are filters together, and say the same. -/
theorem agree_of_reordered {f f' : Json} (hf : f.KeysDistinct) (h : f.Reordered f') :
    Agree (Valid f) (Valid f') (Holds f) (Holds f') := by
  have hitem := (interchangeable_of_reordered h hf).item
  cases h with
  | refl => exact .refl _ _
  | arr => exact ⟨by simp only [Valid, ValidItem], fun doc => by simp only [Holds, ItemHolds]⟩
  | obj =>
    refine ⟨?_, fun doc => ?_⟩
    · simp only [Valid]
      exact hitem.valid
    · simp only [Holds]
      exact hitem.holds doc

end FilterDocument

namespace Filter

open FilterDocument

/-- **The order of keys does not matter in a filter.** Of two documents that differ only by the
order of the keys of objects, at any depth, both compile or neither does, and then they select the
same documents. -/
theorem compile_reordered {f f' : Json} (hf : f.KeysDistinct) (h : f.Reordered f') :
    ((∃ g, compile f = .ok g) ↔ ∃ g', compile f' = .ok g') ∧
      ∀ g g', compile f = .ok g → compile f' = .ok g' →
        ∀ doc, g.selects doc = g'.selects doc := by
  have hagree := agree_of_reordered hf h
  have hsettles := settles_compile f
  have hsettles' := settles_compile f'
  refine ⟨?_, fun g g' hg hg' doc => ?_⟩
  · rw [hsettles.exists_iff, hsettles'.exists_iff, hagree.valid]
  · exact Bool.eq_iff_iff.mpr <| calc
      g.selects doc = true ↔ Holds f doc := hsettles.of_ok hg doc
      _ ↔ Holds f' doc := hagree.holds doc
      _ ↔ g'.selects doc = true := (hsettles'.of_ok hg' doc).symm

/-- A filter with two fields, an operator expression with two operators and a literal with two
keys. -/
def twoFields : Json :=
  .obj [("a", .obj [("$gt", .nat 1), ("$not", .obj [("$in", .arr [.nat 3]), ("$lt", .nat 0)])]),
    ("b", .obj [("x", .nat 1), ("y", .null)])]

/-- The same filter with the keys of all objects the other way round. -/
def twoFieldsReversed : Json :=
  .obj [("b", .obj [("y", .null), ("x", .nat 1)]),
    ("a", .obj [("$not", .obj [("$lt", .nat 0), ("$in", .arr [.nat 3])]), ("$gt", .nat 1)])]

theorem twoFields_reordered : twoFields.Reordered twoFieldsReversed :=
  .obj (.cons "a" (.obj (.cons "$gt" (.refl _) (.cons "$not" (.obj (.refl _) (.swap _ _ _)) .nil))
    (.swap _ _ _)) (.cons "b" (.obj (.refl _) (.swap _ _ _)) .nil)) (.swap _ _ _)

/-- Reading the keys from the other end changes nothing. -/
theorem compile_twoFields : twoFields.KeysDistinct ∧ twoFields.Reordered twoFieldsReversed ∧
    ∃ g g', compile twoFields = .ok g ∧ compile twoFieldsReversed = .ok g' ∧
      ∀ doc, g.selects doc = g'.selects doc :=
  have hdistinct : twoFields.KeysDistinct := by simp [twoFields, Json.KeysDistinct,
    Json.KeysDistinctFields, Json.KeysDistinctItems, Members.keys, Json.nat]
  ⟨hdistinct, twoFields_reordered, _, _, rfl, rfl,
    (compile_reordered hdistinct twoFields_reordered).2 _ _ rfl rfl⟩

end Filter
end DocWatch
