import DocWatch.Proofs.Filter.Field

/-!
# Ranges and equality

Equality and order are decided by two functions, each of which looks at arrays in a way of its own:
an array may be equal as a whole, and only its elements are ordered. Against a number, a text or a
truth value the two agree all the same, since no array is equal to one of these, and since two
values of one of these kinds are equal where neither is less than the other.

- `Json.OneKind`: two numbers, two texts or two truth values.
- `Json.compare?_eq_iff_equiv`: equality is a place in the order.
- `FilterDocument.findsOrdered_eq_iff`: the values found, against a bound.
- `Filter.range_and_equality_agree`: what the operators say about a document.
-/

namespace DocWatch

namespace Json

/-! ## Values that are ordered -/

/-- Two numbers, two texts or two truth values. -/
inductive OneKind : Json → Json → Prop
  | num (m n : Number) : OneKind (.num m) (.num n)
  | str (s t : String) : OneKind (.str s) (.str t)
  | bool (a b : Bool) : OneKind (.bool a) (.bool b)

/-- Two values of one kind are ordered. -/
theorem OneKind.exists_compare? {v bound : Json} (h : v.OneKind bound) :
    ∃ o, v.compare? bound = some o := by
  cases h <;> exact ⟨_, rfl⟩

/-- A value is equal to a bound if neither is less. Nothing else is equal to a bound either. -/
theorem compare?_eq_iff_equiv {bound : Json} (h : bound.OneKind bound) (v : Json) :
    v.compare? bound = some .eq ↔ v.equiv bound = true := by
  cases h with
  | num n _ =>
    rw [equiv_num_iff]
    cases v with
    | num m => simp [compare?]
    | _ => simp [compare?]
  | str s _ =>
    rw [equiv_str_iff]
    cases v with
    | str t => simp [compare?]
    | _ => simp [compare?]
  | bool b _ =>
    rw [equiv_bool_iff]
    cases v with
    | bool a => simp [compare?]
    | _ => simp [compare?]

/-- A value that is ordered is no array, so that a comparison looks at nothing else. -/
theorem OneKind.offers_iff {v bound : Json} (h : v.OneKind bound) (w : Json) :
    v.Offers w ↔ w = v := by
  refine or_iff_left ?_
  rintro ⟨items, rfl, -⟩
  cases h

theorem OneKind.ne_null {v bound : Json} (h : v.OneKind bound) : bound ≠ .null := by
  rintro rfl
  cases h

end Json

namespace FilterDocument

/-! ## Values found -/

/-- A value lies in one of two ranges if it lies in their union. -/
theorem findsOrdered_append_iff (found : Set Json) (orderings orderings' : List Ordering)
    (bound : Json) : FindsOrdered found (orderings ++ orderings') bound ↔
      FindsOrdered found orderings bound ∨ FindsOrdered found orderings' bound := by
  simp only [FindsOrdered, Json.HasOrdered, List.mem_append]
  constructor
  · rintro ⟨v, hv, w, o, hoffers, ho, hin | hin⟩
    · exact .inl ⟨v, hv, w, o, hoffers, ho, hin⟩
    · exact .inr ⟨v, hv, w, o, hoffers, ho, hin⟩
  · rintro (⟨v, hv, w, o, hoffers, ho, hin⟩ | ⟨v, hv, w, o, hoffers, ho, hin⟩)
    · exact ⟨v, hv, w, o, hoffers, ho, .inl hin⟩
    · exact ⟨v, hv, w, o, hoffers, ho, .inr hin⟩

/-- A bound is found exactly if a value is found that stands equal to it. -/
theorem findsOrdered_eq_iff {bound : Json} (h : bound.OneKind bound) (found : Set Json) :
    FindsOrdered found [.eq] bound ↔ FindsEqual found bound := by
  rw [FindsEqual, or_iff_left fun hnull => h.ne_null hnull.1]
  refine exists_congr fun v => and_congr_right fun _ => exists_congr fun w => ?_
  simp only [List.mem_singleton]
  rw [← Json.compare?_eq_iff_equiv h w]
  constructor
  · rintro ⟨_, hoffers, ho, rfl⟩
    exact ⟨hoffers, ho⟩
  · rintro ⟨hoffers, ho⟩
    exact ⟨_, hoffers, ho, rfl⟩

/-- One value of the kind of a bound lies in a range by its place in the order. -/
theorem findsOrdered_singleton_iff {v bound : Json} (h : v.OneKind bound) {o : Ordering}
    (ho : v.compare? bound = some o) (orderings : List Ordering) :
    FindsOrdered {v} orderings bound ↔ o ∈ orderings := by
  constructor
  · rintro ⟨_, rfl, w, o', hoffers, ho', hin⟩
    obtain rfl := (h.offers_iff w).mp hoffers
    rw [ho] at ho'
    rw [Option.some.inj ho']
    exact hin
  · intro hin
    exact ⟨v, rfl, v, o, (h.offers_iff v).mpr rfl, ho, hin⟩

theorem holds_eq_iff {bound : Json} (h : bound.OneKind bound) (found : List Json) :
    (Condition.eq bound).holds found = true ↔ FindsOrdered {w | w ∈ found} [.eq] bound := by
  rw [findsOrdered_eq_iff h, ← Json.anyEquals_iff, Condition.holds]

/-- A range that includes its bound is the range without it, or equality. -/
theorem holds_range_or_eq {bound : Json} (h : bound.OneKind bound) {c c' : Comparison}
    (hc : c'.orderings = c.orderings ++ [.eq]) (found : List Json) :
    (Condition.range c' bound).holds found =
      ((Condition.range c bound).holds found || (Condition.eq bound).holds found) := by
  rw [Bool.eq_iff_iff, Bool.or_eq_true, holds_range_iff, holds_range_iff, holds_eq_iff h, hc,
    findsOrdered_append_iff]

end FilterDocument

namespace Filter

open Json (single)
open FilterDocument

/-- **Ranges and equality agree.** A number, a text or a truth value can be asked for under every
key that spells a path. At least as much means more or equal, and at most as much means less or
equal. If the path reaches one value only, and this is of the kind of the bound, then just one of
less, equal and more is true. -/
theorem range_and_equality_agree {key : String} {path : FieldPath} (hkey : isOperator key = false)
    (hpath : FieldPath.parse key = .ok path) {bound : Json} (hbound : bound.OneKind bound)
    (doc : Json) :
    ∃ lt lte eq gte gt : Bool,
      answer (single key (single "$lt" bound)) doc = .ok lt ∧
      answer (single key (single "$lte" bound)) doc = .ok lte ∧
      answer (single key (single "$eq" bound)) doc = .ok eq ∧
      answer (single key (single "$gte" bound)) doc = .ok gte ∧
      answer (single key (single "$gt" bound)) doc = .ok gt ∧
      gte = (gt || eq) ∧ lte = (lt || eq) ∧
      ∀ v, (∀ w, doc.Reaches path w ↔ w = v) → v.OneKind bound →
        [lt, eq, gt].count true = 1 := by
  have hanswer : ∀ (operator : String) (c : Condition), isOperator operator = true →
      compileOperator operator bound = .ok c →
      answer (single key (single operator bound)) doc = .ok (c.holds (Json.reach path doc)) := by
    intro operator c hop hc
    rw [answer_condition hkey hpath hop, hc]
    rfl
  refine ⟨_, _, _, _, _, hanswer "$lt" _ (by decide) (compileOperator_range bound .lt),
    hanswer "$lte" _ (by decide) (compileOperator_range bound .lte),
    hanswer "$eq" _ (by decide) (compileOperator_eq bound),
    hanswer "$gte" _ (by decide) (compileOperator_range bound .gte),
    hanswer "$gt" _ (by decide) (compileOperator_range bound .gt),
    holds_range_or_eq hbound rfl _, holds_range_or_eq hbound rfl _, fun v hv hkind => ?_⟩
  have hfound : {w | w ∈ Json.reach path doc} = {v} :=
    Set.ext fun w => (Json.mem_reach_iff path doc w).trans (hv w)
  obtain ⟨o, ho⟩ := hkind.exists_compare?
  -- each of the three is true for one ordering only
  have hplace : ∀ (c : Condition) (o' : Ordering), (c.holds (Json.reach path doc) = true ↔
      FindsOrdered {w | w ∈ Json.reach path doc} [o'] bound) →
      c.holds (Json.reach path doc) = decide (o = o') := by
    intro c o' hc
    rw [Bool.eq_iff_iff, decide_eq_true_iff, hc, hfound, findsOrdered_singleton_iff hkind ho,
      List.mem_singleton]
  rw [hplace _ .lt (holds_range_iff _ .lt bound), hplace _ .eq (holds_eq_iff hbound _),
    hplace _ .gt (holds_range_iff _ .gt bound)]
  cases o <;> rfl

/-- The number two, as a double. -/
def two : Json := .num (.double (Double.ofInt 2))

/-- An array with a number, an array and an object. -/
def measured : Json := .obj [("a", .arr [.nat 1, .arr [.nat 3], .obj [("b", two)]])]

/-- The one value that is found is at most two and at least two, so that it is equal. -/
theorem range_and_equality_of_measured :
    isOperator "a.b" = false ∧ FieldPath.parse "a.b" = .ok ["a", "b"] ∧
    (∀ w, measured.Reaches ["a", "b"] w ↔ w = two) ∧ two.OneKind (.nat 2) ∧
    ∃ lt lte eq gte gt : Bool,
      answer (single "a.b" (single "$lt" (.nat 2))) measured = .ok lt ∧
      answer (single "a.b" (single "$lte" (.nat 2))) measured = .ok lte ∧
      answer (single "a.b" (single "$eq" (.nat 2))) measured = .ok eq ∧
      answer (single "a.b" (single "$gte" (.nat 2))) measured = .ok gte ∧
      answer (single "a.b" (single "$gt" (.nat 2))) measured = .ok gt ∧
      gte = (gt || eq) ∧ lte = (lt || eq) ∧ [lt, eq, gt].count true = 1 := by
  have hkey : isOperator "a.b" = false := by decide
  have hpath : FieldPath.parse "a.b" = .ok ["a", "b"] := by decide +kernel
  have hreaches : ∀ w, measured.Reaches ["a", "b"] w ↔ w = two := by
    intro w
    have hfound : Json.reach ["a", "b"] measured = [two] := by decide +kernel
    rw [← Json.mem_reach_iff, hfound, List.mem_singleton]
  have hbound : (Json.nat 2).OneKind (.nat 2) := .num _ _
  have hkind : two.OneKind (.nat 2) := .num _ _
  obtain ⟨lt, lte, eq, gte, gt, hlt, hlte, heq, hgte, hgt, hge, hle, hone⟩ :=
    range_and_equality_agree hkey hpath hbound measured
  exact ⟨hkey, hpath, hreaches, hkind, lt, lte, eq, gte, gt, hlt, hlte, heq, hgte, hgt, hge, hle,
    hone two hreaches hkind⟩

end Filter
end DocWatch
