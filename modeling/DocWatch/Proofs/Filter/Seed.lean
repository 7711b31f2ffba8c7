import DocWatch.Filter.Seed
import DocWatch.Proofs.Filter.Compile
import DocWatch.Proofs.Json.Draft

/-!
# The document that a filter asks for

An upsert that finds nothing starts from a document in which the equalities of its filter were
written, one after another. Where the equalities can hold together, no write fails and none takes
away what was written before, however the paths overlap. Where they cannot, a later write may well
go over an earlier one, and the document honours less than the filter asks for.

- `Filter.equalities`: what a filter demands, in order. `Filter.HonouredBy`: a document in which all
  of it holds.
- `Predicate.seed_eq`: the document is what writing the equalities makes.
- `Filter.seed_honours`: the main result.
-/

namespace DocWatch

open Json

/-! ## What filters demand -/

/-- The equalities among conditions on a path. -/
def Condition.equalities (path : FieldPath) : List Condition → Pieces
  | [] => []
  | .eq v :: rest => (path, v) :: Condition.equalities path rest
  | _ :: rest => Condition.equalities path rest

mutual

/-- The equalities that a predicate demands, through any conjunctions. Alternatives demand
nothing. -/
def Predicate.equalities : Predicate → Pieces
  | .all clauses => Predicate.equalitiesAll clauses
  | .field path conditions => Condition.equalities path conditions
  | .any _ => []
  | .neither _ => []

/-- The equalities that several predicates demand. -/
def Predicate.equalitiesAll : List Predicate → Pieces
  | [] => []
  | p :: rest => p.equalities ++ Predicate.equalitiesAll rest

end

/-! ## Writing the equalities -/

theorem Condition.seedAll_eq (path : FieldPath) (conditions : List Condition) (v : Json) :
    seedAll path conditions v = v.writeAll (equalities path conditions) := by
  induction conditions generalizing v with
  | nil => rfl
  | cons c rest ih =>
    cases c with
    | eq value =>
      rw [seedAll, equalities, writeAll_cons, funext ih]
    | _ => exact ih v

mutual

/-- What a predicate makes of a document is what writing its equalities makes of it. -/
theorem Predicate.seed_eq : ∀ (p : Predicate) (v : Json), p.seed v = v.writeAll p.equalities
  | .all clauses, v => by rw [seed, equalities, Predicate.seedAll_eq clauses v]
  | .field path conditions, v => by rw [seed, equalities, Condition.seedAll_eq]
  | .any _, v => by rw [seed, equalities]; rfl
  | .neither _, v => by rw [seed, equalities]; rfl

theorem Predicate.seedAll_eq : ∀ (clauses : List Predicate) (v : Json),
    seedAll clauses v = v.writeAll (equalitiesAll clauses)
  | [], v => by rw [seedAll, equalitiesAll]; rfl
  | p :: rest, v => by
    rw [seedAll, equalitiesAll, writeAll_append, Predicate.seed_eq p v]
    exact congrArg _ (funext fun u => Predicate.seedAll_eq rest u)

end

/-! ## Equalities of compiled filters -/

namespace Filter

theorem map_ne_eq {α : Type} {r : Except CompileError α} {make : α → Condition} {value : Json}
    (hmake : ∀ a, make a ≠ .eq value) : make <$> r ≠ .ok (.eq value) := by
  cases r with
  | error e => exact fun h => nomatch h
  | ok a => exact fun h => hmake a (Except.ok.inj h)

/-- Of all operators, only `$eq` demands an equality, which is with its operand. -/
theorem eq_of_compileOperator {operator : String} {operand value : Json}
    (h : compileOperator operator operand = .ok (.eq value)) : value = operand := by
  cases operator using FilterDocument.operator_cases with
  | eq =>
    rw [compileOperator_eq] at h
    exact (Condition.eq.inj (Except.ok.inj h)).symm
  | ne =>
    rw [compileOperator_ne] at h
    cases h
  | range c =>
    rw [compileOperator_range] at h
    cases h
  | oneOf =>
    exact absurd (compileOperator_in operand ▸ h) (map_ne_eq fun _ => Condition.noConfusion)
  | noneOf =>
    exact absurd (compileOperator_nin operand ▸ h) (map_ne_eq fun _ => Condition.noConfusion)
  | containing =>
    exact absurd (compileOperator_all operand ▸ h) (map_ne_eq fun _ => Condition.noConfusion)
  | present =>
    exact absurd (compileOperator_exists operand ▸ h) (map_ne_eq fun _ => Condition.noConfusion)
  | size =>
    exact absurd (compileOperator_size operand ▸ h) (map_ne_eq fun _ => Condition.noConfusion)
  | elemMatch =>
    cases operand with
    | obj fields =>
      rw [compileOperator_elemMatch] at h
      split_ifs at h
      · exact absurd h (map_ne_eq fun _ => Condition.noConfusion)
      · exact absurd h (map_ne_eq fun _ => Condition.noConfusion)
    | _ => simp [compileOperator] at h
  | negated =>
    cases operand with
    | obj fields =>
      rw [compileOperator_not] at h
      split_ifs at h
      exact absurd h (map_ne_eq fun _ => Condition.noConfusion)
    | _ => simp [compileOperator] at h
  | unknown operator hunknown =>
    rw [compileOperator_unknown operand hunknown] at h
    cases h

theorem distinct_of_compileOperators {fields : Members Json} (hfields : KeysDistinctFields fields)
    {conditions : List Condition} (h : compileOperators fields = .ok conditions) {value : Json}
    (hvalue : .eq value ∈ conditions) : value.KeysDistinct := by
  induction fields generalizing conditions with
  | nil =>
    rw [compileOperators] at h
    obtain rfl := Except.ok.inj h
    exact absurd hvalue List.not_mem_nil
  | cons kv rest ih =>
    obtain ⟨key, v⟩ := kv
    rw [compileOperators_cons] at h
    obtain ⟨c, hc, h⟩ := exists_of_bind_ok h
    obtain ⟨cs, hcs, h⟩ := exists_of_bind_ok h
    obtain rfl := Except.ok.inj h
    rcases List.mem_cons.mp hvalue with rfl | hmem
    · unfold compileMember at hc
      split_ifs at hc
      rw [eq_of_compileOperator hc]
      exact hfields.1
    · exact ih hfields.2 hcs hmem

theorem distinct_of_compileFieldValue {v : Json} (hv : v.KeysDistinct)
    {conditions : List Condition} (h : compileFieldValue v = .ok conditions) {value : Json}
    (hvalue : .eq value ∈ conditions) : value.KeysDistinct := by
  have hliteral : conditions = [.eq v] → value.KeysDistinct := by
    rintro rfl
    exact Condition.eq.inj (List.mem_singleton.mp hvalue) ▸ hv
  cases v with
  | obj fields =>
    rw [compileFieldValue] at h
    split_ifs at h
    · exact distinct_of_compileOperators hv.2 h hvalue
    · exact hliteral (Except.ok.inj h).symm
  | _ => exact hliteral (Except.ok.inj h).symm

end Filter

theorem Condition.mem_equalities {path p : FieldPath} {conditions : List Condition} {v : Json}
    (h : (p, v) ∈ equalities path conditions) : p = path ∧ .eq v ∈ conditions := by
  induction conditions with
  | nil => exact absurd h List.not_mem_nil
  | cons c rest ih =>
    cases c with
    | eq value =>
      rw [equalities, List.mem_cons, Prod.mk.injEq] at h
      rcases h with ⟨rfl, rfl⟩ | h
      · exact ⟨rfl, List.mem_cons_self⟩
      · exact ⟨(ih h).1, List.mem_cons_of_mem _ (ih h).2⟩
    | _ => exact ⟨(ih h).1, List.mem_cons_of_mem _ (ih h).2⟩

namespace Filter

/-- A conjunction demands what its clauses demand. -/
theorem equalities_conjunction (ps : List Predicate) :
    (conjunction ps).equalities = Predicate.equalitiesAll ps := by
  unfold conjunction
  split
  · rw [Predicate.equalitiesAll, Predicate.equalitiesAll, List.append_nil]
  · rw [Predicate.equalities]

theorem distinct_nil : PiecesDistinct [] := fun _ _ hmem => absurd hmem List.not_mem_nil

theorem distinct_append {pieces more : Pieces} (h : PiecesDistinct pieces)
    (hmore : PiecesDistinct more) : PiecesDistinct (pieces ++ more) := fun path v hmem =>
  (List.mem_append.mp hmem).elim (h path v) (hmore path v)

/-- A clause, given what is known of the filters under a logical operator. -/
theorem distinct_of_compileClause {key : String} {v : Json} (hv : v.KeysDistinct)
    (hitems : ∀ items ps, v = .arr items → compileFilterItems items = .ok ps →
      PiecesDistinct (Predicate.equalitiesAll ps)) {p : Predicate}
    (h : compileClause key v = .ok p) : PiecesDistinct p.equalities := by
  unfold compileClause at h
  split_ifs at h
  · obtain ⟨ps, hps, rfl⟩ := exists_of_map_ok h
    rw [Predicate.equalities]
    cases v with
    | arr items =>
      cases items with
      | nil => cases hps
      | cons item rest => exact hitems _ ps rfl hps
    | _ => cases hps
  · obtain ⟨ps, -, rfl⟩ := exists_of_map_ok h
    rw [Predicate.equalities]
    exact distinct_nil
  · obtain ⟨ps, -, rfl⟩ := exists_of_map_ok h
    rw [Predicate.equalities]
    exact distinct_nil
  · cases hparse : FieldPath.parse key with
    | error e =>
      rw [hparse] at h
      cases h
    | ok path =>
      rw [hparse] at h
      obtain ⟨conditions, hconditions, rfl⟩ := exists_of_map_ok h
      rw [Predicate.equalities]
      exact fun _ _ hmem =>
        distinct_of_compileFieldValue hv hconditions (Condition.mem_equalities hmem).2

/-- A filter in an array, given what is known of its clauses. -/
theorem distinct_of_compileItem {v : Json}
    (hclauses : ∀ fields ps, v = .obj fields → compileClauses fields = .ok ps →
      PiecesDistinct (Predicate.equalitiesAll ps)) {p : Predicate}
    (h : compileItem v = .ok p) : PiecesDistinct p.equalities := by
  cases v with
  | obj fields =>
    obtain ⟨ps, hps, rfl⟩ := exists_of_map_ok h
    rw [equalities_conjunction]
    exact hclauses fields ps rfl hps
  | _ => cases h

mutual

theorem distinct_of_compileClauses : ∀ {fields : Members Json}, KeysDistinctFields fields →
    ∀ {ps : List Predicate}, compileClauses fields = .ok ps →
      PiecesDistinct (Predicate.equalitiesAll ps)
  | [], _, ps, h => by
    rw [compileClauses] at h
    obtain rfl := Except.ok.inj h
    rw [Predicate.equalitiesAll]
    exact distinct_nil
  | (key, v) :: rest, hfields, ps, h => by
    rw [compileClauses_cons] at h
    obtain ⟨p, hp, h⟩ := exists_of_bind_ok h
    obtain ⟨qs, hqs, h⟩ := exists_of_bind_ok h
    obtain rfl := Except.ok.inj h
    rw [Predicate.equalitiesAll]
    refine distinct_append ?_ (distinct_of_compileClauses hfields.2 hqs)
    exact distinct_of_compileClause hfields.1
      (fun items ps hv =>
        distinct_of_compileFilterItems (hv ▸ hfields.1 : (arr items).KeysDistinct))
      hp

theorem distinct_of_compileFilterItems : ∀ {items : List Json}, KeysDistinctItems items →
    ∀ {ps : List Predicate}, compileFilterItems items = .ok ps →
      PiecesDistinct (Predicate.equalitiesAll ps)
  | [], _, ps, h => by
    rw [compileFilterItems] at h
    obtain rfl := Except.ok.inj h
    rw [Predicate.equalitiesAll]
    exact distinct_nil
  | v :: rest, hitems, ps, h => by
    rw [compileFilterItems_cons] at h
    obtain ⟨p, hp, h⟩ := exists_of_bind_ok h
    obtain ⟨qs, hqs, h⟩ := exists_of_bind_ok h
    obtain rfl := Except.ok.inj h
    rw [Predicate.equalitiesAll]
    refine distinct_append ?_ (distinct_of_compileFilterItems hitems.2 hqs)
    exact distinct_of_compileItem
      (fun fields ps hv => distinct_of_compileClauses (hv ▸ hitems.1 : (obj fields).KeysDistinct).2)
      hp

end

/-- The equalities that a filter demands, in order. -/
def equalities (f : Filter) : Pieces := f.predicate.equalities

/-- In a filter that is read, no object in the demanded values has a key twice. -/
theorem distinct_of_compile {source : Json} (hsource : source.KeysDistinct) {f : Filter}
    (h : compile source = .ok f) : PiecesDistinct f.equalities := by
  unfold compile at h
  split at h
  · obtain rfl := Except.ok.inj h
    rw [equalities, Predicate.equalities, Predicate.equalitiesAll]
    exact distinct_nil
  · obtain ⟨ps, hps, h⟩ := exists_of_bind_ok h
    obtain rfl := Except.ok.inj h
    rw [equalities, equalities_conjunction]
    exact distinct_of_compileClauses hsource.2 hps
  · cases h

/-! ## Seeds -/

/-- A document in which each demanded path leads to an equal value. -/
def HonouredBy (f : Filter) (d : Json) : Prop := d.Holds f.equalities

/-- The demanded equalities hold together in some document. -/
def Honourable (f : Filter) : Prop := ∃ d : Json, d.KeysDistinct ∧ f.HonouredBy d

/-- A seed in which the equalities hold is found if there is any document in which they do. -/
theorem exists_seed_iff {f : Filter} (hf : PiecesDistinct f.equalities) :
    (∃ s, f.seed = .ok s ∧ f.HonouredBy s) ↔ f.Honourable := by
  have hseed : f.seed = (obj []).writeAll f.equalities := f.predicate.seed_eq (.obj [])
  rw [hseed]
  exact exists_writeAll_iff hf

/-- **When the seed of a filter honours it.** If the equalities of a filter can hold together in a
document, the filter has a seed, and they hold in it. If they cannot, there may be a seed all the
same: so each seed honours its filter, and there is none where no document could, exactly if the
equalities can hold together or there is no seed. -/
theorem seed_honours {source : Json} (hsource : source.KeysDistinct) {f : Filter}
    (hf : compile source = .ok f) :
    ((∃ s, f.seed = .ok s ∧ f.HonouredBy s) ↔ f.Honourable) ∧
    (((∀ s, f.seed = .ok s → f.HonouredBy s) ∧ (¬ f.Honourable → ∃ e, f.seed = .error e)) ↔
      f.Honourable ∨ ∃ e, f.seed = .error e) := by
  have hiff := exists_seed_iff (distinct_of_compile hsource hf)
  refine ⟨hiff, fun h => or_iff_not_imp_left.mpr h.2, ?_⟩
  rintro (h | ⟨e, he⟩)
  · obtain ⟨s, hs, hhonoured⟩ := hiff.mpr h
    refine ⟨fun s' hs' => ?_, absurd h⟩
    rw [hs] at hs'
    exact Except.ok.inj hs' ▸ hhonoured
  · refine ⟨fun s hs => ?_, fun _ => ⟨e, he⟩⟩
    rw [he] at hs
    cases hs

/-- A part of an object, and then the object. -/
def partAndWhole : Json := .obj [("a.b", .str "x"), ("a", .obj [("c", .null), ("b", .str "x")])]

/-- The object goes over the part and has it as well. -/
theorem seed_honours_partAndWhole : partAndWhole.KeysDistinct ∧
    ∃ f s, compile partAndWhole = .ok f ∧ f.seed = .ok s ∧ f.HonouredBy s := by
  have hdistinct : partAndWhole.KeysDistinct := by
    simp [partAndWhole, Json.KeysDistinct, KeysDistinctFields, Members.keys]
  obtain ⟨f, hf⟩ : ∃ f, compile partAndWhole = .ok f := ⟨_, rfl⟩
  have hhonourable : f.Honourable := by
    refine ⟨.obj [("a", .obj [("c", .null), ("b", .str "x")])], ?_, fun path v hmem => ?_⟩
    · simp [Json.KeysDistinct, KeysDistinctFields, Members.keys]
    · obtain rfl := Except.ok.inj hf
      rcases List.mem_cons.mp hmem with he | hmem
      · cases he
        exact ⟨.str "x", rfl, rfl⟩
      · cases List.mem_singleton.mp hmem
        exact ⟨_, rfl, rfl⟩
  obtain ⟨s, hs, hhonoured⟩ := (seed_honours hdistinct hf).1.mpr hhonourable
  exact ⟨hdistinct, f, s, hf, hs, hhonoured⟩

/-- A value goes over the object that was made for a part of it: there is a seed, in which the part
is missing. -/
theorem seed_loses_part : ∃ f, compile (.obj [("a.b", .nat 2), ("a", .nat 1)]) = .ok f ∧
    f.seed = .ok (.obj [("a", .nat 1)]) ∧ (["a", "b"], .nat 2) ∈ f.equalities ∧
    ¬ f.HonouredBy (.obj [("a", .nat 1)]) := by
  refine ⟨_, rfl, rfl, List.mem_cons_self, fun h => ?_⟩
  obtain ⟨_, hget, -⟩ := h ["a", "b"] (.nat 2) List.mem_cons_self
  cases hget

end Filter
end DocWatch
