import DocWatch.Proofs.Action
import DocWatch.Proofs.Filter.Field
import DocWatch.Proofs.Filter.KeyOrder
import DocWatch.Proofs.Query

/-!
# The source of a filter

A filter that was compiled keeps the document that it was compiled from, and the filters that no one
wrote make one up. Such a source is read back as the same filter, with two exceptions. The source of
the compiled null is null, which is no filter inside another one, so that its restriction to
documents that are not deleted has a source that does not compile. And an identity with operators
among its keys is read as an operator expression where it stands in a source. Of that nothing can
select just the documents with this identity: an operator expression only looks for values that are
nested less deep than itself, so it cannot tell itself from anything nested deeper.

- `Json.depth`: how deep a value is nested.
- `FilterDocument.operatorsHold_congr_of_depth`: operator expressions overlook what is nested deep.
- `Filter.compile_source_lives`: the restriction to documents that are not deleted is read back.
- `Filter.Faithful`: the source is read back as the filter.
- `Filter.source_faithful_iff`: the main result.
-/

namespace DocWatch

/-! ## Depth -/

namespace Json

mutual

/-- How deep a value is nested. -/
def depth : Json → Nat
  | .arr items => depthItems items + 1
  | .obj fields => depthFields fields + 1
  | _ => 0

/-- The depth of the deepest element. -/
def depthItems : List Json → Nat
  | [] => 0
  | v :: rest => max v.depth (depthItems rest)

/-- The depth of the deepest member. -/
def depthFields : Members Json → Nat
  | [] => 0
  | (_, v) :: rest => max v.depth (depthFields rest)

end

theorem depth_le_depthItems {items : List Json} {v : Json} (h : v ∈ items) :
    v.depth ≤ depthItems items := by
  induction items with
  | nil => exact absurd h List.not_mem_nil
  | cons w rest ih =>
    rw [depthItems]
    rcases List.mem_cons.mp h with rfl | hmem
    · omega
    · have := ih hmem
      omega

theorem depth_le_depthFields {fields : Members Json} {key : String} {v : Json}
    (h : (key, v) ∈ fields) : v.depth ≤ depthFields fields := by
  induction fields with
  | nil => exact absurd h List.not_mem_nil
  | cons m rest ih =>
    obtain ⟨key', w⟩ := m
    rw [depthFields]
    rcases List.mem_cons.mp h with he | hmem
    · obtain ⟨-, rfl⟩ := Prod.mk.inj he
      omega
    · have := ih hmem
      omega

mutual

/-- What equals a value is nested no deeper. -/
theorem depth_le_of_equiv {v w : Json} (h : v.equiv w = true) : v.depth ≤ w.depth := by
  cases v <;> cases w <;> simp only [equiv, Bool.false_eq_true] at h
  case null.null | bool.bool | num.num | str.str => exact Nat.le_refl 0
  case arr.arr xs ys =>
    have := depthItems_le_of_equiv h
    simp only [depth]
    omega
  case obj.obj xs ys =>
    rw [Bool.and_eq_true] at h
    have := depthFields_le_of_equiv h.2
    simp only [depth]
    omega

/-- The elements of arrays. -/
theorem depthItems_le_of_equiv {xs ys : List Json} (h : equivItems xs ys = true) :
    depthItems xs ≤ depthItems ys := by
  match xs, ys with
  | [], _ => exact Nat.zero_le _
  | x :: xs, y :: ys =>
    rw [equivItems, Bool.and_eq_true] at h
    have hfirst := depth_le_of_equiv h.1
    have hrest := depthItems_le_of_equiv h.2
    simp only [depthItems]
    omega
  | _ :: _, [] => simp [equivItems] at h

/-- The members of objects, each of which has an equal one. -/
theorem depthFields_le_of_equiv {xs ys : Members Json} (h : equivFields xs ys = true) :
    depthFields xs ≤ depthFields ys := by
  match xs with
  | [] => exact Nat.zero_le _
  | (key, v) :: rest =>
    obtain ⟨⟨w, hget, hv⟩, hrest⟩ := (equivFields_cons_iff key v rest ys).mp h
    have hfirst := depth_le_of_equiv hv
    have hw := depth_le_depthFields (Members.mem_of_get? hget)
    have hothers := depthFields_le_of_equiv hrest
    simp only [depthFields]
    omega

end

end Json

/-! ## What operator expressions overlook -/

namespace FilterDocument

open Json (depthFields depthItems)

/-- An object does not equal what is nested less deep. -/
theorem not_hasEqual_of_depth {fields : Members Json} {x : Json}
    (h : x.depth < (Json.obj fields).depth) : ¬ (Json.obj fields).HasEqual x := by
  rintro ⟨w, rfl | ⟨items, ⟨⟩, -⟩, hequiv⟩
  have := Json.depth_le_of_equiv hequiv
  omega

theorem not_findsEqual_of_depth {fields : Members Json} {x : Json}
    (h : x.depth < (Json.obj fields).depth) : ¬ FindsEqual {.obj fields} x := by
  rintro (⟨_, rfl, hequal⟩ | ⟨-, hempty⟩)
  · exact not_hasEqual_of_depth h hequal
  · exact Set.singleton_ne_empty _ hempty

/-- Objects are not ordered. -/
theorem not_findsOrdered_obj (fields : Members Json) (orderings : List Ordering) (bound : Json) :
    ¬ FindsOrdered {.obj fields} orderings bound := by
  rintro ⟨_, rfl, w, o, rfl | ⟨items, ⟨⟩, -⟩, ho, -⟩
  cases bound <;> cases ho

/-- An object is no array. -/
theorem arr_not_mem_obj (fields : Members Json) (items : List Json) :
    Json.arr items ∉ ({.obj fields} : Set Json) := fun h => Json.noConfusion h

variable {a b : Members Json}

/-- One operator says the same of two objects that are nested deeper than its operand, given that
the operators in the operand do. -/
theorem operatorHolds_congr_of_depth {operand : Json} (ha : operand.depth < (Json.obj a).depth)
    (hb : operand.depth < (Json.obj b).depth)
    (hobj : ∀ fields, operand = .obj fields →
      (OperatorsHold fields {.obj a} ↔ OperatorsHold fields {.obj b})) (operator : String) :
    OperatorHolds operator operand {.obj a} ↔ OperatorHolds operator operand {.obj b} := by
  have hequal := not_findsEqual_of_depth ha
  have hequal' := not_findsEqual_of_depth hb
  have hitem : ∀ {c : Members Json} {items : List Json}, operand = .arr items →
      operand.depth < (Json.obj c).depth → ∀ x ∈ items, x.depth < (Json.obj c).depth := by
    rintro c items rfl hc x hx
    have := Json.depth_le_depthItems hx
    rw [Json.depth] at hc
    omega
  cases operator using operator_cases with
  | eq => simp only [operatorHolds_eq, hequal, hequal']
  | ne => simp only [operatorHolds_ne, hequal, hequal']
  | range c => simp only [operatorHolds_range, not_findsOrdered_obj]
  | oneOf =>
    rw [operatorHolds_in, operatorHolds_in]
    refine exists_congr fun items => and_congr_right fun hitems => ?_
    refine exists_congr fun x => and_congr_right fun hx => ?_
    exact iff_of_false (not_findsEqual_of_depth (hitem hitems ha x hx))
      (not_findsEqual_of_depth (hitem hitems hb x hx))
  | noneOf =>
    rw [operatorHolds_nin, operatorHolds_nin]
    refine exists_congr fun items => and_congr_right fun hitems => ?_
    exact iff_of_true (fun x hx => not_findsEqual_of_depth (hitem hitems ha x hx))
      fun x hx => not_findsEqual_of_depth (hitem hitems hb x hx)
  | containing =>
    rw [operatorHolds_all, operatorHolds_all]
    refine exists_congr fun items => and_congr_right fun hitems => and_congr_right fun hne => ?_
    obtain ⟨x, hx⟩ := List.exists_mem_of_ne_nil items hne
    refine iff_of_false ?_ ?_
    · rintro ⟨_, rfl, hall⟩
      exact not_hasEqual_of_depth (hitem hitems ha x hx) (hall x hx)
    · rintro ⟨_, rfl, hall⟩
      exact not_hasEqual_of_depth (hitem hitems hb x hx) (hall x hx)
  | present => simp only [operatorHolds_exists, Set.singleton_nonempty]
  | size => simp only [operatorHolds_size, arr_not_mem_obj, false_and]
  | elemMatch =>
    cases operand with
    | obj fields => simp only [OperatorHolds, arr_not_mem_obj, false_and]
    | _ => simp only [OperatorHolds]
  | negated =>
    cases operand with
    | obj fields => simp only [OperatorHolds, hobj fields rfl]
    | _ => simp only [OperatorHolds]
  | unknown operator hunknown =>
    exact iff_of_false (operatorHolds_unknown operand _ hunknown)
      (operatorHolds_unknown operand _ hunknown)

/-- An operator expression says the same of all objects that are nested deeper than its operands. -/
theorem operatorsHold_congr_of_depth : ∀ (fields : Members Json),
    depthFields fields < (Json.obj a).depth → depthFields fields < (Json.obj b).depth →
    (OperatorsHold fields {.obj a} ↔ OperatorsHold fields {.obj b})
  | [], _, _ => by simp only [OperatorsHold]
  | (operator, operand) :: rest, ha, hb => by
    rw [depthFields] at ha hb
    simp only [OperatorsHold]
    refine and_congr (operatorHolds_congr_of_depth (by omega) (by omega) ?_ operator)
      (operatorsHold_congr_of_depth rest (by omega) (by omega))
    rintro fields rfl
    rw [Json.depth] at ha hb
    exact operatorsHold_congr_of_depth fields (by omega) (by omega)

end FilterDocument

/-! ## Sources that are read back -/

namespace Filter

open Json (single)
open FilterDocument

/-- The source is a filter document that selects the documents that the filter selects. -/
def Faithful (f : Filter) : Prop :=
  ∃ g, compile f.source = .ok g ∧ ∀ doc, g.selects doc = f.selects doc

/-- The source of a filter that is restricted to documents that are not deleted is read back as the
restriction of what the source is read back as. -/
theorem compile_source_live {f : Filter} {fields : Members Json} (h : f.source = .obj fields) :
    compile f.live.source = live <$> compile f.source := by
  have hdeleted : compileItem (single "_deleted" (single "$exists" (.bool false))) =
      .ok (.field ["_deleted"] [.present false]) := rfl
  have hitems : compileFilters "$and" (.arr [f.source,
      single "_deleted" (single "$exists" (.bool false))]) =
      (fun p => [p, .field ["_deleted"] [.present false]]) <$> compileItem f.source := by
    rw [compileFilters, compileFilterItems_cons, compileFilterItems_cons, hdeleted]
    · cases compileItem f.source <;> rfl
    · simp
  show compile (.obj [("$and", .arr [f.source,
      single "_deleted" (single "$exists" (.bool false))])]) = _
  rw [compile, compileClauses_cons, compileClause, if_pos rfl, hitems]
  rw [h, compileItem, compile]
  cases compileClauses fields <;> rfl

theorem exists_source_lives {f : Filter} {fields : Members Json} (h : f.source = .obj fields)
    (n : Nat) : ∃ fields', (live^[n] f).source = .obj fields' := by
  cases n with
  | zero => exact ⟨fields, h⟩
  | succ n =>
    rw [Function.iterate_succ_apply']
    exact ⟨_, rfl⟩

/-- So it is for any number of restrictions. -/
theorem compile_source_lives {f : Filter} {fields : Members Json} (h : f.source = .obj fields)
    (n : Nat) : compile (live^[n] f).source = live^[n] <$> compile f.source := by
  induction n with
  | zero => cases hcompile : compile f.source <;> simp [hcompile]
  | succ n ih =>
    obtain ⟨fields', hfields'⟩ := exists_source_lives h n
    rw [Function.iterate_succ_apply', compile_source_live hfields', ih]
    cases compile f.source with
    | error e => rfl
    | ok g =>
      show Except.ok (live (live^[n] g)) = Except.ok (live^[n + 1] g)
      rw [Function.iterate_succ_apply']

/-- Filters that select the same documents do so when they are restricted. -/
theorem selects_lives_congr {f g : Filter} (h : ∀ doc, g.selects doc = f.selects doc) (n : Nat)
    (doc : Json) : (live^[n] g).selects doc = (live^[n] f).selects doc := by
  have hlive : ∀ f : Filter, f.live.selects doc =
      (f.selects doc && Condition.allHold [.present false] (Json.reach ["_deleted"] doc)) := by
    intro f
    simp [selects, live, Predicate.holds, Predicate.allHold]
  induction n with
  | zero => exact h doc
  | succ n ih => rw [Function.iterate_succ_apply', Function.iterate_succ_apply', hlive, hlive, ih]

/-- A restriction does not matter to a document that is not deleted. -/
theorem selects_lives {doc : Json} (hobj : doc.isObject = true)
    (hlive : Document.isDeleted doc = false) (f : Filter) (n : Nat) :
    (live^[n] f).selects doc = f.selects doc := by
  induction n with
  | zero => rfl
  | succ n ih =>
    rw [Function.iterate_succ_apply', live_selects hobj, ih, hlive, Bool.not_false, Bool.and_true]

theorem Faithful.lives {f : Filter} (hf : Faithful f) {fields : Members Json}
    (h : f.source = .obj fields) (n : Nat) : Faithful (live^[n] f) := by
  obtain ⟨g, hg, hselects⟩ := hf
  refine ⟨live^[n] g, ?_, selects_lives_congr hselects n⟩
  rw [compile_source_lives h, hg]
  rfl

/-! ## Sources that are misread -/

/-- Null is no filter inside another one. -/
theorem compile_source_lives_null (predicate : Predicate) (n : Nat) :
    compile (live^[n + 1] ⟨predicate, .null⟩).source = .error (.notAnObject "null") := by
  have hlive : compile (live ⟨predicate, .null⟩).source = .error (.notAnObject "null") := rfl
  rw [Function.iterate_succ_apply, compile_source_lives rfl, hlive]
  rfl

/-- An operator expression where an identity is meant does not select the documents with this
identity: it does not tell it from an object with this identity inside. -/
theorem not_faithful_byId {fields : Members Json} (hid : (Json.obj fields).KeysDistinct)
    (hexpr : IsExpression fields) (n : Nat) : ¬ Faithful (live^[n] (byId (.obj fields))) := by
  rintro ⟨h, hh, hselects⟩
  rw [compile_source_lives rfl] at hh
  obtain ⟨g, hg, rfl⟩ := exists_of_map_ok hh
  have hkept : ∀ v, g.selects (single "_id" v) = (byId (.obj fields)).selects (single "_id" v) := by
    intro v
    have hv := hselects (single "_id" v)
    rwa [selects_lives rfl rfl, selects_lives rfl rfl] at hv
  have hvalue : compileFieldValue (.obj fields) = compileOperators fields := by
    rw [compileFieldValue, if_pos ((hasOperator_iff fields).mpr hexpr)]
  have hsource : (byId (.obj fields)).source = single "_id" (.obj fields) := rfl
  rw [hsource, compile_single (by decide) rfl, hvalue] at hg
  obtain ⟨cs, hcs, rfl⟩ := exists_of_map_ok hg
  have hmeans : ∀ v, (byId (.obj fields)).selects (single "_id" v) = true ↔
      OperatorsHold fields {v} := by
    intro v
    have hfound : {w | w ∈ [v]} = ({v} : Set Json) := Set.ext fun w => List.mem_singleton
    rw [← hkept, ← hfound]
    exact (settles_operators fields).of_ok hcs [v]
  -- the identity itself is selected, and what holds it is not
  have hself : (byId (.obj fields)).selects (single "_id" (.obj fields)) = true := by
    rw [byId_selects rfl, Json.equalsOrContains_iff]
    exact ⟨_, .inl rfl, Json.equiv_refl hid⟩
  have hdeeper : (Json.obj fields).depth < (single "_id" (.obj fields)).depth := by
    simp [single, Json.depth, Json.depthFields]
  have hother : ¬ (byId (.obj fields)).selects (single "_id" (single "_id" (.obj fields))) =
      true := by
    rw [byId_selects rfl, Json.equalsOrContains_iff]
    exact not_hasEqual_of_depth hdeeper
  refine hother ((hmeans _).mpr ?_)
  refine (operatorsHold_congr_of_depth fields ?_ ?_).mp ((hmeans _).mp hself)
  · rw [Json.depth]
    omega
  · rw [Json.depth] at hdeeper
    exact Nat.lt_of_succ_lt hdeeper

/-- An identity that is no operator expression is read back. -/
theorem faithful_byId {id : Json} (h : ∀ fields, id = .obj fields → ¬ IsExpression fields) :
    Faithful (byId id) := by
  refine ⟨byId id, compile_byId fun fields he => ?_, fun _ => rfl⟩
  exact Bool.eq_false_iff.mpr fun hop => h fields he ((hasOperator_iff fields).mp hop)

/-- **Which sources are read back.** A filter that was compiled, and then restricted any number of
times to documents that are not deleted, has a faithful source unless it was compiled from null and
restricted at least once. The filter that selects everything always has one. The filter for an
identity has one exactly if this is no object with an operator among its keys. -/
theorem source_faithful_iff (n : Nat) :
    (∀ source f, compile source = .ok f →
      (Faithful (live^[n] f) ↔ (source = .null → n = 0))) ∧
    Faithful (live^[n] all) ∧
    ∀ id, id.KeysDistinct →
      (Faithful (live^[n] (byId id)) ↔ ∀ fields, id = .obj fields → ¬ IsExpression fields) := by
  refine ⟨fun source f hf => ?_, ?_, fun id hid => ?_⟩
  · have hsource := source_of_compile hf
    have hfaithful : Faithful f := ⟨f, by rw [hsource, hf], fun _ => rfl⟩
    cases source with
    | null =>
      cases n with
      | zero => exact iff_of_true hfaithful fun _ => rfl
      | succ n =>
        refine iff_of_false ?_ (by simp)
        obtain rfl := Except.ok.inj hf
        rintro ⟨g, hg, -⟩
        rw [compile_source_lives_null] at hg
        cases hg
    | obj fields => exact iff_of_true (hfaithful.lives hsource n) (by simp)
    | _ => cases hf
  · exact Faithful.lives ⟨all, rfl, fun _ => rfl⟩ rfl n
  · constructor
    · rintro hfaithful fields rfl hexpr
      exact not_faithful_byId hid hexpr n hfaithful
    · exact fun h => (faithful_byId h).lives rfl n

/-- An identity with keys of its own is read back, and so is the restriction of its filter. -/
theorem source_faithful_keyed :
    (single "a" (.arr [.null, single "$gt" (.nat 1)])).KeysDistinct ∧
      Faithful (live^[2] (byId (single "a" (.arr [.null, single "$gt" (.nat 1)])))) := by
  have hid : (single "a" (.arr [.null, single "$gt" (.nat 1)])).KeysDistinct := by
    simp [single, Json.KeysDistinct, Json.KeysDistinctFields, Json.KeysDistinctItems, Json.nat]
  refine ⟨hid, ((source_faithful_iff 2).2.2 _ hid).mpr ?_⟩
  rintro _ ⟨⟩
  decide

/-- The restriction of the compiled null has a source that does not compile, and the source of the
filter for an identity with an operator selects another document. -/
theorem sources_misread :
    (∃ f, compile .null = .ok f ∧
      compile f.live.source = .error (.notAnObject "null") ∧ ¬ Faithful f.live) ∧
    ∃ g, compile (byId (single "$gt" (.nat 1))).source = .ok g ∧
      g.selects (single "_id" (.nat 2)) = true ∧
      (byId (single "$gt" (.nat 1))).selects (single "_id" (.nat 2)) = false ∧
      ¬ Faithful (byId (single "$gt" (.nat 1))) := by
  refine ⟨⟨_, rfl, rfl, ?_⟩, _, rfl, by decide +kernel, by decide +kernel, ?_⟩
  · rintro ⟨g, ⟨⟩, -⟩
  · rintro ⟨g, hg, hselects⟩
    obtain rfl := Except.ok.inj hg
    have hdoc := hselects (single "_id" (.nat 2))
    revert hdoc
    decide +kernel

end Filter
end DocWatch
