import DocWatch.Proofs.Filter.Compile
import DocWatch.Proofs.Update.Attribution
import DocWatch.Update.Parse

/-!
# Filters of one field

Filters walk through a document in their own way: they go into each object of an array, and they
read a plus sign in front of a slot. Where storage follows a path to a value, though, they find this
value and nothing else, so that whatever is asked of the field is asked of this one value.

- `Json.single`: the object with one member.
- `Json.reach_of_get?`: where storage reaches a value, a filter finds just that.
- `Filter.answer`: compiling a filter document and looking at a document.
- `Filter.answer_single`: what a filter of one field asks, and of what.
- `Filter.sees_what_is_there`: the main result.
-/

namespace DocWatch

namespace Json

/-- The object with one member. -/
def single (key : String) (v : Json) : Json := .obj [(key, v)]

/-- Where storage reaches a value, a filter finds this value only. -/
theorem reach_of_get? {v w : Json} {path : FieldPath} (h : v.get? path = some w) :
    reach path v = [w] := by
  induction path generalizing v with
  | nil =>
    obtain rfl := Option.some.inj h
    rw [reach]
  | cons segment rest ih =>
    rw [get?, Option.bind_eq_some_iff] at h
    obtain ⟨inner, hchild, hinner⟩ := h
    cases v with
    | obj fields =>
      have hget : Members.get? fields segment = some inner := hchild
      simp only [reach, hget]
      exact ih hinner
    | arr items =>
      -- a segment that storage reads as a slot is no key of the elements for a filter
      obtain ⟨i, hindex, hitem⟩ := Option.bind_eq_some_iff.mp hchild
      simp only [reach, FieldPath.signedIndex?_of_index? hindex, hitem]
      exact ih hinner
    | _ => cases hchild

/-- A value without double keys is found where it is. -/
theorem anyEquals_self {w : Json} (hw : w.KeysDistinct) : anyEquals [w] w = true := by
  simp [anyEquals, equalsOrContains, equiv_refl hw]

end Json

open Json (single)

namespace Filter

/-! ## Compiling -/

/-- What a filter document says of a document, or why it is no filter. -/
def answer (source doc : Json) : Except CompileError Bool := (·.selects doc) <$> compile source

variable {key : String} {path : FieldPath}

/-- A key that begins with no dollar sign is a path. -/
theorem compileClause_field (hkey : isOperator key = false) (hpath : FieldPath.parse key = .ok path)
    (v : Json) : compileClause key v = Predicate.field path <$> compileFieldValue v := by
  have hlogical : ∀ operator, isOperator operator = true → key ≠ operator := by
    rintro operator hoperator rfl
    rw [hkey] at hoperator
    cases hoperator
  rw [compileClause, if_neg (hlogical "$and" (by decide)), if_neg (hlogical "$or" (by decide)),
    if_neg (hlogical "$nor" (by decide)), hkey, if_neg Bool.false_ne_true, hpath]

theorem compile_single (hkey : isOperator key = false) (hpath : FieldPath.parse key = .ok path)
    (v : Json) : compile (single key v) =
      (fun conditions => ⟨.field path conditions, single key v⟩) <$> compileFieldValue v := by
  rw [single, compile, compileClauses_cons, compileClause_field hkey hpath]
  cases compileFieldValue v <;> rfl

/-- An identity that is not written like an operator stands for itself in a filter. -/
theorem compile_byId {id : Json} (h : ∀ fields, id = .obj fields → hasOperator fields = false) :
    compile (.obj [("_id", id)]) = .ok (byId id) := by
  have hvalue : compileFieldValue id = .ok [.eq id] := by
    cases id with
    | obj fields => rw [compileFieldValue, h fields rfl, if_neg Bool.false_ne_true]
    | _ => rfl
  have hsingle := compile_single (show isOperator "_id" = false by decide)
    (show FieldPath.parse "_id" = .ok ["_id"] from rfl) id
  rw [hvalue] at hsingle
  exact hsingle

/-- A filter of one field asks for conditions on what it finds at the path. -/
theorem answer_single (hkey : isOperator key = false) (hpath : FieldPath.parse key = .ok path)
    (v doc : Json) : answer (single key v) doc =
      (Condition.allHold · (Json.reach path doc)) <$> compileFieldValue v := by
  rw [answer, compile_single hkey hpath]
  cases compileFieldValue v with
  | error e => rfl
  | ok conditions =>
    show Except.ok (selects _ doc) = Except.ok _
    rw [selects, Predicate.holds]

/-- What is asked of a field is asked of the value that storage reaches there. -/
theorem answer_of_get? (hkey : isOperator key = false) (hpath : FieldPath.parse key = .ok path)
    {doc x : Json} (h : doc.get? path = some x) (v : Json) :
    answer (single key v) doc = (Condition.allHold · [x]) <$> compileFieldValue v := by
  rw [answer_single hkey hpath, Json.reach_of_get? h]

/-- One operator is one condition. -/
theorem compileFieldValue_single {operator : String} (hop : isOperator operator = true)
    (operand : Json) : compileFieldValue (single operator operand) =
      (fun c => [c]) <$> compileOperator operator operand := by
  have hexpr : hasOperator [(operator, operand)] = true := by simp [hasOperator, hop]
  rw [single, compileFieldValue, if_pos hexpr, compileOperators_cons, compileMember, if_pos hop]
  cases compileOperator operator operand <;> rfl

/-- One operator asks for one condition on what is found at the path. -/
theorem answer_condition (hkey : isOperator key = false) (hpath : FieldPath.parse key = .ok path)
    {operator : String} (hop : isOperator operator = true) (operand doc : Json) :
    answer (single key (single operator operand)) doc =
      (·.holds (Json.reach path doc)) <$> compileOperator operator operand := by
  rw [answer_single hkey hpath, compileFieldValue_single hop]
  cases compileOperator operator operand with
  | error e => rfl
  | ok c =>
    show Except.ok (Condition.allHold [c] _) = Except.ok (c.holds _)
    rw [Condition.allHold, Condition.allHold, Bool.and_true]

/-- The answer to one operator. -/
theorem answer_operator (hkey : isOperator key = false) (hpath : FieldPath.parse key = .ok path)
    {doc x : Json} (h : doc.get? path = some x) {operator : String}
    (hop : isOperator operator = true) (operand : Json) :
    answer (single key (single operator operand)) doc =
      (·.holds [x]) <$> compileOperator operator operand := by
  rw [answer_condition hkey hpath hop, Json.reach_of_get? h]

end Filter

/-- The update with one path under one operator. -/
theorem Update.parse_single {operator : String} (hop : Filter.isOperator operator = true)
    (key : String) (operand : Json) : parse (single operator (single key operand)) =
      (fun op => [op]) <$> parseOperator operator key operand := by
  rw [single, single, parse, parseFields, if_pos hop]
  simp only [parseOperators]
  cases parseOperator operator key operand <;> rfl

namespace Filter

/-- **Filters see what is there.** Where storage reaches a value at the path that a key spells,
anything that is asked under this key gets the answer that it gets about the value alone, or is
refused for the same reason. So a value that was written is found equal to what was written. -/
theorem sees_what_is_there {key : String} {path : FieldPath} (hkey : isOperator key = false)
    (hpath : FieldPath.parse key = .ok path) :
    (∀ d x : Json, d.get? path = some x →
      ∀ c : Json, answer (single key c) d = answer (single "v" c) (single "v" x)) ∧
    ∀ w : Json, w.KeysDistinct →
      ∃ u, Update.parse (single "$set" (single key w)) = .ok u ∧
        ∀ d new, Update.run u d = .ok new →
          answer (single key (single "$eq" w)) new = .ok true ∧
          answer (single key (single "$ne" w)) new = .ok false := by
  constructor
  · intro d x hget c
    have hv : (single "v" x).get? ["v"] = some x := rfl
    rw [answer_of_get? hkey hpath hget, answer_of_get? (by decide) (by decide +kernel) hv]
  · intro w hw
    refine ⟨[.set path w], ?_, fun d new hrun => ?_⟩
    · rw [Update.parse_single (by decide), Update.parseOperator, hpath]
      rfl
    · obtain ⟨mid, happly, hnil⟩ := (Update.run_cons_ok_iff _ _ _ _).mp hrun
      obtain rfl := Except.ok.inj hnil
      have hget := Json.get?_of_set ((Update.apply_set_ok_iff _ _ _ _).mp happly)
      have hfound := Json.anyEquals_self hw
      rw [answer_operator hkey hpath hget (by decide), answer_operator hkey hpath hget (by decide),
        compileOperator, compileOperator]
      constructor
      · show Except.ok (Condition.holds (.eq w) [w]) = Except.ok true
        rw [Condition.holds, hfound]
      · show Except.ok (Condition.holds (.ne w) [w]) = Except.ok false
        rw [Condition.holds, hfound, Bool.not_true]

/-- An array with a null and an object. -/
def sheet : Json := .obj [("rows", .arr [.null, .obj [("n", .nat 5)]])]

/-- A slot that is spelled in another way, and an object that is written beyond the end. -/
theorem sees_respelled_slot :
    isOperator "rows.01.n" = false ∧ FieldPath.parse "rows.01.n" = .ok ["rows", "01", "n"] ∧
    answer (single "rows.01.n" (single "$gt" (.nat 3))) sheet =
      answer (single "v" (single "$gt" (.nat 3))) (single "v" (.nat 5)) ∧
    ∃ u new, Update.parse (single "$set" (single "rows.3" (single "n" .null))) = .ok u ∧
      Update.run u sheet = .ok new ∧
      answer (single "rows.3" (single "$eq" (single "n" .null))) new = .ok true := by
  have hkey : isOperator "rows.01.n" = false := by decide
  have hpath : FieldPath.parse "rows.01.n" = .ok ["rows", "01", "n"] := by decide +kernel
  have hthere : sheet.get? ["rows", "01", "n"] = some (.nat 5) := by decide +kernel
  have hnext : FieldPath.parse "rows.3" = .ok ["rows", "3"] := by decide +kernel
  have hdistinct : (single "n" .null).KeysDistinct := by
    simp [single, Json.KeysDistinct, Json.KeysDistinctFields, Members.keys]
  obtain ⟨u, hparse, hsees⟩ := (sees_what_is_there (by decide) hnext).2 _ hdistinct
  have hset : Update.parse (single "$set" (single "rows.3" (single "n" .null))) =
      .ok [.set ["rows", "3"] (single "n" .null)] := rfl
  obtain rfl := Except.ok.inj (hset.symm.trans hparse)
  obtain ⟨new, hrun⟩ : ∃ new,
      Update.run [.set ["rows", "3"] (single "n" .null)] sheet = .ok new := ⟨_, rfl⟩
  exact ⟨hkey, hpath, (sees_what_is_there hkey hpath).1 _ _ hthere _, _, new, hparse, hrun,
    (hsees _ _ hrun).1⟩

end Filter
end DocWatch
