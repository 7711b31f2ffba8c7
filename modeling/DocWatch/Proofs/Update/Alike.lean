import DocWatch.Proofs.Action
import DocWatch.Proofs.Filter.Alike
import DocWatch.Update.Apply
import DocWatch.Update.Parse

/-!
# Alike documents are indistinguishable

A filter selects both of two alike documents or neither, and an update fails on both for the same
reason or leaves them alike.

- `Update.KeysDistinct`, `Update.keysDistinct_of_parse`: the values that an update writes are like
  all values that are read.
- `Operator.apply_alike`, `Update.apply_alike`: one operator, and all of them.
- `Json.equal_documents_are_indistinguishable`: the equivalence, and that filters and updates
  respect it.
-/

namespace DocWatch

open Json

/-- Two outcomes with alike values and the same error, if any, are both failures or both not. -/
theorem outcome_cases {ε : Type} {made made' : Json × Option ε}
    (h : Alike made.1 made'.1 ∧ made.2 = made'.2) :
    (∃ e v w, made = (v, some e) ∧ made' = (w, some e) ∧ Alike v w) ∨
      ∃ v w, made = (v, none) ∧ made' = (w, none) ∧ Alike v w := by
  obtain ⟨v, error⟩ := made
  obtain ⟨w, error'⟩ := made'
  obtain ⟨hvw, rfl⟩ : Alike v w ∧ error = error' := h
  cases error with
  | none => exact .inr ⟨v, w, rfl, rfl, hvw⟩
  | some e => exact .inl ⟨e, v, w, rfl, rfl, hvw⟩

theorem Selector.selects_eq_of_alike (selector : Selector) {v w : Json} (h : Alike v w) :
    selector.selects v = selector.selects w := by
  cases selector with
  | equals value => exact h.equiv_eq value
  | document f => rw [selects, selects, h.isObject_eq, f.selects_eq_of_alike h]
  | condition f =>
    -- the documents into which the elements are put are alike
    have hempty : Alike (.obj []) (.obj []) := .refl ⟨List.nodup_nil, trivial⟩
    exact f.selects_eq_of_alike (hempty.obj_insert liftKey h)

namespace Operator

/-- No object in the values that are written has a key twice. -/
def KeysDistinct : Operator → Prop
  | .set _ value => value.KeysDistinct
  | .push _ values _ => ∀ value ∈ values, value.KeysDistinct
  | .unset _ | .pull _ _ => True

/-- The same values are put into alike arrays at the same place. -/
theorem splice_alike {xs ys : List Json} (h : List.Forall₂ Alike xs ys) {values : List Json}
    (hvalues : ∀ value ∈ values, value.KeysDistinct) (position : Option Nat) :
    List.Forall₂ Alike (splice xs values position) (splice ys values position) := by
  have hsame : List.Forall₂ Alike values values :=
    List.forall₂_same.mpr fun value hmem => .refl (hvalues value hmem)
  cases position with
  | none => exact List.rel_append h hsame
  | some p =>
    exact List.rel_append (List.rel_append (List.forall₂_take p h) hsame) (List.forall₂_drop p h)

/-- A change of the array at a path. -/
theorem onArray_alike (operator : String) (path : FieldPath) {change : List Json → List Json}
    (hchange : ∀ xs ys, List.Forall₂ Alike xs ys → List.Forall₂ Alike (change xs) (change ys))
    {v w : Json} (h : Alike v w) :
    Alike (onArray operator v path change).1 (onArray operator w path change).1 ∧
      (onArray operator v path change).2 = (onArray operator w path change).2 := by
  unfold onArray
  rcases rel_cases (h.get? path) with ⟨hx, hy⟩ | ⟨x, y, hx, hy, hinner⟩
  · rw [hx, hy]
    exact ⟨h, rfl⟩
  · rw [hx, hy]
    cases hinner.form with
    | arr items =>
      exact ⟨h.modify path fun _ _ _ => (alike_arr_iff _ _).mpr (hchange _ _ items), rfl⟩
    | _ => exact ⟨h, rfl⟩

/-- An operator leaves alike documents alike, and fails on both for the same reason. -/
theorem apply_alike {op : Operator} (hop : op.KeysDistinct) {v w : Json} (h : Alike v w) :
    Alike (op.apply v).1 (op.apply w).1 ∧ (op.apply v).2 = (op.apply w).2 := by
  cases op with
  | set path value =>
    obtain ⟨hnew, herror⟩ := h.set path hop
    exact ⟨hnew, congrArg (Option.map UpdateError.access) herror⟩
  | unset path => exact ⟨(h.unset path).1, rfl⟩
  | pull path selector =>
    refine onArray_alike "$pull" path (fun xs ys hitems => ?_) h
    refine List.rel_filter (fun x y hxy => ?_) hitems
    simp only [selector.selects_eq_of_alike hxy]
  | push path values position =>
    have hpush : ∀ xs ys : List Json, List.Forall₂ Alike xs ys →
        List.Forall₂ Alike (splice xs values position) (splice ys values position) :=
      fun xs ys hitems => splice_alike hitems hop position
    simp only [apply]
    rcases rel_cases (h.get? path) with ⟨hx, hy⟩ | ⟨x, y, hx, hy, -⟩
    · -- an array is made in both, or in neither
      have hmade := h.set path (show (Json.arr []).KeysDistinct from trivial)
      simp only [hx, hy, Option.isSome_none, Bool.false_eq_true, if_false]
      rcases outcome_cases hmade with ⟨e, v', w', hv, hw, hvw⟩ | ⟨v', w', hv, hw, hvw⟩
      · rw [hv, hw]
        exact ⟨hvw, rfl⟩
      · rw [hv, hw]
        exact onArray_alike "$push" path hpush hvw
    · simp only [hx, hy, Option.isSome_some, if_true]
      exact onArray_alike "$push" path hpush h

end Operator

namespace Update

/-- No object in the values that are written has a key twice. Every value that is read is like
this. -/
def KeysDistinct (u : Update) : Prop := ∀ op ∈ u, op.KeysDistinct

/-! ### Updates that are read -/

theorem keysDistinct_of_parsePush {path : FieldPath} {operand : Json} {op : Operator}
    (hoperand : operand.KeysDistinct) (h : parsePush path operand = .ok op) : op.KeysDistinct := by
  unfold parsePush at h
  cases heach : operand.field? "$each" with
  | none =>
    rw [heach] at h
    rw [← Except.ok.inj h]
    exact fun value hvalue => List.mem_singleton.mp hvalue ▸ hoperand
  | some v =>
    rw [heach] at h
    cases v with
    | arr values =>
      obtain ⟨position, -, hop⟩ := exists_of_bind_ok h
      rw [← Except.ok.inj hop]
      exact (keysDistinctItems_iff values).mp (hoperand.of_field? heach)
    | _ => cases h

theorem keysDistinct_of_parseOperator {operator key : String} {operand : Json} {op : Operator}
    (hoperand : operand.KeysDistinct) (h : parseOperator operator key operand = .ok op) :
    op.KeysDistinct := by
  unfold parseOperator at h
  cases hpath : FieldPath.parse key with
  | error e => simp [hpath] at h
  | ok path =>
    simp only [hpath] at h
    split at h
    · rw [← Except.ok.inj h]
      exact hoperand
    · rw [← Except.ok.inj h]
      trivial
    · exact keysDistinct_of_parsePush hoperand h
    · cases hselector : Selector.parse operand with
      | error e =>
        rw [hselector] at h
        cases h
      | ok selector =>
        rw [hselector] at h
        rw [← Except.ok.inj h]
        trivial
    · cases h

theorem keysDistinct_of_parseOperators {operator : String} {paths : Members Json} {u : Update}
    (hpaths : KeysDistinctFields paths) (h : parseOperators operator paths = .ok u) :
    u.KeysDistinct := by
  induction paths generalizing u with
  | nil =>
    rw [← Except.ok.inj h]
    exact fun op hop => absurd hop List.not_mem_nil
  | cons kv rest ih =>
    obtain ⟨key, operand⟩ := kv
    obtain ⟨op, hop, h⟩ := exists_of_bind_ok h
    obtain ⟨ops, hops, h⟩ := exists_of_bind_ok h
    rw [← Except.ok.inj h]
    exact List.forall_mem_cons.mpr
      ⟨keysDistinct_of_parseOperator hpaths.1 hop, ih hpaths.2 hops⟩

theorem keysDistinct_of_parseFields {fields : Members Json} {u : Update}
    (hfields : KeysDistinctFields fields) (h : parseFields fields = .ok u) : u.KeysDistinct := by
  induction fields generalizing u with
  | nil =>
    rw [← Except.ok.inj h]
    exact fun op hop => absurd hop List.not_mem_nil
  | cons kv rest ih =>
    obtain ⟨operator, v⟩ := kv
    unfold parseFields at h
    by_cases hoperator : Filter.isOperator operator = true
    · rw [if_pos hoperator] at h
      cases v with
      | obj paths =>
        obtain ⟨ops, hops, h⟩ := exists_of_bind_ok h
        obtain ⟨more, hmore, h⟩ := exists_of_bind_ok h
        rw [← Except.ok.inj h]
        exact List.forall_mem_append.mpr
          ⟨keysDistinct_of_parseOperators hfields.1.2 hops, ih hfields.2 hmore⟩
      | _ => cases h
    · rw [if_neg hoperator] at h
      cases h

/-- An update that is read from a document in which no object has a key twice writes only such
values. -/
theorem keysDistinct_of_parse {source : Json} {u : Update} (hsource : source.KeysDistinct)
    (h : parse source = .ok u) : u.KeysDistinct := by
  cases source with
  | obj fields => exact keysDistinct_of_parseFields hsource.2 h
  | _ => cases h

/-! ### Updates that are applied -/

/-- An update leaves alike documents alike, and fails on both for the same reason. -/
theorem apply_alike {u : Update} (hu : u.KeysDistinct) {v w : Json} (h : Alike v w) :
    Alike (u.apply v).1 (u.apply w).1 ∧ (u.apply v).2 = (u.apply w).2 := by
  induction u generalizing v w with
  | nil => exact ⟨h, rfl⟩
  | cons op rest ih =>
    have hop := Operator.apply_alike (hu op List.mem_cons_self) h
    rw [apply, apply]
    rcases outcome_cases hop with ⟨e, v', w', hv, hw, hvw⟩ | ⟨v', w', hv, hw, hvw⟩
    · rw [hv, hw]
      exact ⟨hvw, rfl⟩
    · rw [hv, hw]
      exact ih (fun op hop => hu op (List.mem_cons_of_mem _ hop)) hvw

end Update

namespace Json

/-- **Equal documents are indistinguishable.** Equality to a query is an equivalence of the values
in which no object has a key twice. Of two equal ones of these, every filter selects both or
neither, and every update fails on both, for the same reason, or succeeds on both with results that
are equal again, and in which no object has a key twice. -/
theorem equal_documents_are_indistinguishable :
    Equivalence (fun v w : {v : Json // v.KeysDistinct} => v.1.equiv w.1 = true) ∧
      ∀ d d' : Json, d.KeysDistinct → d'.KeysDistinct → d.equiv d' = true →
        (∀ f : Filter, f.selects d = f.selects d') ∧
        ∀ u : Update, u.KeysDistinct →
          (∃ e, u.run d = .error e ∧ u.run d' = .error e) ∨
          ∃ new new', u.run d = .ok new ∧ u.run d' = .ok new' ∧ new.equiv new' = true ∧
            new.KeysDistinct ∧ new'.KeysDistinct := by
  refine ⟨⟨fun v => equiv_refl v.2, fun {v w} h => equiv_symm v.2 h,
    fun {u v w} h h' => equiv_trans h h'⟩, fun d d' hd hd' hequiv => ?_⟩
  have h : Alike d d' := ⟨hd, hd', hequiv⟩
  refine ⟨fun f => f.selects_eq_of_alike h, fun u hu => ?_⟩
  unfold Update.run
  rcases outcome_cases (Update.apply_alike hu h) with
    ⟨e, new, new', hmade, hmade', -⟩ | ⟨new, new', hmade, hmade', hnew⟩
  · rw [hmade, hmade']
    exact .inl ⟨e, rfl, rfl⟩
  · rw [hmade, hmade']
    exact .inr ⟨new, new', rfl, rfl, hnew.equiv, hnew.left, hnew.right⟩

/-- A document of two members. -/
def spelled : Json :=
  .obj [("a", .nat 1), ("b", .arr [.obj [("c", .null), ("d", .nat 2)]])]

/-- The same with its keys in another order, at each depth, and with doubles for integers. -/
def respelled : Json :=
  .obj [("b", .arr [.obj [("d", .num (.double (Double.ofInt 2))), ("c", .null)]]),
    ("a", .num (.double (Double.ofInt 1)))]

/-- A push to both leaves them equal. -/
theorem push_to_spelled_and_respelled :
    spelled.equiv respelled = true ∧
      ∃ new new', Update.run [.push ["b"] [.nat 3] (some 0)] spelled = .ok new ∧
        Update.run [.push ["b"] [.nat 3] (some 0)] respelled = .ok new' ∧
        new.equiv new' = true := by
  have hspelled : spelled.KeysDistinct := by
    simp [spelled, KeysDistinct, KeysDistinctItems, KeysDistinctFields, nat]
  have hrespelled : respelled.KeysDistinct := by
    simp [respelled, KeysDistinct, KeysDistinctItems, KeysDistinctFields]
  have hequiv : spelled.equiv respelled = true := by
    simp [spelled, respelled, equiv, equivItems, equivFields, Members.get?, nat, Number.ofNat,
      Number.order, Number.toDouble]
  have hpush : Update.KeysDistinct [.push ["b"] [.nat 3] (some 0)] := by
    simp [Update.KeysDistinct, Operator.KeysDistinct, nat, KeysDistinct]
  refine ⟨hequiv, ?_⟩
  rcases (equal_documents_are_indistinguishable.2 _ _ hspelled hrespelled hequiv).2 _ hpush with
    ⟨e, he, -⟩ | ⟨new, new', hnew, hnew', h, -⟩
  · cases he
  · exact ⟨new, new', hnew, hnew', h⟩

end Json
end DocWatch
