import DocWatch.Update.Parse
import DocWatch.Proofs.Filter.Compile
import Mathlib.Data.List.Forall2

/-!
# The grammar of update documents

An update document is an object with one member for each operator, and under the operator one member
for each path. What may stand under a path depends on the operator. The parser takes the name of an
operator for what it is only when it is at one of the paths, so a name that means nothing is
accepted over an object without paths.

- `UpdateDocument.Valid`: the grammar.
- `UpdateDocument.entries`, `UpdateDocument.Spells`: the operator and path pairs of a document, and
  the operators that they spell.
- `UpdateDocument.settles_parse`: along the parser, what is accepted and what it spells.
- `Update.parse_accepts`: the main result.
-/

namespace DocWatch

namespace UpdateDocument

open FilterDocument

/-! ## The grammar -/

/-- The update operators. -/
def vocabulary : List String := ["$set", "$unset", "$push", "$pull"]

/-- What may stand under `$position`: nothing, null or an unsigned integer. -/
def ValidPosition (position : Option Json) : Prop :=
  position = none ∨ position = some .null ∨ ∃ p k, position = some p ∧ p.Counts k

/-- What may be pulled: the elements of an operator expression, those of a filter, or a value. -/
def ValidSelector : Json → Prop
  | .obj fields => if IsExpression fields then ValidOperators fields else ValidClauses fields
  | _ => True

/-- What may stand under a path of an operator. -/
def ValidOperand (operator : String) (operand : Json) : Prop :=
  match operator with
  | "$push" => ∀ each, operand.field? "$each" = some each →
      (∃ values, each = .arr values) ∧ ValidPosition (operand.field? "$position")
  | "$pull" => ValidSelector operand
  | _ => True

/-- A path without empty segments, with an operand that suits the operator. -/
def ValidEntry (operator key : String) (operand : Json) : Prop :=
  "" ∉ FieldPath.dotted key ∧ ValidOperand operator operand

/-- An operator with an object of paths. -/
def ValidMember (operator : String) (v : Json) : Prop :=
  operator ∈ vocabulary ∧ ∃ paths, v = .obj paths ∧ ∀ m ∈ paths, ValidEntry operator m.1 m.2

/-- The documents of the grammar. -/
def Valid (w : Json) : Prop := ∃ fields, w = .obj fields ∧ ∀ m ∈ fields, ValidMember m.1 m.2

/-- A key that looks like an operator but is none, over an object without paths. -/
def IsIdle (operator : String) (v : Json) : Prop :=
  IsOperator operator ∧ operator ∉ vocabulary ∧ v = .obj []

/-! ## What documents spell -/

/-- The operator and path pairs under one operator, each with its operand. -/
def memberEntries (operator : String) : Json → List (String × String × Json)
  | .obj paths => paths.map fun m => (operator, m.1, m.2)
  | _ => []

/-- The operator and path pairs of a document, in order. -/
def entries : Json → List (String × String × Json)
  | .obj fields => fields.flatMap fun m => memberEntries m.1 m.2
  | _ => []

/-- The position that is asked for, if any. -/
inductive At : Option Json → Option Nat → Prop
  | missing : At none none
  | null : At (some .null) none
  | index {p : Json} {k : Nat} : p.Counts k → At (some p) (some k)

/-- Is an element of an array one of those to be pulled? -/
def Pulls : Json → Json → Prop
  | .obj fields, element =>
    if IsExpression fields then OperatorsHold fields {element}
    else element.isObject = true ∧ ClausesHold fields element
  | operand, element => element.equiv operand = true

/-- The operator that a pair with its operand spells. -/
inductive Spells : String × String × Json → Operator → Prop
  | set (key : String) (v : Json) : Spells ("$set", key, v) (.set (FieldPath.dotted key) v)
  | unset (key : String) (v : Json) : Spells ("$unset", key, v) (.unset (FieldPath.dotted key))
  | push {key : String} {v : Json} : v.field? "$each" = none →
      Spells ("$push", key, v) (.push (FieldPath.dotted key) [v] none)
  | pushEach {key : String} {v : Json} {values : List Json} {position : Option Nat} :
      v.field? "$each" = some (.arr values) → At (v.field? "$position") position →
      Spells ("$push", key, v) (.push (FieldPath.dotted key) values position)
  | pull {key : String} {v : Json} {selector : Selector} :
      (∀ element, selector.selects element = true ↔ Pulls v element) →
      Spells ("$pull", key, v) (.pull (FieldPath.dotted key) selector)

/-! ## Operands -/

theorem settles_position (position : Option Json) :
    Settles (Update.parsePosition position) (ValidPosition position) (At position) := by
  have hnone : ∀ p : Json, p ≠ .null → (∀ k, ¬ p.Counts k) → ¬ ValidPosition (some p) := by
    rintro p hnull hcounts (h | h | ⟨_, k, h, hk⟩)
    · cases h
    · exact hnull (Option.some.inj h)
    · obtain rfl := Option.some.inj h
      exact hcounts k hk
  cases position with
  | none => exact ⟨.inl rfl, .missing⟩
  | some p =>
    cases p with
    | null => exact ⟨.inr (.inl rfl), .null⟩
    | num n =>
      rw [Update.parsePosition]
      cases hcount : n.toNat? with
      | none =>
        refine settles_error (hnone _ Json.noConfusion ?_)
        rintro k ⟨_, h, hk⟩
        cases h
        rw [hcount] at hk
        cases hk
      | some k => exact ⟨.inr (.inr ⟨_, k, rfl, n, rfl, hcount⟩), .index ⟨n, rfl, hcount⟩⟩
    | _ =>
      refine settles_error (hnone _ Json.noConfusion ?_)
      rintro k ⟨_, h, -⟩
      cases h

theorem settles_push (key : String) (operand : Json) :
    Settles (Update.parsePush (FieldPath.dotted key) operand) (ValidOperand "$push" operand)
      (Spells ("$push", key, operand)) := by
  rw [Update.parsePush]
  simp only [ValidOperand]
  cases heach : operand.field? "$each" with
  | none => exact ⟨fun _ h => (by cases h), .push heach⟩
  | some each =>
    cases each with
    | arr values =>
      have hmap := (settles_position (operand.field? "$position")).map
        (f := fun position => Operator.push (FieldPath.dotted key) values position)
        fun position hat => Spells.pushEach heach hat
      refine hmap.congr ⟨fun hvalid each he => ?_, fun hvalid => (hvalid _ rfl).2⟩
      exact ⟨⟨values, (Option.some.inj he).symm⟩, hvalid⟩
    | _ =>
      refine settles_error fun hvalid => ?_
      obtain ⟨⟨_, h⟩, -⟩ := hvalid _ rfl
      cases h

/-- Pulling an element looks at it under a key of its own. -/
theorem lifted_reaches (element : Json) :
    {w | (Json.obj [(Selector.liftKey, element)]).Reaches (FieldPath.dotted Selector.liftKey) w} =
      {element} := by
  have hpath : FieldPath.dotted Selector.liftKey = [Selector.liftKey] := by decide +kernel
  ext w
  show (Json.obj _).Reaches _ w ↔ w = element
  rw [hpath, Json.reaches_obj_iff]
  simp [Members.get?, Json.reaches_nil_iff]

/-- A condition on the elements is asked of a document that holds the element. -/
theorem holds_lifted_iff {fields : Members Json} (h : IsExpression fields) (element : Json) :
    Holds (.obj [(Selector.liftKey, .obj fields)]) (.obj [(Selector.liftKey, element)]) ↔
      OperatorsHold fields {element} := by
  rw [Holds, ItemHolds, ClausesHold, ClausesHold, and_true, ClauseHolds, lifted_reaches, FieldHolds,
    if_pos h]
  all_goals simp [Selector.liftKey]

theorem valid_lifted_iff {fields : Members Json} (h : IsExpression fields) :
    FilterDocument.Valid (.obj [(Selector.liftKey, .obj fields)]) ↔ ValidOperators fields := by
  have hkey : Selector.liftKey ∉ logical ∧ ¬ IsOperator Selector.liftKey ∧
      "" ∉ FieldPath.dotted Selector.liftKey := by decide +kernel
  rw [FilterDocument.Valid, ValidItem, ValidClauses, ValidClauses, and_true, ValidClause,
    if_neg hkey.1, ValidField, if_pos h]
  · exact ⟨fun hvalid => hvalid.2.2, fun hvalid => ⟨hkey.2.1, hkey.2.2, hvalid⟩⟩
  · exact Json.noConfusion

theorem settles_selector (operand : Json) :
    Settles (Selector.parse operand) (ValidSelector operand) fun s =>
      ∀ element, s.selects element = true ↔ Pulls operand element := by
  cases operand with
  | obj fields =>
    rw [Selector.parse, ValidSelector]
    by_cases hexpr : IsExpression fields
    · rw [if_pos ((hasOperator_iff fields).mpr hexpr), if_pos hexpr, ← valid_lifted_iff hexpr]
      refine (Filter.settles_compile _).relabel (f := Selector.condition)
        (fun f hf => by rw [hf]) (fun e he => ⟨_, by rw [he]⟩) fun f hf element => ?_
      rw [Selector.selects, hf, holds_lifted_iff hexpr, Pulls, if_pos hexpr]
    · rw [if_neg (fun h => hexpr ((hasOperator_iff fields).mp h)), if_neg hexpr]
      have hvalid : FilterDocument.Valid (.obj fields) ↔ ValidClauses fields := by
        rw [FilterDocument.Valid, ValidItem]
        exact Json.noConfusion
      refine ((Filter.settles_compile _).congr hvalid).relabel (f := Selector.document)
        (fun f hf => by rw [hf]) (fun e he => ⟨_, by rw [he]⟩) fun f hf element => ?_
      rw [Selector.selects, Bool.and_eq_true, hf, Pulls, if_neg hexpr, Holds, ItemHolds]
      exact Json.noConfusion
  | _ => exact ⟨trivial, fun element => Iff.rfl⟩

/-! ## Along the parser -/

theorem settles_entry (operator key : String) (operand : Json) :
    Settles (Update.parseOperator operator key operand)
      (operator ∈ vocabulary ∧ ValidEntry operator key operand)
      (Spells (operator, key, operand)) := by
  rw [Update.parseOperator]
  cases hparse : FieldPath.parse key with
  | error e =>
    refine settles_error fun h => ?_
    rw [(FieldPath.parse_ok_iff key _).mpr ⟨h.2.1, rfl⟩] at hparse
    cases hparse
  | ok path =>
    obtain ⟨hsegments, rfl⟩ := (FieldPath.parse_ok_iff key path).mp hparse
    by_cases hknown : operator ∈ vocabulary
    · rw [ValidEntry, eq_true hknown, eq_true hsegments, true_and, true_and]
      simp only [vocabulary, List.mem_cons, List.not_mem_nil, or_false] at hknown
      rcases hknown with rfl | rfl | rfl | rfl
      · simp only [ValidOperand]
        exact settles_ok _ (.set key operand)
      · simp only [ValidOperand]
        exact settles_ok _ (.unset key operand)
      · exact settles_push key operand
      · simp only [ValidOperand]
        exact (settles_selector operand).map fun s hs => .pull hs
    · dsimp only
      split
      case h_5 => exact settles_error fun h => hknown h.1
      all_goals exact absurd (by decide) hknown

theorem settles_entries (operator : String) (paths : Members Json) :
    Settles (Update.parseOperators operator paths)
      (∀ m ∈ paths, operator ∈ vocabulary ∧ ValidEntry operator m.1 m.2)
      (List.Forall₂ Spells (paths.map fun m => (operator, m.1, m.2))) := by
  induction paths with
  | nil => exact ⟨List.forall_mem_nil _, .nil⟩
  | cons m rest ih =>
    rw [Update.parseOperators, List.forall_mem_cons]
    exact (settles_entry operator m.1 m.2).cons ih fun _ _ h hrest => .cons h hrest

/-- What one operator key and the paths under it spell. -/
def parseMember (operator : String) (v : Json) : Except UpdateError Update :=
  if Filter.isOperator operator then
    match v with
    | .obj paths => Update.parseOperators operator paths
    | _ => .error (.invalidOperand operator .notPaths)
  else .error (.notAnOperator operator)

theorem parseFields_cons (operator : String) (v : Json) (rest : Members Json) :
    Update.parseFields ((operator, v) :: rest) = (do
      let ops ← parseMember operator v
      let more ← Update.parseFields rest
      return ops ++ more) := by
  unfold parseMember
  cases v with
  | obj paths =>
    rw [Update.parseFields]
    split_ifs <;> rfl
  | _ =>
    rw [Update.parseFields]
    · split_ifs <;> rfl
    · exact fun _ => Json.noConfusion

/-- Only without paths is it never asked what an operator means. -/
theorem validMember_or_isIdle_iff (operator : String) (v : Json) :
    ValidMember operator v ∨ IsIdle operator v ↔ IsOperator operator ∧ ∃ paths, v = .obj paths ∧
      ∀ m ∈ paths, operator ∈ vocabulary ∧ ValidEntry operator m.1 m.2 := by
  constructor
  · rintro (⟨hknown, paths, rfl, hpaths⟩ | ⟨hop, -, rfl⟩)
    · have hop : ∀ operator ∈ vocabulary, IsOperator operator := by decide
      exact ⟨hop operator hknown, paths, rfl, fun m hm => ⟨hknown, hpaths m hm⟩⟩
    · exact ⟨hop, [], rfl, List.forall_mem_nil _⟩
  · rintro ⟨hop, paths, rfl, hpaths⟩
    by_cases hknown : operator ∈ vocabulary
    · exact .inl ⟨hknown, paths, rfl, fun m hm => (hpaths m hm).2⟩
    · refine .inr ⟨hop, hknown, congrArg Json.obj ?_⟩
      exact List.eq_nil_iff_forall_not_mem.mpr fun m hm => hknown (hpaths m hm).1

theorem settles_member (operator : String) (v : Json) :
    Settles (parseMember operator v) (ValidMember operator v ∨ IsIdle operator v)
      (List.Forall₂ Spells (memberEntries operator v)) := by
  unfold parseMember
  rw [validMember_or_isIdle_iff]
  by_cases hop : IsOperator operator
  · rw [if_pos ((isOperator_iff operator).mpr hop), eq_true hop, true_and]
    cases v with
    | obj paths =>
      refine (settles_entries operator paths).congr ⟨fun h => ⟨paths, rfl, h⟩, ?_⟩
      rintro ⟨_, ⟨⟩, h⟩
      exact h
    | _ => exact settles_error (by simp)
  · rw [if_neg (fun h => hop ((isOperator_iff operator).mp h))]
    exact settles_error fun h => hop h.1

theorem settles_fields (fields : Members Json) :
    Settles (Update.parseFields fields) (∀ m ∈ fields, ValidMember m.1 m.2 ∨ IsIdle m.1 m.2)
      (List.Forall₂ Spells (entries (.obj fields))) := by
  induction fields with
  | nil => exact ⟨List.forall_mem_nil _, .nil⟩
  | cons m rest ih =>
    rw [parseFields_cons, List.forall_mem_cons]
    exact (settles_member m.1 m.2).bind fun ops hops =>
      ih.map fun more hmore => List.rel_append hops hmore

/-- A document is accepted if each member is one of the grammar or idle, and spells an operator for
each pair. -/
theorem settles_parse (w : Json) :
    Settles (Update.parse w) (∃ fields, w = .obj fields ∧
      ∀ m ∈ fields, ValidMember m.1 m.2 ∨ IsIdle m.1 m.2) (List.Forall₂ Spells (entries w)) := by
  cases w with
  | obj fields =>
    refine (settles_fields fields).congr ⟨fun h => ⟨fields, rfl, h⟩, ?_⟩
    rintro ⟨_, ⟨⟩, h⟩
    exact h
  | _ => exact settles_error (by simp)

end UpdateDocument

namespace Update

open UpdateDocument

/-- **What the parser accepts.** A document spells an update exactly if it is an object in which
each member is an operator with its paths, or is idle: a key that begins with a dollar sign, means
nothing and has no paths. So the documents of the grammar are those that are accepted and have no
idle member. What is accepted spells one operator for each operator and path, in order. -/
theorem parse_accepts (w : Json) :
    ((∃ u, parse w = .ok u) ↔ ∃ fields, w = .obj fields ∧
      ∀ m ∈ fields, ValidMember m.1 m.2 ∨ IsIdle m.1 m.2) ∧
    (Valid w ↔ (∃ u, parse w = .ok u) ∧ ∀ fields, w = .obj fields →
      ∀ m ∈ fields, ¬ IsIdle m.1 m.2) ∧
    ∀ u, parse w = .ok u → List.Forall₂ Spells (entries w) u := by
  have hsettles := settles_parse w
  refine ⟨hsettles.exists_iff, ?_, fun u hu => hsettles.of_ok hu⟩
  rw [hsettles.exists_iff]
  constructor
  · rintro ⟨fields, rfl, hvalid⟩
    refine ⟨⟨fields, rfl, fun m hm => .inl (hvalid m hm)⟩, ?_⟩
    rintro _ ⟨⟩ m hm ⟨-, hunknown, -⟩
    exact hunknown (hvalid m hm).1
  · rintro ⟨⟨fields, rfl, hmembers⟩, hidle⟩
    exact ⟨fields, rfl, fun m hm => (hmembers m hm).resolve_right (hidle fields rfl m hm)⟩

/-- A write, an insertion at the front and a removal. -/
def edits : Json :=
  .obj [("$set", .obj [("a.b", .nat 1)]),
    ("$push", .obj [("c", .obj [("$each", .arr [.nat 2, .null]), ("$position", .nat 0)])]),
    ("$pull", .obj [("d", .obj [("$gt", .nat 3)]), ("e", .str "x")])]

/-- Four pairs are four operators. -/
theorem parse_accepts_edits :
    ∃ u, parse edits = .ok u ∧ u.length = 4 ∧ List.Forall₂ Spells (entries edits) u :=
  ⟨_, rfl, rfl, (parse_accepts edits).2.2 _ rfl⟩

/-- An operator that means nothing is accepted over an object without paths, which is not in the
grammar. -/
theorem parse_accepts_unknown :
    parse (.obj [("$inc", .obj [])]) = .ok [] ∧ ¬ Valid (.obj [("$inc", .obj [])]) := by
  refine ⟨rfl, ?_⟩
  rintro ⟨_, ⟨⟩, hvalid⟩
  exact absurd (hvalid _ List.mem_cons_self).1 (by decide)

end Update
end DocWatch
