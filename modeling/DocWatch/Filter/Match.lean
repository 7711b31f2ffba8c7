import DocWatch.Filter.Basic
import DocWatch.Json.Equality

/-!
# Which documents a filter selects

- `Json.reach`: the values found at a path. A segment that is no index goes into each object of an
  array.
- `Predicate.holds`, `Condition.holds`: the meaning of predicates and conditions.
- `Filter.selects`: does a filter select a document?
-/

namespace DocWatch

namespace Json

/-- The values found at a path, in order. -/
def reach : FieldPath → Json → List Json
  | [], v => [v]
  | segment :: rest, .obj fields =>
    match Members.get? fields segment with
    | none => []
    | some inner => reach rest inner
  | segment :: rest, .arr items =>
    match FieldPath.signedIndex? segment with
    | some i =>
      match items[i]? with
      | none => []
      | some inner => reach rest inner
    | none => items.flatMap fun item =>
      match item.field? segment with
      | none => []
      | some inner => reach rest inner
  | _ :: _, _ => []

/-- Is a value equal to another one, or an array that contains it? -/
def equalsOrContains (v expected : Json) : Bool :=
  v.equiv expected ||
    match v with
    | .arr items => items.any (·.equiv expected)
    | _ => false

/-- Is a value on the right side of a bound, or an array with such an element? -/
def inRange (v : Json) (comparison : Comparison) (bound : Json) : Bool :=
  let check (w : Json) := match w.compare? bound with
    | none => false
    | some o => comparison.accepts o
  match v with
  | .arr items => items.any check
  | v => check v

/-- Is a value found? Finding nothing counts as finding null. -/
def anyEquals (found : List Json) (expected : Json) : Bool :=
  (expected.isNull && found.isEmpty) || found.any (·.equalsOrContains expected)

end Json

mutual

/-- Does a document satisfy the predicate? -/
def Predicate.holds : Predicate → Json → Bool
  | .all clauses, doc => Predicate.allHold clauses doc
  | .any clauses, doc => Predicate.anyHolds clauses doc
  | .neither clauses, doc => !Predicate.anyHolds clauses doc
  | .field path conditions, doc => Condition.allHold conditions (Json.reach path doc)

/-- Does a document satisfy each of the predicates? -/
def Predicate.allHold : List Predicate → Json → Bool
  | [], _ => true
  | p :: rest, doc => p.holds doc && Predicate.allHold rest doc

/-- Does a document satisfy one of the predicates? -/
def Predicate.anyHolds : List Predicate → Json → Bool
  | [], _ => false
  | p :: rest, doc => p.holds doc || Predicate.anyHolds rest doc

/-- Do the values found at a path satisfy the condition? -/
def Condition.holds : Condition → List Json → Bool
  | .eq v, found => Json.anyEquals found v
  | .ne v, found => !Json.anyEquals found v
  | .range comparison bound, found => found.any (·.inRange comparison bound)
  | .oneOf values, found => values.any (Json.anyEquals found)
  | .noneOf values, found => !values.any (Json.anyEquals found)
  | .present expected, found => !found.isEmpty == expected
  | .size length, found => found.any fun v =>
    match v with
    | .arr items => items.length == length
    | _ => false
  | .containing values, found =>
    !values.isEmpty && found.any fun v => values.all v.equalsOrContains
  | .elementDocument predicate, found => found.any fun v =>
    match v with
    | .arr items => items.any fun item => item.isObject && predicate.holds item
    | _ => false
  | .elementValue conditions, found => found.any fun v =>
    match v with
    | .arr items => items.any fun item => Condition.allHold conditions [item]
    | _ => false
  | .negated conditions, found => !Condition.allHold conditions found

/-- Do the values found at a path satisfy each of the conditions? -/
def Condition.allHold : List Condition → List Json → Bool
  | [], _ => true
  | c :: rest, found => c.holds found && Condition.allHold rest found

end

/-- Does the filter select the document? -/
def Filter.selects (f : Filter) (doc : Json) : Bool := f.predicate.holds doc

end DocWatch
