import DocWatch.Update.Basic

/-!
# Applying updates

- `Operator.apply`, `Update.apply`: what becomes of a document. After a failure the effects of the
  earlier steps, and the containers made by the failing one, stay in the result.
- `Update.run`: the updated document, or why there is none.
-/

namespace DocWatch

/-- Puts values into a list at a position, at most at its end; without a position at the end. -/
def Operator.splice (items values : List Json) : Option Nat → List Json
  | none => items ++ values
  | some position => items.take position ++ values ++ items.drop position

/-- Changes the array that a path reaches. -/
def Operator.onArray (operator : String) (doc : Json) (path : FieldPath)
    (change : List Json → List Json) : Json × Option UpdateError :=
  match doc.get? path with
  | none => (doc, none)
  | some (.arr items) => (doc.modify path fun _ => .arr (change items), none)
  | some v => (doc, some (.notAnArray operator path v.typeName))

/-- The effect of one operator. -/
def Operator.apply (op : Operator) (doc : Json) : Json × Option UpdateError :=
  match op with
  | .set path value =>
    let (doc, error) := doc.set path value
    (doc, error.map .access)
  | .unset path => ((doc.unset path).1, none)
  | .push path values position =>
    match (if (doc.get? path).isSome then (doc, none) else doc.set path (.arr [])) with
    | (doc, some e) => (doc, some (.access e))
    | (doc, none) => onArray "$push" doc path (splice · values position)
  | .pull path selector =>
    onArray "$pull" doc path (·.filter fun element => !selector.selects element)

namespace Update

/-- The effect of all operators up to the first that fails. -/
def apply : Update → Json → Json × Option UpdateError
  | [], doc => (doc, none)
  | op :: rest, doc =>
    match op.apply doc with
    | (doc, none) => apply rest doc
    | (doc, some e) => (doc, some e)

/-- The updated document, or why there is none. -/
def run (update : Update) (doc : Json) : Except UpdateError Json :=
  match update.apply doc with
  | (doc, none) => .ok doc
  | (_, some e) => .error e

end Update
end DocWatch
