import DocWatch.Update.Basic

/-!
# From update documents to updates

- `Selector.parse`: the operand of a pull.
- `Update.parse`: the update that a document spells, one operator for each path under each operator
  key, in order. The first fault wins.
-/

namespace DocWatch

/-- The selector that the operand of a pull spells: an object with an operator is a condition on
the elements, another object is a filter, and any other value stands for itself. -/
def Selector.parse : Json → Except UpdateError Selector
  | .obj fields =>
    if Filter.hasOperator fields then
      match Filter.compile (.obj [(liftKey, .obj fields)]) with
      | .ok f => .ok (.condition f)
      | .error e => .error (.condition e)
    else
      match Filter.compile (.obj fields) with
      | .ok f => .ok (.document f)
      | .error e => .error (.condition e)
  | v => .ok (.equals v)

namespace Update

/-- The position of a push: absent or null for the end. -/
def parsePosition : Option Json → Except UpdateError (Option Nat)
  | none | some .null => .ok none
  | some (.num n) =>
    match n.toNat? with
    | some k => .ok (some k)
    | none => .error (.invalidOperand "$push" .positionNotCount)
  | some _ => .error (.invalidOperand "$push" .positionNotCount)

/-- A push: of the values under `$each`, or of one value. -/
def parsePush (path : FieldPath) (operand : Json) : Except UpdateError Operator :=
  match operand.field? "$each" with
  | none => .ok (.push path [operand] none)
  | some (.arr values) => do
    return .push path values (← parsePosition (operand.field? "$position"))
  | some _ => .error (.invalidOperand "$push" .eachNotArray)

/-- The operator that one path under an operator key spells. -/
def parseOperator (operator key : String) (operand : Json) : Except UpdateError Operator :=
  match FieldPath.parse key with
  | .error e => .error (.invalidOperand operator (.badPath e))
  | .ok path =>
    match operator with
    | "$set" => .ok (.set path operand)
    | "$unset" => .ok (.unset path)
    | "$push" => parsePush path operand
    | "$pull" => .pull path <$> Selector.parse operand
    | _ => .error (.unknownOperator operator)

/-- The operators that an operator key spells. -/
def parseOperators (operator : String) : Members Json → Except UpdateError Update
  | [] => .ok []
  | (key, operand) :: rest => do
    let op ← parseOperator operator key operand
    let ops ← parseOperators operator rest
    return op :: ops

/-- The operators that all operator keys spell. -/
def parseFields : Members Json → Except UpdateError Update
  | [] => .ok []
  | (operator, v) :: rest => do
    let ops ←
      if Filter.isOperator operator then
        match v with
        | .obj paths => parseOperators operator paths
        | _ => throw (.invalidOperand operator .notPaths)
      else throw (.notAnOperator operator)
    let more ← parseFields rest
    return ops ++ more

/-- The update that a document spells. -/
def parse : Json → Except UpdateError Update
  | .obj fields => parseFields fields
  | v => .error (.notAnObject v.typeName)

end Update
end DocWatch
