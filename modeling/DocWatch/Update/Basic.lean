import DocWatch.Filter.Compile
import DocWatch.Filter.Match
import DocWatch.Json.Access

/-!
# Updates

An update is a list of operators, applied in order.

- `Selector`: which elements of an array a pull removes.
- `Operator`, `Update`: the operators and their lists.
- `UpdateError`: why a document spells no update, or why an update cannot be applied.
- `Update.touchedFields`: the top-level fields that an update writes to.
-/

namespace DocWatch

/-- Which elements a pull removes. -/
inductive Selector where
  /-- The elements equal to a value. -/
  | equals (value : Json)
  /-- The objects that a filter selects. -/
  | document (filter : Filter)
  /-- The elements that, put under `value` in a document of their own, a filter selects. -/
  | condition (filter : Filter)

/-- The key under which a pull condition sees an element. -/
def Selector.liftKey : String := "value"

/-- Is an element removed? -/
def Selector.selects : Selector → Json → Bool
  | .equals v, element => element.equiv v
  | .document f, element => element.isObject && f.selects element
  | .condition f, element => f.selects (.obj [(liftKey, element)])

/-- One step of an update. -/
inductive Operator where
  /-- Writes a value. -/
  | set (path : FieldPath) (value : Json)
  /-- Removes a field. -/
  | unset (path : FieldPath)
  /-- Puts values into an array at a position, or at its end. A missing array is made. -/
  | push (path : FieldPath) (values : List Json) (position : Option Nat)
  /-- Removes elements from an array. -/
  | pull (path : FieldPath) (selector : Selector)

/-- The path that an operator writes to. -/
def Operator.path : Operator → FieldPath
  | .set path _ | .unset path | .push path _ _ | .pull path _ => path

/-- Operators in the order in which they are applied. -/
abbrev Update := List Operator

/-- What is wrong with the operand of an update operator. -/
inductive UpdateFault where
  | notPaths
  | badPath (error : FieldPath.ParseError)
  | eachNotArray
  | positionNotCount
deriving DecidableEq, Repr

/-- The wording of an update fault. -/
def UpdateFault.message : UpdateFault → String
  | .notPaths => "expected an object of paths"
  | .badPath e => e.message
  | .eachNotArray => "$each must be an array"
  | .positionNotCount => "$position must be a non-negative integer"

/-- Why a document spells no update, or why an update cannot be applied. -/
inductive UpdateError where
  | notAnObject (found : String)
  | notAnOperator (key : String)
  | unknownOperator (operator : String)
  | invalidOperand (operator : String) (fault : UpdateFault)
  | notAnArray (operator : String) (path : FieldPath) (found : String)
  | access (error : Json.AccessError)
  | condition (error : CompileError)
deriving DecidableEq, Repr

/-- The message of an update error. -/
def UpdateError.message : UpdateError → String
  | .notAnObject found => s!"update must be an object of operators, found {found}"
  | .notAnOperator key => s!"update key '{key}' is not an operator"
  | .unknownOperator operator => s!"unknown update operator {operator}"
  | .invalidOperand operator fault => s!"invalid operand for {operator}: " ++ fault.message
  | .notAnArray operator path found =>
    s!"cannot apply {operator} to non-array value at '" ++ path.text ++ s!"' ({found})"
  | .access e => "path error: " ++ e.message
  | .condition e => "pull condition: " ++ e.message

namespace Update

/-- Is a top-level field one whose writers are recorded? -/
def isTracked (field : String) : Bool := field != "_id" && field != "_meta"

/-- Adds a field to a list unless it is there. -/
def addField (fields : List String) (field : String) : List String :=
  if field ∈ fields then fields else fields ++ [field]

/-- The recorded top-level fields that the operators write to, by first occurrence. -/
def touchedFields (update : Update) : List String :=
  update.foldl (fun fields op =>
    match op.path with
    | field :: _ => if isTracked field then addField fields field else fields
    | [] => fields) []

end Update
end DocWatch
