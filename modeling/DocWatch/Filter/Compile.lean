import DocWatch.Filter.Basic

/-!
# From filter documents to filters

Keys are taken in order and the first fault wins.

- `CompileError`: why a document is no filter, with the message of each fault.
- `Filter.compile`: the filter that a document spells. Null is the filter that selects everything.
-/

namespace DocWatch

/-- What is wrong with the operand of an operator. -/
inductive OperandFault where
  | notFilterArray | emptyArray | mixedKeys | notBoolean | notCount | notObject | notOperators
  | notArray
deriving DecidableEq, Repr

/-- The wording of an operand fault. -/
def OperandFault.message : OperandFault → String
  | .notFilterArray => "expected an array of filters"
  | .emptyArray => "array must not be empty"
  | .mixedKeys => "cannot mix field names with operators"
  | .notBoolean => "expected a boolean"
  | .notCount => "expected a non-negative integer"
  | .notObject => "expected an object"
  | .notOperators => "expected an operator expression"
  | .notArray => "expected an array"

/-- Why a document is no filter. -/
inductive CompileError where
  | notAnObject (found : String)
  | unknownOperator (operator : String)
  | invalidOperand (operator : String) (fault : OperandFault)
  | invalidPath (field : String)
deriving DecidableEq, Repr

/-- The message of a compile error. -/
def CompileError.message : CompileError → String
  | .notAnObject found => s!"filter must be an object, found {found}"
  | .unknownOperator operator => s!"unknown operator {operator}"
  | .invalidOperand operator fault => s!"invalid operand for {operator}: " ++ fault.message
  | .invalidPath field => s!"invalid field path '{field}'"

namespace Filter

/-- Does a key name an operator? -/
def isOperator (key : String) : Bool := key.toList.head? == some '$'

/-- Is this the object of an operator expression rather than a literal? -/
def hasOperator (fields : Members Json) : Bool := fields.any fun (k, _) => isOperator k

/-- Are all keys operators on values? The logical ones are operators on documents. -/
def onlyValueOperators (fields : Members Json) : Bool :=
  !fields.isEmpty &&
    fields.all fun (k, _) => isOperator k && k != "$and" && k != "$or" && k != "$nor"

/-- One clause stands for itself, several for their conjunction. -/
def conjunction : List Predicate → Predicate
  | [p] => p
  | ps => .all ps

/-- The elements of an operand that has to be an array. -/
def arrayOperand (operator : String) : Json → Except CompileError (List Json)
  | .arr items => .ok items
  | _ => .error (.invalidOperand operator .notArray)

/-- Is presence asked for? -/
def presenceOperand (operator : String) : Json → Except CompileError Bool
  | .bool b => .ok b
  | .num n => .ok (n.order != 0)
  | .null => .ok false
  | _ => .error (.invalidOperand operator .notBoolean)

/-- The length asked for. -/
def sizeOperand (operator : String) : Json → Except CompileError Nat
  | .num n =>
    match n.toNat? with
    | some k => .ok k
    | none => .error (.invalidOperand operator .notCount)
  | _ => .error (.invalidOperand operator .notCount)

mutual

/-- The clauses of a filter document, one for each key. -/
def compileClauses : Members Json → Except CompileError (List Predicate)
  | [] => .ok []
  | (key, v) :: rest => do
    let clause ←
      if key = "$and" then Predicate.all <$> compileFilters key v
      else if key = "$or" then Predicate.any <$> compileFilters key v
      else if key = "$nor" then Predicate.neither <$> compileFilters key v
      else if isOperator key then throw (.unknownOperator key)
      else match FieldPath.parse key with
        | .error _ => throw (.invalidPath key)
        | .ok path => Predicate.field path <$> compileFieldValue v
    let clauses ← compileClauses rest
    return clause :: clauses

/-- The operand of a logical operator: an array with at least one filter. -/
def compileFilters (operator : String) : Json → Except CompileError (List Predicate)
  | .arr [] => .error (.invalidOperand operator .emptyArray)
  | .arr items => compileFilterItems items
  | _ => .error (.invalidOperand operator .notFilterArray)

/-- Filters in an array. -/
def compileFilterItems : List Json → Except CompileError (List Predicate)
  | [] => .ok []
  | v :: rest => do
    let p ← match v with
      | .obj fields => conjunction <$> compileClauses fields
      | other => throw (.notAnObject other.typeName)
    let ps ← compileFilterItems rest
    return p :: ps

/-- What is asked of a field: operators, or equality with a literal. -/
def compileFieldValue : Json → Except CompileError (List Condition)
  | .obj fields =>
    if hasOperator fields then compileOperators fields else .ok [.eq (.obj fields)]
  | v => .ok [.eq v]

/-- The conditions of an operator expression, one for each key. -/
def compileOperators : Members Json → Except CompileError (List Condition)
  | [] => .ok []
  | (key, v) :: rest => do
    let condition ←
      if isOperator key then compileOperator key v else throw (.invalidOperand key .mixedKeys)
    let conditions ← compileOperators rest
    return condition :: conditions

/-- The condition of one operator. -/
def compileOperator (operator : String) (operand : Json) : Except CompileError Condition :=
  match operator with
  | "$eq" => .ok (.eq operand)
  | "$ne" => .ok (.ne operand)
  | "$gt" => .ok (.range .gt operand)
  | "$gte" => .ok (.range .gte operand)
  | "$lt" => .ok (.range .lt operand)
  | "$lte" => .ok (.range .lte operand)
  | "$in" => Condition.oneOf <$> arrayOperand operator operand
  | "$nin" => Condition.noneOf <$> arrayOperand operator operand
  | "$all" => Condition.containing <$> arrayOperand operator operand
  | "$exists" => Condition.present <$> presenceOperand operator operand
  | "$size" => Condition.size <$> sizeOperand operator operand
  | "$elemMatch" =>
    match operand with
    | .obj fields =>
      if onlyValueOperators fields then Condition.elementValue <$> compileOperators fields
      else (fun ps => Condition.elementDocument (conjunction ps)) <$> compileClauses fields
    | _ => .error (.invalidOperand operator .notObject)
  | "$not" =>
    match operand with
    | .obj fields =>
      if hasOperator fields then Condition.negated <$> compileOperators fields
      else .error (.invalidOperand operator .notOperators)
    | _ => .error (.invalidOperand operator .notOperators)
  | _ => .error (.unknownOperator operator)

end

/-- The filter that a document spells. -/
def compile (source : Json) : Except CompileError Filter :=
  match source with
  | .null => .ok ⟨.all [], .null⟩
  | .obj fields => do
    let clauses ← compileClauses fields
    return ⟨conjunction clauses, .obj fields⟩
  | other => .error (.notAnObject other.typeName)

end Filter
end DocWatch
