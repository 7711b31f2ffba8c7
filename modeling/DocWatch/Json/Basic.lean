import DocWatch.Double
import DocWatch.Members

/-!
# JSON values

- `Number`: an integer of at most 64 bits or a double. `1` and `1.0` are different numbers.
- `Json`: a value. `Json.typeName` is the word that error messages use for its kind.
- `Json.KeysDistinct`: no object, at any depth, has a key twice.
-/

namespace DocWatch

-- Powers are those of the core library whatever else is imported, so exponents have their type.
attribute [local instance (high)] instPowNat

/-- A number: an integer that fits 64 bits, unsigned if it is not negative, or a double. -/
inductive Number where
  | int (i : Int) (fits : -2 ^ (63 : Nat) ≤ i ∧ i < 2 ^ (64 : Nat))
  | double (x : Double)
deriving DecidableEq

namespace Number

/-- A machine word as a number. -/
def ofWord (n : UInt64) : Number :=
  .int n.toNat ⟨by omega, by have := n.toNat_lt; omega⟩

/-- A natural number; those of more than 64 bits become doubles. -/
def ofNat (n : Nat) : Number :=
  if h : n < 2 ^ (64 : Nat) then .int n ⟨by omega, by omega⟩ else .double (Double.ofInt n)

/-- The double that stands for a number in comparisons. -/
def toDouble : Number → Double
  | .int i _ => Double.ofInt i
  | .double x => x

/-- The integer by which numbers are compared: that of their doubles. -/
def order (n : Number) : Int := n.toDouble.order

/-- The value of a number written as an unsigned integer. -/
def toNat? : Number → Option Nat
  | .int i _ => if 0 ≤ i then some i.toNat else none
  | .double _ => none

end Number

/-- A JSON value. -/
inductive Json where
  | null
  | bool (b : Bool)
  | num (n : Number)
  | str (s : String)
  | arr (items : List Json)
  | obj (fields : List (String × Json))
deriving Inhabited

namespace Json

mutual

/-- Equality of values, key order and number spelling included, is decidable. -/
def decEq (v w : Json) : Decidable (v = w) := by
  cases v <;> cases w
  case null.null => exact isTrue rfl
  case bool.bool a b => exact decidable_of_iff (a = b) (by simp)
  case num.num a b => exact decidable_of_iff (a = b) (by simp)
  case str.str a b => exact decidable_of_iff (a = b) (by simp)
  case arr.arr a b => exact @decidable_of_iff _ (a = b) (by simp) (decEqItems a b)
  case obj.obj a b => exact @decidable_of_iff _ (a = b) (by simp) (decEqFields a b)
  all_goals exact isFalse (by simp)

/-- Equality of arrays is decidable. -/
def decEqItems (xs ys : List Json) : Decidable (xs = ys) :=
  match xs, ys with
  | [], [] => isTrue rfl
  | [], _ :: _ => isFalse (by simp)
  | _ :: _, [] => isFalse (by simp)
  | x :: xs, y :: ys =>
    match decEq x y, decEqItems xs ys with
    | isTrue h, isTrue h' => isTrue (by simp [h, h'])
    | isFalse h, _ => isFalse (by simp [h])
    | _, isFalse h => isFalse (by simp [h])

/-- Equality of objects is decidable. -/
def decEqFields (xs ys : Members Json) : Decidable (xs = ys) :=
  match xs, ys with
  | [], [] => isTrue rfl
  | [], _ :: _ => isFalse (by simp)
  | _ :: _, [] => isFalse (by simp)
  | (k, x) :: xs, (l, y) :: ys =>
    match decEq x y, decEqFields xs ys with
    | isTrue h, isTrue h' => decidable_of_iff (k = l) (by simp [h, h'])
    | isFalse h, _ => isFalse (by simp [h])
    | _, isFalse h => isFalse (by simp [h])

end

instance : DecidableEq Json := decEq

/-- The word for the kind of a value in error messages. -/
def typeName : Json → String
  | .null => "null"
  | .bool _ => "boolean"
  | .num _ => "number"
  | .str _ => "string"
  | .arr _ => "array"
  | .obj _ => "object"

/-- Is this an object? -/
def isObject : Json → Bool
  | .obj _ => true
  | _ => false

/-- Is this null? -/
def isNull : Json → Bool
  | .null => true
  | _ => false

/-- The value under a key, if this is an object that has it. -/
def field? (v : Json) (key : String) : Option Json :=
  match v with
  | .obj fields => Members.get? fields key
  | _ => none

/-- The elements, if this is an array. -/
def items? : Json → Option (List Json)
  | .arr items => some items
  | _ => none

/-- The string, if this is one. -/
def string? : Json → Option String
  | .str s => some s
  | _ => none

/-- A natural number as a value. -/
def nat (n : Nat) : Json := .num (.ofNat n)

mutual

/-- No object, at any depth, has a key twice. Every value that is read or built by the operations
on objects is like this. -/
def KeysDistinct : Json → Prop
  | .arr items => KeysDistinctItems items
  | .obj fields => (Members.keys fields).Nodup ∧ KeysDistinctFields fields
  | _ => True

/-- `KeysDistinct` for the elements of an array. -/
def KeysDistinctItems : List Json → Prop
  | [] => True
  | v :: rest => v.KeysDistinct ∧ KeysDistinctItems rest

/-- `KeysDistinct` for the values of an object. -/
def KeysDistinctFields : Members Json → Prop
  | [] => True
  | (_, v) :: rest => v.KeysDistinct ∧ KeysDistinctFields rest

end

end Json
end DocWatch
