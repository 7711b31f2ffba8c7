import DocWatch.Json.Basic

/-!
# Equality and order of values in queries

- `Json.equiv`: deep equality in which numbers are compared by value and key order is irrelevant.
- `Json.compare?`: the order of two numbers, two strings or two booleans; nothing else is ordered.
-/

namespace DocWatch.Json

mutual

/-- Are two values the same to a query? `1` and `1.0` are. -/
def equiv : Json → Json → Bool
  | .null, .null => true
  | .bool a, .bool b => a == b
  | .num a, .num b => a.order == b.order
  | .str a, .str b => a == b
  | .arr xs, .arr ys => equivItems xs ys
  | .obj xs, .obj ys => xs.length == ys.length && equivFields xs ys
  | _, _ => false

/-- Same length, and the same to a query in each place. -/
def equivItems : List Json → List Json → Bool
  | [], [] => true
  | x :: xs, y :: ys => x.equiv y && equivItems xs ys
  | _, _ => false

/-- Does the second object have each member of the first? -/
def equivFields : Members Json → Members Json → Bool
  | [], _ => true
  | (k, v) :: rest, ys =>
    (match Members.get? ys k with
      | some w => v.equiv w
      | none => false) && equivFields rest ys

end

/-- The order of two values of one ordered kind. Strings are ordered by code points. -/
def compare? : Json → Json → Option Ordering
  | .num a, .num b => some (compare a.order b.order)
  | .str a, .str b => some (compare a b)
  | .bool a, .bool b => some (compare a b)
  | _, _ => none

end DocWatch.Json
