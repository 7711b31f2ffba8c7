/-!
# Ordered members

Bindings of text keys in the order in which the keys were first written: the members of an object,
the collections of a store.

- `Members.get?`, `Members.insert`: look-up, and writing in place or at the end.
- `Members.erase`: removal, which moves the last binding into the place that becomes free.
- `Members.remove`: removal that keeps the order of the others.
-/

namespace DocWatch

/-- Bindings of text keys, in order. -/
abbrev Members (α : Type) := List (String × α)

namespace Members

variable {α : Type}

/-- The value under a key. -/
def get? : Members α → String → Option α
  | [], _ => none
  | (k, v) :: rest, key => if k = key then some v else get? rest key

/-- Writes a binding: in its place if the key is there, at the end otherwise. -/
def insert : Members α → String → α → Members α
  | [], key, value => [(key, value)]
  | (k, v) :: rest, key, value =>
    if k = key then (k, value) :: rest else (k, v) :: insert rest key value

/-- Removes a binding. The last binding takes its place. -/
def erase : Members α → String → Members α
  | [], _ => []
  | (k, v) :: rest, key =>
    if k = key then
      match rest.getLast? with
      | none => []
      | some last => last :: rest.dropLast
    else (k, v) :: erase rest key

/-- Removes a binding. The others keep their order. -/
def remove (ms : Members α) (key : String) : Members α := ms.filter fun (k, _) => k ≠ key

/-- Is there a binding of this key? -/
def contains (ms : Members α) (key : String) : Bool := (ms.get? key).isSome

/-- The keys in order. -/
def keys (ms : Members α) : List String := ms.map Prod.fst

end Members
end DocWatch
