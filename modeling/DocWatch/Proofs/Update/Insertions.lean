import DocWatch.Update.Apply
import Mathlib.Data.List.Perm.Basic

/-!
# Slots of an array among insertions

Values that are put into an array move the elements behind them and change nothing else. So a slot
can be followed through any number of insertions: what was in it is found where it has moved to, and
marking it before the insertions comes to the same as marking the place that it moves to after them.
Taking out the mark then takes out the element that was in the slot.

- `Insertion`, `Insertions`: one push to an array, and several in turn.
- `Insertion.moved`, `Insertions.moved`: where an element goes.
- `Insertions.perm_onItems`, `Insertions.sublist_onItems`: nothing is lost, and the order is kept.
- `Insertions.getElem?_moved`, `Insertions.onItems_set`: slots.
- `Insertions.filter_set`: taking out a mark.
-/

namespace DocWatch

/-- Values that are put into an array at a position, or at its end. -/
structure Insertion where
  values : List Json
  position : Option Nat

namespace Insertion

/-- The array after it. -/
def onItems (i : Insertion) (items : List Json) : List Json :=
  Operator.splice items i.values i.position

/-- The slot to which an element moves. -/
def moved (i : Insertion) (slot : Nat) : Nat :=
  match i.position with
  | none => slot
  | some position => if position ≤ slot then slot + i.values.length else slot

/-- Where an array of some length is cut. -/
def cut (i : Insertion) (length : Nat) : Nat := i.position.getD length

theorem onItems_eq (i : Insertion) (items : List Json) :
    i.onItems items =
      items.take (i.cut items.length) ++ i.values ++ items.drop (i.cut items.length) := by
  unfold onItems cut
  cases i.position with
  | none => rw [Operator.splice, Option.getD_none, List.take_length, List.drop_length,
      List.append_nil]
  | some position => rw [Operator.splice, Option.getD_some]

/-- Elements move if they are behind the cut. -/
theorem moved_eq (i : Insertion) {length slot : Nat} (h : slot < length) :
    i.moved slot = if i.cut length ≤ slot then slot + i.values.length else slot := by
  unfold moved cut
  cases i.position with
  | none => rw [Option.getD_none, if_neg (Nat.not_le.mpr h)]
  | some position => rfl

/-- Nothing is lost. -/
theorem perm_onItems (i : Insertion) (items : List Json) :
    (i.onItems items).Perm (items ++ i.values) := by
  rw [onItems_eq]
  calc items.take (i.cut items.length) ++ i.values ++ items.drop (i.cut items.length)
      = items.take (i.cut items.length) ++ (i.values ++ items.drop (i.cut items.length)) :=
        List.append_assoc ..
    List.Perm _ (items.take (i.cut items.length) ++
        (items.drop (i.cut items.length) ++ i.values)) := List.perm_append_comm.append_left _
    _ = items ++ i.values := by rw [← List.append_assoc, List.take_append_drop]

/-- The order is kept. -/
theorem sublist_onItems (i : Insertion) (items : List Json) : items.Sublist (i.onItems items) := by
  rw [onItems_eq]
  calc items
      = items.take (i.cut items.length) ++ items.drop (i.cut items.length) :=
        (List.take_append_drop _ items).symm
    List.Sublist _ (items.take (i.cut items.length) ++ i.values ++
        items.drop (i.cut items.length)) := (List.sublist_append_left _ _).append_right _

theorem moved_lt (i : Insertion) {items : List Json} {slot : Nat} (h : slot < items.length) :
    i.moved slot < (i.onItems items).length := by
  have hlength := (i.perm_onItems items).length_eq
  rw [List.length_append] at hlength
  rw [i.moved_eq h, hlength]
  split <;> omega

/-- What was in a slot is found where it has moved to. -/
theorem getElem?_moved (i : Insertion) {items : List Json} {slot : Nat}
    (h : slot < items.length) : (i.onItems items)[i.moved slot]? = items[slot]? := by
  rw [i.moved_eq h, onItems_eq, List.append_assoc]
  by_cases hcut : i.cut items.length ≤ slot
  · have htake : (items.take (i.cut items.length)).length = i.cut items.length := by
      rw [List.length_take]
      omega
    rw [if_pos hcut, List.getElem?_append_right (by omega), List.getElem?_append_right (by omega),
      List.getElem?_drop, htake]
    congr 1
    omega
  · rw [if_neg hcut, List.getElem?_append_left (by rw [List.length_take]; omega),
      List.getElem?_take_of_lt (by omega)]

/-- Marking a slot comes to the same as marking the one that it moves to. -/
theorem onItems_set (i : Insertion) {items : List Json} {slot : Nat} (h : slot < items.length)
    (v : Json) : i.onItems (items.set slot v) = (i.onItems items).set (i.moved slot) v := by
  rw [i.moved_eq h, onItems_eq, onItems_eq, List.length_set, List.take_set, List.drop_set,
    List.append_assoc, List.append_assoc]
  by_cases hcut : i.cut items.length ≤ slot
  · have htake : (items.take (i.cut items.length)).length = i.cut items.length := by
      rw [List.length_take]
      omega
    rw [if_pos hcut, if_neg (Nat.not_lt.mpr hcut), List.set_eq_of_length_le (by omega),
      List.set_append_right _ _ (by omega), List.set_append_right _ _ (by omega), htake]
    congr 3
    omega
  · rw [if_neg hcut, if_pos (Nat.not_le.mp hcut),
      List.set_append_left _ _ (by rw [List.length_take]; omega)]

end Insertion

/-- Insertions into one array, in turn. -/
abbrev Insertions := List Insertion

namespace Insertions

/-- The array after them. -/
def onItems (is : Insertions) (items : List Json) : List Json :=
  is.foldl (fun items i => i.onItems items) items

/-- The slot to which an element moves. -/
def moved (is : Insertions) (slot : Nat) : Nat := is.foldl (fun slot i => i.moved slot) slot

/-- All that is put in. -/
def values (is : Insertions) : List Json := is.flatMap Insertion.values

theorem onItems_append (is js : Insertions) (items : List Json) :
    onItems (is ++ js) items = onItems js (onItems is items) :=
  List.foldl_append

theorem values_append (is js : Insertions) : values (is ++ js) = values is ++ values js :=
  List.flatMap_append

/-- Nothing is lost. -/
theorem perm_onItems (is : Insertions) (items : List Json) :
    (onItems is items).Perm (items ++ values is) := by
  induction is generalizing items with
  | nil => rw [values, List.flatMap_nil, List.append_nil, onItems, List.foldl_nil]
  | cons i rest ih =>
    have hrest : (onItems (i :: rest) items).Perm (i.onItems items ++ values rest) :=
      ih (i.onItems items)
    rw [values, List.flatMap_cons, ← List.append_assoc]
    exact hrest.trans ((i.perm_onItems items).append_right _)

/-- The order is kept. -/
theorem sublist_onItems (is : Insertions) (items : List Json) :
    items.Sublist (onItems is items) := by
  induction is generalizing items with
  | nil => exact List.Sublist.refl items
  | cons i rest ih => exact (i.sublist_onItems items).trans (ih (i.onItems items))

theorem lt_length_onItems (is : Insertions) {items : List Json} {slot : Nat}
    (h : slot < items.length) : slot < (onItems is items).length :=
  Nat.lt_of_lt_of_le h (is.sublist_onItems items).length_le

theorem moved_lt (is : Insertions) {items : List Json} {slot : Nat} (h : slot < items.length) :
    moved is slot < (onItems is items).length := by
  induction is generalizing items slot with
  | nil => exact h
  | cons i rest ih => exact ih (i.moved_lt h)

/-- What was in a slot is found where it has moved to. -/
theorem getElem?_moved (is : Insertions) {items : List Json} {slot : Nat}
    (h : slot < items.length) : (onItems is items)[moved is slot]? = items[slot]? := by
  induction is generalizing items slot with
  | nil => rfl
  | cons i rest ih => exact (ih (i.moved_lt h)).trans (i.getElem?_moved h)

/-- Marking a slot comes to the same as marking the one that it moves to. -/
theorem onItems_set (is : Insertions) {items : List Json} {slot : Nat} (h : slot < items.length)
    (v : Json) : onItems is (items.set slot v) = (onItems is items).set (moved is slot) v := by
  induction is generalizing items slot with
  | nil => rfl
  | cons i rest ih =>
    show onItems rest (i.onItems (items.set slot v)) = _
    rw [i.onItems_set h v]
    exact ih (i.moved_lt h)

/-- Taking out the one element that a test finds. -/
theorem filter_set {items : List Json} {slot : Nat} (h : slot < items.length) {v : Json}
    {keep : Json → Bool} (hv : keep v = false) (hitems : ∀ w ∈ items, keep w = true) :
    (items.set slot v).filter keep = items.eraseIdx slot := by
  rw [List.set_eq_take_append_cons_drop, if_pos h, List.filter_append,
    List.filter_cons_of_neg (by rw [hv]; decide),
    List.filter_eq_self.mpr fun w hw => hitems w (List.mem_of_mem_take hw),
    List.filter_eq_self.mpr fun w hw => hitems w (List.mem_of_mem_drop hw),
    List.eraseIdx_eq_take_drop_succ]

end Insertions
end DocWatch
