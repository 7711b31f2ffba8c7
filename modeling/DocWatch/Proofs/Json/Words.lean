import DocWatch.Proofs.FieldPath
import DocWatch.Proofs.Json.Access

/-!
# Writing in machine words

Lengths and slots are numbers of 64 bits, and a path may name any of these as a slot. Here writing
is done once more with such words, and stops without a result where a difference is negative or a
sum does not fit. It always has the result that writing has, because a slot is only counted up from
after it was found to be near the end of the array, and because arrays are shorter than memory.

- `Word.sub?`, `Word.add?`: differences and sums, where they are words.
- `Json.padWords`, `Json.setWords`: growing an array, and writing, with words.
- `Json.FitsMemory`: no array in which the path names a slot has `2 ^ 63` elements or more.
- `Json.setWords_eq`: the results are those of `Json.set`.
-/

namespace DocWatch

namespace Word

/-- The difference of two words, if it is not negative. -/
def sub? (a b : UInt64) : Option UInt64 := if b ≤ a then some (a - b) else none

/-- The sum of two words, if it fits. -/
def add? (a b : UInt64) : Option UInt64 :=
  if a.toNat + b.toNat < 2 ^ 64 then some (a + b) else none

theorem sub?_ofNat {m n : Nat} (hm : m < 2 ^ 64) (h : n ≤ m) :
    sub? (.ofNat m) (.ofNat n) = some (.ofNat (m - n)) := by
  have hn : n < 2 ^ 64 := by omega
  rw [sub?, if_pos ((UInt64.ofNat_le_iff_le hn hm).mpr h), UInt64.ofNat_sub h]

theorem add?_ofNat {m n : Nat} (h : m + n < 2 ^ 64) :
    add? (.ofNat m) (.ofNat n) = some (.ofNat (m + n)) := by
  have hm : m < 2 ^ 64 := by omega
  have hn : n < 2 ^ 64 := by omega
  rw [add?, UInt64.toNat_ofNat_of_lt' hm, UInt64.toNat_ofNat_of_lt' hn, if_pos h, UInt64.ofNat_add]

end Word

namespace Json

/-! ## Growing and writing -/

/-- `pad` with words. Nothing, where a difference or a sum is no word. -/
def padWords (items : List Json) (index : UInt64) (segment : String) :
    Option (Except AccessError (List Json)) :=
  let length := UInt64.ofNat items.length
  if index < length then some (.ok items)
  else (Word.sub? index length).bind fun beyond =>
    if beyond < .ofNat maxPadding then
      (Word.add? index 1).bind fun size =>
        (Word.sub? size length).map fun missing =>
          .ok (items ++ List.replicate missing.toNat .null)
    else some (.error (.outOfRange segment index.toNat items.length))

/-- `set` with words. Nothing, where a difference or a sum is no word. -/
def setWords (v : Json) (path : FieldPath) (value : Json) : Option (Json × Option AccessError) :=
  match path with
  | [] => some (value, none)
  | segment :: rest =>
    match v with
    | .obj fields =>
      (((Members.get? fields segment).getD (.obj [])).setWords rest value).map
        fun (inner, error) => (.obj (Members.insert fields segment inner), error)
    | .arr items =>
      match FieldPath.index? segment with
      | none => some (v, some (.typeMismatch segment v.typeName))
      | some i =>
        (padWords items (.ofNat i) segment).bind fun
          | .error e => some (v, some e)
          | .ok items =>
            ((openSlot ((items[i]?).getD .null)).setWords rest value).map
              fun (inner, error) => (.arr (items.set i inner), error)
    | _ => some (v, some (.typeMismatch segment v.typeName))
termination_by structural path

/-! ## Arrays that fit into memory -/

/-- Every array in which a path names a slot is one that a memory of `2 ^ 63` bytes can hold. -/
def FitsMemory (v : Json) (path : FieldPath) : Prop :=
  ∀ parent segment below items, path = parent ++ segment :: below →
    v.get? parent = some (.arr items) → items.length < 2 ^ 63

/-- Growing an array with words. -/
theorem padWords_eq {items : List Json} (hmemory : items.length < 2 ^ 63) {i : Nat}
    (hi : i < 2 ^ 64) (segment : String) :
    padWords items (.ofNat i) segment = some (pad items i segment) := by
  have hlength : items.length < 2 ^ 64 := by omega
  have hlt : UInt64.ofNat i < .ofNat items.length ↔ i < items.length :=
    UInt64.ofNat_lt_iff_lt hi hlength
  rw [padWords, pad]
  by_cases hthere : i < items.length
  · rw [if_pos (hlt.mpr hthere), if_pos hthere]
  · have hbeyond : i - items.length < 2 ^ 64 := by omega
    have hnear : UInt64.ofNat (i - items.length) < .ofNat maxPadding ↔
        i - items.length < maxPadding := UInt64.ofNat_lt_iff_lt hbeyond (by decide)
    rw [if_neg (mt hlt.mp hthere), if_neg hthere, Word.sub?_ofNat hi (Nat.not_lt.mp hthere),
      Option.bind_some]
    by_cases hfar : i - items.length < maxPadding
    · -- the slot is near the end of an array that fits into memory, so there is a word behind it
      have hnext : i + 1 < 2 ^ 64 := by
        have hpadding : maxPadding = 1024 := rfl
        omega
      have hsize : Word.add? (.ofNat i) 1 = some (.ofNat (i + 1)) := Word.add?_ofNat hnext
      have hmissing : i + 1 - items.length < 2 ^ 64 := by omega
      rw [if_pos (hnear.mpr hfar), if_pos hfar, hsize, Option.bind_some,
        Word.sub?_ofNat hnext (by omega), Option.map_some, UInt64.toNat_ofNat_of_lt' hmissing]
    · rw [if_neg (mt hnear.mp hfar), if_neg hfar, UInt64.toNat_ofNat_of_lt' hi]

namespace FitsMemory

variable {v w : Json} {segment : String} {rest : FieldPath}

theorem child (h : v.FitsMemory (segment :: rest)) (hchild : v.child? segment = some w) :
    w.FitsMemory rest := by
  intro parent next below items hpath hget
  refine h (segment :: parent) next below items (by rw [hpath, List.cons_append]) ?_
  rw [get?, hchild, Option.bind_some, hget]

/-- There is no array in an object without members. -/
theorem empty (path : FieldPath) : (Json.obj []).FitsMemory path := by
  rintro (_ | ⟨first, parent⟩) next below items - hget
  · cases hget
  · cases hget

/-- What a write goes on in, below an object. -/
theorem member {fields : Members Json} (h : (Json.obj fields).FitsMemory (segment :: rest)) :
    ((Members.get? fields segment).getD (.obj [])).FitsMemory rest := by
  cases hget : Members.get? fields segment with
  | none => exact empty rest
  | some inner => exact h.child hget

/-- What a write goes on in, below an array that may have been grown. -/
theorem slot {items items' : List Json} (h : (Json.arr items).FitsMemory (segment :: rest))
    {i : Nat} (hindex : FieldPath.index? segment = some i)
    (hpad : pad items i segment = .ok items') :
    (openSlot ((items'[i]?).getD .null)).FitsMemory rest := by
  rw [getD_of_pad hpad]
  cases hitem : items[i]? with
  | none => exact empty rest
  | some inner =>
    rw [Option.getD_some]
    by_cases hnull : inner = .null
    · rw [hnull]
      exact empty rest
    · rw [openSlot_of_ne_null hnull]
      refine h.child ?_
      rw [child?, hindex, Option.bind_some, hitem]

end FitsMemory

/-- **Writing needs no more than words.** Where the arrays fit into memory, no count of slots leaves
the 64 bits, whatever slots the path names, and the result is that of `set`. -/
theorem setWords_eq {v : Json} {path : FieldPath} (h : v.FitsMemory path) (value : Json) :
    v.setWords path value = some (v.set path value) := by
  induction path generalizing v with
  | nil => rfl
  | cons segment rest ih =>
    cases v with
    | obj fields =>
      rw [setWords, ih h.member, set_obj]
      rfl
    | arr items =>
      cases hindex : FieldPath.index? segment with
      | none => simp only [setWords, set, hindex]
      | some i =>
        have hlength : items.length < 2 ^ 63 := h [] segment rest items rfl rfl
        rw [setWords]
        simp only [hindex, padWords_eq hlength (FieldPath.lt_of_index? hindex), Option.bind_some]
        cases hpad : pad items i segment with
        | error e => simp only [set, hindex, hpad]
        | ok items' =>
          rw [set_arr hindex hpad]
          simp only [ih (h.slot hindex hpad), Option.map_some]
    | _ => rfl

end Json
end DocWatch
