import DocWatch.FieldPath
import DocWatch.Proofs.Double.Text

/-!
# The segments of a dotted path

- `FieldPath.dotted`: the segments between the dots of a text. The empty text has none.
- `FieldPath.parse_ok_iff`: a text is a path exactly if no segment of it is empty, and then it is
  the path of its segments.
- `FieldPath.index?_natChars`: the text of a position names its slot.
-/

namespace DocWatch.FieldPath

/-- What stands between the dots of a text. The empty text is the root, which has no segment. -/
def dotted (text : String) : FieldPath :=
  if text = "" then [] else (text.toList.splitOn '.').map String.ofList

theorem splitDots_ne_nil (cs : List Char) : splitDots cs ≠ [] := by
  cases cs with
  | nil => exact List.cons_ne_nil _ _
  | cons c rest =>
    rw [splitDots]
    split
    · exact List.cons_ne_nil _ _
    · split <;> exact List.cons_ne_nil _ _

theorem splitDots_eq_splitOn (cs : List Char) : splitDots cs = cs.splitOn '.' := by
  induction cs with
  | nil => rfl
  | cons c rest ih =>
    rw [splitDots, List.splitOn, List.splitOnP_cons_eq_if_modifyHead, ← List.splitOn, ← ih]
    by_cases hc : c = '.'
    · rw [if_pos hc, if_pos (beq_iff_eq.mpr hc)]
    · rw [if_neg hc, if_neg (fun h => hc (beq_iff_eq.mp h))]
      cases hparts : splitDots rest with
      | nil => exact absurd hparts (splitDots_ne_nil rest)
      | cons part parts => rfl

/-- Parts spell a path if none of them is empty. Where the first of them starts decides only which
position an error tells. -/
theorem ofParts_ok_iff (position : Nat) (parts : List (List Char)) (path : FieldPath) :
    ofParts position parts = .ok path ↔ [] ∉ parts ∧ path = parts.map String.ofList := by
  induction parts generalizing position path with
  | nil =>
    rw [ofParts, Except.ok.injEq]
    exact ⟨fun h => ⟨List.not_mem_nil, h.symm⟩, fun h => h.2.symm⟩
  | cons part rest ih =>
    rw [ofParts]
    by_cases hpart : part = []
    · rw [if_pos hpart]
      refine iff_of_false (by simp) fun h => h.1 ?_
      rw [hpart]
      exact List.mem_cons_self
    · rw [if_neg hpart]
      have hmem : [] ∉ part :: rest ↔ [] ∉ rest := by
        rw [List.mem_cons, not_or]
        exact ⟨fun h => h.2, fun h => ⟨fun he => hpart he.symm, h⟩⟩
      rw [hmem]
      cases hrest : ofParts (position + byteCount part + 1) rest with
      | error e =>
        refine iff_of_false (by simp [Except.map]) fun h => ?_
        rw [(ih _ _).mpr ⟨h.1, rfl⟩] at hrest
        cases hrest
      | ok segments =>
        obtain ⟨hne, hsegments⟩ := (ih _ _).mp hrest
        rw [Except.map, Except.ok.injEq, List.map_cons, ← hsegments]
        exact ⟨fun h => ⟨hne, h.symm⟩, fun h => h.2.symm⟩

/-- **Texts that are paths**: exactly those without an empty segment, each the path of its
segments. -/
theorem parse_ok_iff (text : String) (path : FieldPath) :
    parse text = .ok path ↔ "" ∉ dotted text ∧ path = dotted text := by
  unfold parse dotted
  by_cases htext : text = ""
  · rw [if_pos htext, if_pos htext, Except.ok.injEq]
    exact ⟨fun h => ⟨List.not_mem_nil, h.symm⟩, fun h => h.2.symm⟩
  · rw [if_neg htext, if_neg htext, ofParts_ok_iff, splitDots_eq_splitOn]
    have hempty : "" ∈ (text.toList.splitOn '.').map String.ofList ↔
        [] ∈ text.toList.splitOn '.' := by
      rw [List.mem_map]
      constructor
      · rintro ⟨part, hmem, hpart⟩
        have hnil : part = [] := by
          have := congrArg String.toList hpart
          simpa using this
        rwa [← hnil]
      · exact fun h => ⟨[], h, rfl⟩
    rw [hempty]

/-! ## Slots -/

/-- Slots have at most 64 bits. -/
theorem lt_of_index? {segment : String} {i : Nat} (h : index? segment = some i) : i < 2 ^ 64 := by
  simp only [index?, Option.ite_none_right_eq_some, Option.some.injEq] at h
  obtain ⟨⟨-, -, hlt⟩, rfl⟩ := h
  exact hlt

/-- The text of a position names its slot, if that has at most 64 bits. -/
theorem index?_natChars_eq_ite (position : Nat) :
    index? (String.ofList (Decimal.natChars position)) =
      if position < 2 ^ 64 then some position else none := by
  have hdigits : (Decimal.natChars position).all Char.isDigit = true :=
    List.all_eq_true.mpr fun _ hc => Decimal.isDigit_of_mem_natChars hc
  simp only [index?, String.toList_ofList, Decimal.value_natChars, ne_eq,
    Decimal.natChars_ne_nil, not_false_eq_true, hdigits, true_and]

/-- A position of at most 64 bits names its slot. -/
theorem index?_natChars {position : Nat} (h : position < 2 ^ 64) :
    index? (String.ofList (Decimal.natChars position)) = some position := by
  rw [index?_natChars_eq_ite, if_pos h]

/-- Where a text names a slot, it still does if a plus sign is allowed in front. -/
theorem signedIndex?_of_index? {segment : String} {i : Nat} (h : index? segment = some i) :
    signedIndex? segment = some i := by
  unfold signedIndex?
  cases hchars : segment.toList with
  | nil => exact h
  | cons c rest =>
    by_cases hc : c = '+'
    · -- a plus sign is no digit
      unfold index? at h
      rw [hchars, hc] at h
      simp at h
    · simp [hc, h]

end DocWatch.FieldPath
