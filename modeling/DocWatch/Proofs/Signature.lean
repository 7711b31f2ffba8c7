import DocWatch.Database
import DocWatch.Proofs.Json.Text

/-!
# Signatures tell reads apart

A signature is a collection, a method and the text of a filter with dots between them, and all
three parts may contain dots. They can be told apart all the same. If the collection of one read
were longer than that of the other, the text of one filter would contain a method between dots with
the text of the other filter behind it. That place would be inside of a string, so that a reader
who comes from the first filter is on the other side of each quote in the second one, to its end
(`not_behind_method`).

- `Query.signatureOf_inj`: reads of one signature have one collection, one method and one text.
-/

namespace DocWatch

/-- No text of a value contains a method between dots with the text of another value behind it. -/
theorem not_behind_method (m : ReadMethod) {t t' x : List Char} (ht : Json.Closed t)
    (ht' : Json.Closed t') : t ≠ x ++ '.' :: (m.name.toList ++ '.' :: t') := by
  intro h
  have hsuits := ht.suits
  have hscan := ht.scan
  rw [h, Json.Place.suits_append] at hsuits
  rw [h, Json.Place.scan_append] at hscan
  cases hp : Json.Place.outside.scan x with
  | outside =>
    -- the second character of a method may not stand outside of strings
    rw [hp] at hsuits
    cases m <;>
      simp [ReadMethod.name, Json.Place.Suits, Json.Place.Admits, Json.Place.step] at hsuits
  | inside | escaped =>
    have hinside : Json.Place.inside.Suits t' ∧ Json.Place.inside.scan t' = .outside := by
      rw [hp] at hsuits hscan
      cases m <;> simp_all [ReadMethod.name, Json.Place.Suits, Json.Place.Admits, Json.Place.step]
    have hflip := Json.Place.scan_flip (by decide) ht'.suits hinside.1
    rw [ht'.scan] at hflip
    exact absurd (hinside.2.symm.trans hflip) (by decide)

/-- A method contains no dot. -/
theorem ReadMethod.dot_not_mem_name (m : ReadMethod) : '.' ∉ m.name.toList := by
  cases m <;> decide

theorem ReadMethod.name_inj {m m' : ReadMethod} (h : m.name = m'.name) : m = m' := by
  revert h
  cases m <;> cases m' <;> decide

/-- Two pairs of texts are one text around a dot if they are one pair, or if the first part of one
reaches beyond the dot of the other. -/
theorem append_dot_eq_iff (a t b u : List Char) :
    a ++ '.' :: t = b ++ '.' :: u ↔
      (a = b ∧ t = u) ∨ (∃ x, a = b ++ '.' :: x ∧ u = x ++ '.' :: t) ∨
        ∃ x, b = a ++ '.' :: x ∧ t = x ++ '.' :: u := by
  constructor
  · intro h
    rcases List.append_eq_append_iff.mp h with ⟨z, rfl, hz⟩ | ⟨z, rfl, hz⟩
    · rcases List.cons_eq_append_iff.mp hz with ⟨rfl, hu⟩ | ⟨x, rfl, ht⟩
      · exact .inl ⟨(List.append_nil a).symm, (List.tail_eq_of_cons_eq hu).symm⟩
      · exact .inr (.inr ⟨x, rfl, ht⟩)
    · rcases List.cons_eq_append_iff.mp hz with ⟨rfl, ht⟩ | ⟨x, rfl, hu⟩
      · exact .inl ⟨List.append_nil b, List.tail_eq_of_cons_eq ht⟩
      · exact .inr (.inl ⟨x, rfl, hu⟩)
  · rintro (⟨rfl, rfl⟩ | ⟨x, rfl, rfl⟩ | ⟨x, rfl, rfl⟩)
    · rfl
    · simp
    · simp

/-- What stands before the first dot, and what behind it. -/
theorem eq_of_append_dot {a a' t t' : List Char} (ha : '.' ∉ a) (ha' : '.' ∉ a')
    (h : a ++ '.' :: t = a' ++ '.' :: t') : a = a' ∧ t = t' := by
  rcases (append_dot_eq_iff a t a' t').mp h with heq | ⟨x, rfl, -⟩ | ⟨x, rfl, -⟩
  · exact heq
  · exact absurd (List.mem_append_right a' List.mem_cons_self) ha
  · exact absurd (List.mem_append_right a List.mem_cons_self) ha'

namespace Query

theorem signatureOf_toList (collection method : String) (source : Json) :
    (signatureOf collection method source).toList =
      collection.toList ++ '.' :: (method.toList ++ '.' :: source.chars) := by
  simp [signatureOf, Json.text]

/-- The longer of two collections cannot reach into the method and the filter of the other. -/
theorem eq_nil_of_signature {m m' : ReadMethod} {source source' : Json} {y : List Char}
    (h : '.' :: (m.name.toList ++ '.' :: source.chars) =
      y ++ '.' :: (m'.name.toList ++ '.' :: source'.chars)) : y = [] := by
  cases y with
  | nil => rfl
  | cons c y =>
    rw [List.cons_append] at h
    have htail := List.tail_eq_of_cons_eq h
    rcases List.append_eq_append_iff.mp htail with ⟨z, -, hz⟩ | ⟨z, hz, hrest⟩
    · -- the second method stands in the text of the first filter
      have hclosed : Json.Closed ('.' :: source.chars) :=
        Json.Closed.cons (by decide) (Json.closed_chars source)
      exact absurd hz (not_behind_method m' hclosed (Json.closed_chars source'))
    · cases z with
      | nil =>
        have hclosed : Json.Closed ('.' :: source.chars) :=
          Json.Closed.cons (by decide) (Json.closed_chars source)
        exact absurd hrest.symm
          (not_behind_method m' (x := []) hclosed (Json.closed_chars source'))
      | cons d rest =>
        rw [List.cons_append] at hrest
        have hdot := m.dot_not_mem_name
        rw [hz, ← List.head_eq_of_cons_eq hrest] at hdot
        exact absurd (List.mem_append_right y List.mem_cons_self) hdot

/-- Two reads of one signature have one collection, one method and one text of the filter. -/
theorem signatureOf_inj {collection collection' : String} {m m' : ReadMethod}
    {source source' : Json}
    (h : signatureOf collection m.name source = signatureOf collection' m'.name source') :
    collection = collection' ∧ m = m' ∧ source.text = source'.text := by
  have hchars := congrArg String.toList h
  rw [signatureOf_toList, signatureOf_toList] at hchars
  have hcollection : collection.toList = collection'.toList := by
    rcases List.append_eq_append_iff.mp hchars with ⟨y, hy, hrest⟩ | ⟨y, hy, hrest⟩
    · rw [hy, eq_nil_of_signature hrest, List.append_nil]
    · rw [hy, eq_nil_of_signature hrest, List.append_nil]
  rw [hcollection] at hchars
  have hrest := List.tail_eq_of_cons_eq (List.append_cancel_left hchars)
  obtain ⟨hname, htext⟩ := eq_of_append_dot m.dot_not_mem_name m'.dot_not_mem_name hrest
  refine ⟨String.toList_inj.mp hcollection, ReadMethod.name_inj (String.toList_inj.mp hname), ?_⟩
  rw [Json.text, Json.text, htext]

end Query
end DocWatch
