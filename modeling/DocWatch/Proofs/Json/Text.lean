import DocWatch.Json.Text

/-!
# Where strings begin and end in compact text

Compact text is read from the left with one of three places in mind: outside of strings, inside of
one, or behind the backslash of an escape. Every value is written so that a reader who starts
outside ends outside, and meets no backslash and no `i` outside of strings (`Json.closed_chars`).
Two readers, one of them outside and one inside of a string, stay so to the end of a text that
suits both of them (`Place.scan_flip`): the quotes toggle both, and a backslash would not suit the
one that is outside.

- `Place.scan`: reading.
- `Place.Suits`: what may stand outside of strings.
- `Json.Closed`: text that begins and ends outside of strings.
-/

namespace DocWatch.Json

/-- Where a reader of compact text stands. -/
inductive Place where
  | outside
  | inside
  /-- Behind a backslash. -/
  | escaped
deriving DecidableEq

namespace Place

/-- The place behind one more character. -/
def step : Place → Char → Place
  | outside, c => if c = '"' then inside else outside
  | inside, c => if c = '"' then outside else if c = '\\' then escaped else inside
  | escaped, _ => inside

/-- The place behind a text. -/
def scan (p : Place) (cs : List Char) : Place := cs.foldl step p

/-- May a character stand here? Outside of strings there is no backslash, and no `i`, which is in
none of `null`, `true` and `false`. -/
def Admits (p : Place) (c : Char) : Prop := p = outside → c ≠ '\\' ∧ c ≠ 'i'

/-- May all characters of a text stand where a reader meets them? -/
def Suits : Place → List Char → Prop
  | _, [] => True
  | p, c :: cs => p.Admits c ∧ Suits (p.step c) cs

@[simp] theorem scan_nil (p : Place) : p.scan [] = p := rfl

@[simp] theorem scan_cons (p : Place) (c : Char) (cs : List Char) :
    p.scan (c :: cs) = (p.step c).scan cs := rfl

theorem scan_append (p : Place) (cs ds : List Char) :
    p.scan (cs ++ ds) = (p.scan cs).scan ds :=
  List.foldl_append

theorem suits_append (p : Place) (cs ds : List Char) :
    p.Suits (cs ++ ds) ↔ p.Suits cs ∧ (p.scan cs).Suits ds := by
  induction cs generalizing p with
  | nil => simp [Suits]
  | cons c rest ih => rw [List.cons_append, Suits, Suits, ih, and_assoc, scan_cons]

/-! ## Two readers -/

/-- The other side of a quote. -/
def flip : Place → Place
  | outside => inside
  | inside => outside
  | escaped => escaped

/-- A reader outside of strings and one inside of a string stay on different sides of the quotes in
a text that suits both. -/
theorem scan_flip {p : Place} (hp : p ≠ escaped) {cs : List Char} (h : p.Suits cs)
    (hflip : p.flip.Suits cs) : p.flip.scan cs = (p.scan cs).flip := by
  induction cs generalizing p with
  | nil => rfl
  | cons c rest ih =>
    rw [scan_cons, scan_cons]
    -- a backslash does not suit the reader that is outside
    have hc : c ≠ '\\' := by
      cases p with
      | outside => exact (h.1 rfl).1
      | inside => exact (hflip.1 rfl).1
      | escaped => exact absurd rfl hp
    have hstep : p.flip.step c = (p.step c).flip ∧ p.step c ≠ escaped := by
      by_cases hq : c = '"'
      · cases p <;> simp_all [step, flip]
      · cases p <;> simp_all [step, flip]
    rw [hstep.1]
    refine ih hstep.2 h.2 ?_
    rw [← hstep.1]
    exact hflip.2

end Place

/-! ## Closed text -/

/-- Text that begins and ends outside of strings. -/
structure Closed (cs : List Char) : Prop where
  suits : Place.outside.Suits cs
  scan : Place.outside.scan cs = .outside

/-- A character that may stand outside of strings and begins none. -/
def Plain (c : Char) : Prop := c ≠ '"' ∧ c ≠ '\\' ∧ c ≠ 'i'

instance (c : Char) : Decidable (Plain c) := inferInstanceAs (Decidable (_ ∧ _))

/-- Plainness of given characters, by computation. -/
theorem plain_of_all {cs : List Char} (h : cs.all (fun c => decide (Plain c)) = true) :
    ∀ c ∈ cs, Plain c :=
  fun c hc => of_decide_eq_true (List.all_eq_true.mp h c hc)

theorem closed_nil : Closed [] := ⟨trivial, rfl⟩

theorem Closed.append {cs ds : List Char} (h : Closed cs) (h' : Closed ds) : Closed (cs ++ ds) where
  suits := by
    rw [Place.suits_append, h.scan]
    exact ⟨h.suits, h'.suits⟩
  scan := by rw [Place.scan_append, h.scan, h'.scan]

theorem Closed.cons {c : Char} {cs : List Char} (hc : Plain c) (h : Closed cs) :
    Closed (c :: cs) := by
  have hstep : Place.outside.step c = .outside := by
    rw [Place.step, if_neg hc.1]
  refine { suits := ⟨fun _ => hc.2, ?_⟩, scan := ?_ }
  · rw [hstep]
    exact h.suits
  · rw [Place.scan_cons, hstep]
    exact h.scan

theorem closed_of_plain {cs : List Char} (h : ∀ c ∈ cs, Plain c) : Closed cs := by
  induction cs with
  | nil => exact closed_nil
  | cons c rest ih =>
    exact Closed.cons (h c List.mem_cons_self) (ih fun d hd => h d (List.mem_cons_of_mem c hd))

/-! ## Strings -/

theorem hexDigit_ne : ∀ n < 16, hexDigit n ≠ '"' ∧ hexDigit n ≠ '\\' := by
  decide

/-- A backslash takes one character with it. -/
theorem inside_backslash (c : Char) :
    Place.inside.Suits ['\\', c] ∧ Place.inside.scan ['\\', c] = .inside := by
  simp [Place.Suits, Place.Admits, Place.step]

/-- Inside of a string, a character is written so that the reader stays inside. -/
theorem inside_escape (c : Char) :
    Place.inside.Suits (escape c) ∧ Place.inside.scan (escape c) = .inside := by
  unfold escape
  by_cases hq : c = '"'
  · rw [if_pos hq]
    exact inside_backslash '"'
  by_cases hb : c = '\\'
  · rw [if_neg hq, if_pos hb]
    exact inside_backslash '\\'
  rw [if_neg hq, if_neg hb]
  -- the characters with escapes of their own, one after another
  iterate 5
    split
    · exact inside_backslash _
  split
  · obtain ⟨hq1, hb1⟩ := hexDigit_ne (c.toNat / 16) (by omega)
    obtain ⟨hq2, hb2⟩ := hexDigit_ne (c.toNat % 16) (by omega)
    simp [Place.Suits, Place.Admits, Place.step, hq1, hb1, hq2, hb2]
  · simp [Place.Suits, Place.Admits, Place.step, hq, hb]

theorem inside_flatMap_escape (cs : List Char) :
    Place.inside.Suits (cs.flatMap escape) ∧ Place.inside.scan (cs.flatMap escape) = .inside := by
  induction cs with
  | nil => exact ⟨trivial, rfl⟩
  | cons c rest ih =>
    obtain ⟨hsuits, hscan⟩ := inside_escape c
    rw [List.flatMap_cons, Place.suits_append, Place.scan_append, hscan]
    exact ⟨⟨hsuits, ih.1⟩, ih.2⟩

theorem closed_quote (s : String) : Closed (quote s) := by
  obtain ⟨hsuits, hscan⟩ := inside_flatMap_escape s.toList
  have hopen : Place.outside.step '"' = .inside := rfl
  refine { suits := ⟨fun _ => by decide, ?_⟩, scan := ?_ }
  · rw [hopen, Place.suits_append, hscan]
    exact ⟨hsuits, fun h => Place.noConfusion h, trivial⟩
  · rw [quote, Place.scan_cons, hopen, Place.scan_append, hscan]
    rfl

/-! ## Numbers -/

/-- The characters that numbers are written with. -/
def Numeric (c : Char) : Prop := c.isDigit = true ∨ c ∈ ['-', '+', '.', 'e']

instance (c : Char) : Decidable (Numeric c) := inferInstanceAs (Decidable (_ ∨ _))

/-- Numeric characters are plain. -/
theorem Numeric.plain {c : Char} (h : Numeric c) : Plain c := by
  refine ⟨?_, ?_, ?_⟩
  all_goals
    rintro rfl
    exact absurd h (by decide)

/-- Numericity of given characters, by computation. -/
theorem numeric_of_all {cs : List Char} (h : cs.all (fun c => decide (Numeric c)) = true) :
    ∀ c ∈ cs, Numeric c :=
  fun c hc => of_decide_eq_true (List.all_eq_true.mp h c hc)

theorem numeric_natChars {n : Nat} {c : Char} (h : c ∈ Decimal.natChars n) : Numeric c :=
  .inl (Nat.isDigit_of_mem_toDigits (by decide) (by decide) h)

theorem numeric_intChars {i : Int} {c : Char} (h : c ∈ Decimal.intChars i) : Numeric c := by
  cases i with
  | ofNat n => exact numeric_natChars h
  | negSucc n =>
    rcases List.mem_cons.mp h with rfl | h
    · decide
    · exact numeric_natChars h

theorem numeric_positional {digits : List Char} (hdigits : ∀ c ∈ digits, Numeric c) (whole : Int)
    {c : Char} (h : c ∈ Double.positional digits whole) : Numeric c := by
  unfold Double.positional at h
  split at h
  · rcases List.mem_cons.mp h with rfl | h
    · decide
    rcases List.mem_cons.mp h with rfl | h
    · decide
    · exact hdigits c h
  · split at h
    · rcases List.mem_append.mp h with h | h
      · rcases List.mem_append.mp h with h | h
        · exact hdigits c h
        · rw [List.eq_of_mem_replicate h]
          decide
      · exact numeric_of_all (by decide) c h
    · rcases List.mem_append.mp h with h | h
      · exact hdigits c (List.mem_of_mem_take h)
      rcases List.mem_cons.mp h with rfl | h
      · decide
      · exact hdigits c (List.mem_of_mem_drop h)
  · rcases List.mem_cons.mp h with rfl | h
    · decide
    rcases List.mem_cons.mp h with rfl | h
    · decide
    rcases List.mem_append.mp h with h | h
    · rw [List.eq_of_mem_replicate h]
      decide
    · exact hdigits c h

theorem numeric_scientific {digits : List Char} (hdigits : ∀ c ∈ digits, Numeric c) (power : Int)
    {c : Char} (h : c ∈ Double.scientific digits power) : Numeric c := by
  unfold Double.scientific at h
  rcases List.mem_append.mp h with h | h
  · split at h
    · exact absurd h List.not_mem_nil
    · exact hdigits c h
    · rcases List.mem_cons.mp h with rfl | h
      · exact hdigits _ List.mem_cons_self
      rcases List.mem_cons.mp h with rfl | h
      · decide
      · exact hdigits c (List.mem_cons_of_mem _ h)
  rcases List.mem_cons.mp h with rfl | h
  · decide
  rcases List.mem_cons.mp h with rfl | h
  · by_cases hp : power < 0
    · simp only [hp, if_true]
      decide
    · simp only [hp, if_false]
      decide
  · exact numeric_natChars h

theorem numeric_magnitudeChars (x : Double) {c : Char} (h : c ∈ x.magnitudeChars) : Numeric c := by
  unfold Double.magnitudeChars at h
  split at h
  · exact numeric_of_all (by decide) c h
  · simp only at h
    split at h
    · exact numeric_positional (fun d hd => numeric_natChars hd) _ h
    · exact numeric_scientific (fun d hd => numeric_natChars hd) _ h

/-- The text of a number has only numeric characters. -/
theorem numeric_number (n : Number) {c : Char} (h : c ∈ n.chars) : Numeric c := by
  cases n with
  | int i _ => exact numeric_intChars h
  | double x =>
    have hx : c ∈ x.chars := h
    unfold Double.chars at hx
    split at hx
    · rcases List.mem_cons.mp hx with rfl | hx
      · decide
      · exact numeric_magnitudeChars x hx
    · exact numeric_magnitudeChars x hx

theorem closed_number (n : Number) : Closed n.chars :=
  closed_of_plain fun _ h => (numeric_number n h).plain

/-! ## Values -/

mutual

/-- The text of every value begins and ends outside of strings. -/
theorem closed_chars : (v : Json) → Closed v.chars
  | .null => closed_of_plain (plain_of_all (by decide))
  | .bool true => closed_of_plain (plain_of_all (by decide))
  | .bool false => closed_of_plain (plain_of_all (by decide))
  | .num n => closed_number n
  | .str s => closed_quote s
  | .arr items =>
    Closed.cons (by decide) ((closed_itemsChars items).append
      (Closed.cons (by decide) closed_nil))
  | .obj fields =>
    Closed.cons (by decide) ((closed_fieldsChars fields).append
      (Closed.cons (by decide) closed_nil))

/-- The text between brackets. -/
theorem closed_itemsChars : (items : List Json) → Closed (itemsChars items)
  | [] => closed_nil
  | [v] => closed_chars v
  | v :: w :: rest =>
    (closed_chars v).append (Closed.cons (by decide) (closed_itemsChars (w :: rest)))

/-- The text between braces. -/
theorem closed_fieldsChars : (fields : Members Json) → Closed (fieldsChars fields)
  | [] => closed_nil
  | [(k, v)] => (closed_quote k).append (Closed.cons (by decide) (closed_chars v))
  | (k, v) :: m :: rest =>
    (closed_quote k).append (Closed.cons (by decide) ((closed_chars v).append
      (Closed.cons (by decide) (closed_fieldsChars (m :: rest)))))

end

end DocWatch.Json
