import DocWatch.Json.Reader
import DocWatch.Proofs.Double.Text
import DocWatch.Proofs.Json.Text

/-!
# Compact text is faithful

Two values of one compact text are the same, order of keys and spelling of numbers included. The
text of a value is read from the left: its first character tells what kind of value it is, a string
ends at the first quote that is not escaped, and a number ends where no numeric character follows.
So a text that begins with the text of a value does so with only one value and one rest.

- `Json.Reader.string?_escape`: strings are read back.
- `Number.chars_inj`: numbers of one text are the same.
- `Json.Kind`, `Json.kind_eq`: the first character.
- `Json.chars_append_inj`: a value and the rest.
- `Json.text_inj`: the main result.
-/

namespace DocWatch

/-! ## Strings -/

namespace Json.Reader

theorem hexValue?_hexDigit : ∀ n < 16, Text.hexValue? (hexDigit n) = some n := by
  decide

/-- A character is read back as it is written inside of a string. -/
theorem string?_escape_append (c : Char) (fuel : Nat) (rest : List Char) :
    string? (fuel + 1) (escape c ++ rest) =
      (string? fuel rest).map fun (s, rest) => (c :: s, rest) := by
  have hescaped : ∀ (code : List Char),
      escaped? (code ++ rest) = some (c, rest) →
      string? (fuel + 1) ('\\' :: (code ++ rest)) =
        (string? fuel rest).map fun (s, rest) => (c :: s, rest) := by
    intro code hcode
    rw [string?, hcode]
    simp only [Option.bind_eq_bind, Option.bind_some]
    cases string? fuel rest <;> rfl
  unfold escape
  by_cases hq : c = '"'
  · subst hq
    exact hescaped ['"'] rfl
  by_cases hb : c = '\\'
  · subst hb
    exact hescaped ['\\'] rfl
  rw [if_neg hq, if_neg hb]
  -- the characters with escapes of their own, one after another
  iterate 5
    split
    · subst_vars
      exact hescaped [_] rfl
  split
  · -- four hexadecimal digits
    rename_i hcontrol
    refine hescaped ['u', '0', '0', hexDigit (c.toNat / 16), hexDigit (c.toNat % 16)] ?_
    have hhigh := hexValue?_hexDigit (c.toNat / 16) (by omega)
    have hlow := hexValue?_hexDigit (c.toNat % 16) (by omega)
    have hzero : Text.hexValue? '0' = some 0 := rfl
    have hvalue : 0 * 4096 + 0 * 256 + c.toNat / 16 * 16 + c.toNat % 16 = c.toNat := by omega
    simp only [List.cons_append, List.nil_append, escaped?, unit?, hzero, hhigh, hlow,
      Option.bind_eq_bind, Option.bind_some, Option.pure_def, hvalue]
    rw [if_pos (.inl (by omega)), Char.ofNat_toNat]
  · rename_i hprintable
    rw [List.singleton_append, string?]
    · simp only [if_neg hprintable]
      cases string? fuel rest <;> rfl
    · rintro rfl
      exact hq rfl
    · rintro rfl
      exact hb rfl

/-- A string is read back up to its closing quote. -/
theorem string?_escape (s : List Char) {fuel : Nat} (h : s.length < fuel) (rest : List Char) :
    string? fuel (s.flatMap escape ++ '"' :: rest) = some (s, rest) := by
  induction s generalizing fuel with
  | nil =>
    obtain ⟨fuel, rfl⟩ := Nat.exists_eq_succ_of_ne_zero (Nat.ne_of_gt h)
    rfl
  | cons c s ih =>
    obtain ⟨fuel, rfl⟩ := Nat.exists_eq_succ_of_ne_zero (Nat.ne_of_gt (Nat.zero_lt_of_lt h))
    rw [List.flatMap_cons, List.append_assoc, Nat.succ_eq_add_one, string?_escape_append,
      ih (Nat.lt_of_succ_lt_succ h)]
    rfl

end Json.Reader

/-! ## Numbers -/

theorem Decimal.intChars_inj {i j : Int} (h : intChars i = intChars j) : i = j := by
  have hsign : ∀ {n m : Nat}, natChars n ≠ '-' :: natChars m := by
    intro n m he
    have hmem : '-' ∈ natChars n := he ▸ List.mem_cons_self
    exact not_mem_natChars (by decide) n hmem
  cases i with
  | ofNat n =>
    cases j with
    | ofNat m => exact congrArg Int.ofNat (natChars_inj h)
    | negSucc m => exact absurd h hsign
  | negSucc n =>
    cases j with
    | ofNat m => exact absurd h.symm hsign
    | negSucc m =>
      have hsucc := natChars_inj (List.tail_eq_of_cons_eq h)
      rw [Nat.succ.inj hsucc]

/-- The text of an integer has neither a point nor a power of ten. -/
theorem Decimal.not_mem_intChars {c : Char} (hc : c = '.' ∨ c = 'e') (i : Int) :
    c ∉ intChars i := by
  have hdigit : c.isDigit = false := by
    rcases hc with rfl | rfl <;> rfl
  cases i with
  | ofNat n => exact not_mem_natChars hdigit n
  | negSucc n =>
    intro hmem
    rcases List.mem_cons.mp hmem with rfl | hmem
    · rcases hc with h | h <;> cases h
    · exact not_mem_natChars hdigit _ hmem

/-- Numbers of one text are the same. -/
theorem Number.chars_inj {n m : Number} (h : n.chars = m.chars) : n = m := by
  have hkind : ∀ {i : Int} {x : Double}, Decimal.intChars i ≠ x.chars := by
    intro i x he
    rcases x.point_or_power_mem_chars with hmem | hmem
    · exact Decimal.not_mem_intChars (.inl rfl) i (he ▸ hmem)
    · exact Decimal.not_mem_intChars (.inr rfl) i (he ▸ hmem)
  cases n with
  | int i fits =>
    cases m with
    | int j fits' =>
      obtain rfl := Decimal.intChars_inj h
      rfl
    | double y => exact absurd h hkind
  | double x =>
    cases m with
    | int j fits' => exact absurd h.symm hkind
    | double y => rw [Double.chars_inj h]

namespace Json

theorem chars_number_ne_nil (n : Number) : n.chars ≠ [] := by
  cases n with
  | int i fits =>
    cases i with
    | ofNat n => exact Decimal.natChars_ne_nil n
    | negSucc n => exact List.cons_ne_nil _ _
  | double x =>
    intro h
    rcases x.point_or_power_mem_chars with hmem | hmem
    all_goals
      rw [show x.chars = [] from h] at hmem
      cases hmem

/-! ## Where values end -/

/-- No numeric character comes next, so that a number ends here. -/
def Ends (cs : List Char) : Prop := ∀ c, cs.head? = some c → ¬ Numeric c

theorem ends_nil : Ends [] := fun _ h => by cases h

theorem ends_cons {c : Char} (hc : ¬ Numeric c) (cs : List Char) : Ends (c :: cs) := by
  intro d hd
  rw [← Option.some.inj hd]
  exact hc

/-- The numeric characters at the beginning of a text. -/
theorem takeWhile_numeric {cs rest : List Char} (hcs : ∀ c ∈ cs, Numeric c) (hrest : Ends rest) :
    (cs ++ rest).takeWhile (fun c => decide (Numeric c)) = cs := by
  rw [List.takeWhile_append_of_pos fun c hc => decide_eq_true (hcs c hc)]
  cases rest with
  | nil => exact List.append_nil cs
  | cons c rest =>
    rw [List.takeWhile_cons_of_neg (by simpa using hrest c rfl), List.append_nil]

theorem number_append_inj {n m : Number} {rest rest' : List Char} (hrest : Ends rest)
    (hrest' : Ends rest') (h : n.chars ++ rest = m.chars ++ rest') : n = m ∧ rest = rest' := by
  have hn := takeWhile_numeric (fun c hc => numeric_number n hc) hrest
  have hm := takeWhile_numeric (fun c hc => numeric_number m hc) hrest'
  rw [h, hm] at hn
  rw [hn] at h
  exact ⟨Number.chars_inj hn.symm, List.append_cancel_left h⟩

theorem quote_append_inj {s t : String} {rest rest' : List Char}
    (h : quote s ++ rest = quote t ++ rest') : s = t ∧ rest = rest' := by
  have hquote : ∀ (s : String) (rest : List Char),
      quote s ++ rest = '"' :: (s.toList.flatMap escape ++ '"' :: rest) := by
    intro s rest
    rw [quote, List.cons_append, List.append_assoc]
    rfl
  rw [hquote, hquote] at h
  -- one reader has room for both
  have hroom : s.toList.length < max s.toList.length t.toList.length + 1 := by omega
  have hroom' : t.toList.length < max s.toList.length t.toList.length + 1 := by omega
  have hread := Reader.string?_escape s.toList hroom rest
  have hread' := Reader.string?_escape t.toList hroom' rest'
  rw [List.tail_eq_of_cons_eq h, hread'] at hread
  obtain ⟨hs, hr⟩ := Prod.mk.inj (Option.some.inj hread)
  exact ⟨String.toList_inj.mp hs.symm, hr.symm⟩

/-! ## The first character -/

/-- What the first character of a text tells. -/
inductive Kind where
  | null | yes | no | number | string | array | object
deriving DecidableEq

/-- The kind of a value. -/
def kind : Json → Kind
  | .null => .null
  | .bool true => .yes
  | .bool false => .no
  | .num _ => .number
  | .str _ => .string
  | .arr _ => .array
  | .obj _ => .object

/-- The kind of the values whose text begins with a character. -/
def Kind.ofChar? (c : Char) : Option Kind :=
  if c = 'n' then some .null
  else if c = 't' then some .yes
  else if c = 'f' then some .no
  else if c = '"' then some .string
  else if c = '[' then some .array
  else if c = '\x7b' then some .object
  else if Numeric c then some .number
  else none

theorem ofChar?_of_numeric {c : Char} (h : Numeric c) : Kind.ofChar? c = some .number := by
  have hne : ∀ d : Char, ¬ Numeric d → c ≠ d := fun d hd he => hd (he ▸ h)
  unfold Kind.ofChar?
  rw [if_neg (hne _ (by decide)), if_neg (hne _ (by decide)), if_neg (hne _ (by decide)),
    if_neg (hne _ (by decide)), if_neg (hne _ (by decide)), if_neg (hne _ (by decide)), if_pos h]

/-- The text of a value begins with a character that tells its kind. -/
theorem exists_head (v : Json) :
    ∃ c cs, v.chars = c :: cs ∧ Kind.ofChar? c = some v.kind := by
  cases v with
  | null => exact ⟨_, _, rfl, rfl⟩
  | bool b => cases b <;> exact ⟨_, _, rfl, rfl⟩
  | num n =>
    obtain ⟨c, cs, hcs⟩ := List.exists_cons_of_ne_nil (chars_number_ne_nil n)
    have hmem : c ∈ n.chars := hcs ▸ List.mem_cons_self
    exact ⟨c, cs, hcs, ofChar?_of_numeric (numeric_number n hmem)⟩
  | str s => exact ⟨_, _, rfl, rfl⟩
  | arr items => exact ⟨_, _, rfl, rfl⟩
  | obj fields => exact ⟨_, _, rfl, rfl⟩

/-- Values whose texts begin alike are of one kind. -/
theorem kind_eq {v w : Json} {rest rest' : List Char} (h : v.chars ++ rest = w.chars ++ rest') :
    v.kind = w.kind := by
  obtain ⟨c, cs, hv, hkind⟩ := v.exists_head
  obtain ⟨c', cs', hw, hkind'⟩ := w.exists_head
  rw [hv, hw] at h
  rw [List.head_eq_of_cons_eq h, hkind'] at hkind
  exact (Option.some.inj hkind).symm

/-- No value begins with a character that tells no kind. -/
theorem chars_append_ne {c : Char} (hc : Kind.ofChar? c = none) (v : Json) (cs rest : List Char) :
    v.chars ++ rest ≠ c :: cs := by
  obtain ⟨d, ds, hv, hkind⟩ := v.exists_head
  intro h
  rw [hv] at h
  rw [List.head_eq_of_cons_eq h, hc] at hkind
  cases hkind

/-! ## Values -/

/-- What follows an element of an array: its end, or the other elements. -/
def afterItem (items : List Json) (rest : List Char) : List Char :=
  match items with
  | [] => ']' :: rest
  | v :: more => ',' :: (itemsChars (v :: more) ++ ']' :: rest)

theorem itemsChars_append (v : Json) (items : List Json) (rest : List Char) :
    itemsChars (v :: items) ++ ']' :: rest = v.chars ++ afterItem items rest := by
  cases items with
  | nil => rfl
  | cons w more =>
    rw [itemsChars, afterItem, List.append_assoc, List.cons_append]
    exact fun h => List.cons_ne_nil w more h

theorem ends_afterItem (items : List Json) (rest : List Char) : Ends (afterItem items rest) := by
  cases items with
  | nil => exact ends_cons (by decide) _
  | cons v more => exact ends_cons (by decide) _

/-- What follows a member of an object. -/
def afterField (fields : Members Json) (rest : List Char) : List Char :=
  match fields with
  | [] => '\x7d' :: rest
  | m :: more => ',' :: (fieldsChars (m :: more) ++ '\x7d' :: rest)

theorem fieldsChars_append (k : String) (v : Json) (fields : Members Json) (rest : List Char) :
    fieldsChars ((k, v) :: fields) ++ '\x7d' :: rest =
      quote k ++ ':' :: (v.chars ++ afterField fields rest) := by
  cases fields with
  | nil =>
    rw [fieldsChars, afterField, List.append_assoc, List.cons_append]
  | cons m more =>
    rw [fieldsChars, afterField, List.append_assoc, List.cons_append, List.append_assoc,
      List.cons_append]
    exact fun h => List.cons_ne_nil m more h

theorem ends_afterField (fields : Members Json) (rest : List Char) :
    Ends (afterField fields rest) := by
  cases fields with
  | nil => exact ends_cons (by decide) _
  | cons m more => exact ends_cons (by decide) _

mutual

/-- A text begins with the text of only one value. -/
theorem chars_append_inj : (v w : Json) → {rest rest' : List Char} → Ends rest → Ends rest' →
    v.chars ++ rest = w.chars ++ rest' → v = w ∧ rest = rest'
  | .null, w, rest, rest', _, _, h => by
    have hkind := kind_eq h
    cases w with
    | null => exact ⟨rfl, List.append_cancel_left h⟩
    | bool b => cases b <;> cases hkind
    | _ => cases hkind
  | .bool b, w, rest, rest', _, _, h => by
    have hkind := kind_eq h
    cases w with
    | bool b' =>
      cases b <;> cases b'
      · exact ⟨rfl, List.append_cancel_left h⟩
      · cases hkind
      · cases hkind
      · exact ⟨rfl, List.append_cancel_left h⟩
    | _ => cases b <;> cases hkind
  | .num n, w, rest, rest', hrest, hrest', h => by
    have hkind := kind_eq h
    cases w with
    | num m =>
      obtain ⟨rfl, hr⟩ := number_append_inj hrest hrest' h
      exact ⟨rfl, hr⟩
    | bool b => cases b <;> cases hkind
    | _ => cases hkind
  | .str s, w, rest, rest', _, _, h => by
    have hkind := kind_eq h
    cases w with
    | str t =>
      obtain ⟨rfl, hr⟩ := quote_append_inj h
      exact ⟨rfl, hr⟩
    | bool b => cases b <;> cases hkind
    | _ => cases hkind
  | .arr items, w, rest, rest', _, _, h => by
    have hkind := kind_eq h
    cases w with
    | arr items' =>
      rw [chars, chars, List.cons_append, List.cons_append, List.append_assoc,
        List.append_assoc] at h
      obtain ⟨rfl, hr⟩ := itemsChars_append_inj items items' (List.tail_eq_of_cons_eq h)
      exact ⟨rfl, hr⟩
    | bool b => cases b <;> cases hkind
    | _ => cases hkind
  | .obj fields, w, rest, rest', _, _, h => by
    have hkind := kind_eq h
    cases w with
    | obj fields' =>
      rw [chars, chars, List.cons_append, List.cons_append, List.append_assoc,
        List.append_assoc] at h
      obtain ⟨rfl, hr⟩ := fieldsChars_append_inj fields fields' (List.tail_eq_of_cons_eq h)
      exact ⟨rfl, hr⟩
    | bool b => cases b <;> cases hkind
    | _ => cases hkind

/-- The elements of an array end at its bracket. -/
theorem itemsChars_append_inj : (items items' : List Json) → {rest rest' : List Char} →
    itemsChars items ++ ']' :: rest = itemsChars items' ++ ']' :: rest' →
    items = items' ∧ rest = rest'
  | [], [], _, _, h => ⟨rfl, List.tail_eq_of_cons_eq h⟩
  | [], v :: more, _, _, h => by
    rw [itemsChars_append] at h
    exact absurd h.symm (chars_append_ne rfl v _ _)
  | v :: more, [], _, _, h => by
    rw [itemsChars_append] at h
    exact absurd h (chars_append_ne rfl v _ _)
  | v :: more, w :: more', rest, rest', h => by
    rw [itemsChars_append, itemsChars_append] at h
    obtain ⟨rfl, htail⟩ := chars_append_inj v w (ends_afterItem _ _) (ends_afterItem _ _) h
    match more, more' with
    | [], [] => exact ⟨rfl, List.tail_eq_of_cons_eq htail⟩
    | [], _ :: _ => exact absurd (List.head_eq_of_cons_eq htail) (by decide)
    | _ :: _, [] => exact absurd (List.head_eq_of_cons_eq htail) (by decide)
    | x :: xs, y :: ys =>
      obtain ⟨heq, hr⟩ := itemsChars_append_inj (x :: xs) (y :: ys)
        (List.tail_eq_of_cons_eq htail)
      exact ⟨heq ▸ rfl, hr⟩

/-- The members of an object end at its brace. -/
theorem fieldsChars_append_inj : (fields fields' : Members Json) → {rest rest' : List Char} →
    fieldsChars fields ++ '\x7d' :: rest = fieldsChars fields' ++ '\x7d' :: rest' →
    fields = fields' ∧ rest = rest'
  | [], [], _, _, h => ⟨rfl, List.tail_eq_of_cons_eq h⟩
  | [], (k, v) :: more, _, _, h => by
    rw [fieldsChars_append] at h
    exact absurd (List.head_eq_of_cons_eq h) (by decide)
  | (k, v) :: more, [], _, _, h => by
    rw [fieldsChars_append] at h
    exact absurd (List.head_eq_of_cons_eq h) (by decide)
  | (k, v) :: more, (l, w) :: more', rest, rest', h => by
    rw [fieldsChars_append, fieldsChars_append] at h
    obtain ⟨rfl, hvalue⟩ := quote_append_inj h
    obtain ⟨rfl, htail⟩ := chars_append_inj v w (ends_afterField _ _) (ends_afterField _ _)
      (List.tail_eq_of_cons_eq hvalue)
    match more, more' with
    | [], [] => exact ⟨rfl, List.tail_eq_of_cons_eq htail⟩
    | [], _ :: _ => exact absurd (List.head_eq_of_cons_eq htail) (by decide)
    | _ :: _, [] => exact absurd (List.head_eq_of_cons_eq htail) (by decide)
    | x :: xs, y :: ys =>
      obtain ⟨heq, hr⟩ := fieldsChars_append_inj (x :: xs) (y :: ys)
        (List.tail_eq_of_cons_eq htail)
      exact ⟨heq ▸ rfl, hr⟩

end

/-- **Values of one text are the same.** -/
theorem text_inj {v w : Json} (h : v.text = w.text) : v = w := by
  have hchars : v.chars = w.chars := String.ofList_injective h
  refine (chars_append_inj v w ends_nil ends_nil ?_).1
  rw [hchars]

end Json
end DocWatch
