import DocWatch.Mutation.Resolve
import DocWatch.Proofs.FieldPath
import DocWatch.Proofs.Json.Access

/-!
# Resolved paths in storage

References are resolved by a walk of their own through the document, while storage follows the texts
of the resolved path and lets each container decide whether a text is a key or a slot. The two walks
meet at the same values, except at two kinds of steps: a position is never taken for a key by the
first walk, and it reads a plus sign in front of a slot that storage does not read.

- `MutationPath.Addresses`: a resolved path names, for storage, the elements that were asked for.
- `MutationPath.addresses_of_resolveFrom`, `MutationPath.resolveFrom_of_addresses`: the walks agree.
- `MutationPath.resolve_addresses`: what a resolved path addresses, and when there is none.
-/

namespace DocWatch

/-! ## Slots in storage -/

/-- No array in the value has more slots than 64 bits can name. -/
def Json.SlotsFit (v : Json) : Prop :=
  ∀ path items, v.get? path = some (.arr items) → items.length ≤ 2 ^ 64

namespace Json.SlotsFit

variable {v w : Json}

theorem child (h : v.SlotsFit) {segment : String} (hchild : v.child? segment = some w) :
    w.SlotsFit := by
  intro path items hget
  refine h (segment :: path) items ?_
  rw [Json.get?, hchild]
  exact hget

theorem items {items : List Json} (h : (Json.arr items).SlotsFit) : items.length ≤ 2 ^ 64 :=
  h [] items rfl

/-- A value has no array that is too long if it is none itself and no value in it has one. -/
theorem of_child (hitems : ∀ items, v = .arr items → items.length ≤ 2 ^ 64)
    (h : ∀ segment w, v.child? segment = some w → w.SlotsFit) : v.SlotsFit := by
  intro path items hget
  cases path with
  | nil => exact hitems items (Option.some.inj hget)
  | cons segment rest =>
    obtain ⟨w, hchild, hget⟩ := Option.bind_eq_some_iff.mp hget
    exact h segment w hchild rest items hget

end Json.SlotsFit

/-- The text of a position reaches that slot of an array. -/
theorem Json.child?_text_index {items : List Json} (h : items.length ≤ 2 ^ 64) (i : Nat) :
    (arr items).child? (Segment.index i).text = items[i]? := by
  rw [child?, Segment.text]
  rw [FieldPath.index?_natChars_eq_ite]
  by_cases hi : i < 2 ^ 64
  · rw [if_pos hi, Option.bind_some]
  · rw [if_neg hi, Option.bind_none, List.getElem?_eq_none (by omega)]

namespace MutationPath

/-! ## What was asked for -/

/-- What storage reaches where a step of a resolved path starts. -/
def reached? (current : Option Json) (resolved : MutationPath) (i : Nat) : Option Json :=
  current.bind (·.get? ((resolved.take i).map Segment.text))

/-- The first element that answers to an identity has this position. -/
def FirstNamed (id : String) (items : List Json) (j : Nat) : Prop :=
  (∃ v, items[j]? = some v ∧ Document.answersTo v id = true) ∧
    ∀ k < j, ∀ v, items[k]? = some v → Document.answersTo v id = false

/-- A path with something in the place of each reference of another one. Keys and positions stay. -/
structure Fills (asked resolved : MutationPath) : Prop where
  length : resolved.length = asked.length
  kept : ∀ (i : Nat) (segment : Segment), asked[i]? = some segment → segment.isRef = false →
    resolved[i]? = some segment

/-- The resolved path names, for storage, the elements that were asked for. For a reference there is
the position of the first element that it names, in the array that storage reaches there. -/
structure Addresses (current : Option Json) (asked resolved : MutationPath) : Prop
    extends Fills asked resolved where
  named : ∀ i id, asked[i]? = some (.ref id) → ∃ items j,
    reached? current resolved i = some (.arr items) ∧ resolved[i]? = some (.index j) ∧
      FirstNamed id items j

/-- No key in front of a reference spells a slot, where storage is at an array, in a way that
storage does not read. -/
def Unsigned (current : Option Json) (asked resolved : MutationPath) : Prop :=
  ∀ i key items, asked[i]? = some (.literal key) → hasRefs (asked.drop (i + 1)) = true →
    reached? current resolved i = some (.arr items) →
    FieldPath.signedIndex? key = FieldPath.index? key

/-- The positions in front of a reference are positions in arrays. -/
def PositionsInArrays (current : Option Json) (asked resolved : MutationPath) : Prop :=
  ∀ i n v, asked[i]? = some (.index n) → hasRefs (asked.drop (i + 1)) = true →
    reached? current resolved i = some v → ∃ items, v = .arr items

/-! ## Finding a named element -/

theorem firstNamed_cons_succ {id : String} {v : Json} (hv : Document.answersTo v id = false)
    (rest : List Json) (j : Nat) : FirstNamed id (v :: rest) (j + 1) ↔ FirstNamed id rest j := by
  unfold FirstNamed
  rw [Nat.forall_lt_succ_left]
  simp [hv]

theorem findRef?_eq_some_iff (id : String) (items : List Json) (j : Nat) (v : Json) :
    findRef? id items = some (j, v) ↔ items[j]? = some v ∧ FirstNamed id items j := by
  induction items generalizing j with
  | nil => simp [findRef?]
  | cons u rest ih =>
    rw [findRef?]
    by_cases hu : Document.answersTo u id = true
    · rw [if_pos hu]
      constructor
      · rintro ⟨rfl, rfl⟩
        exact ⟨rfl, ⟨v, rfl, hu⟩, fun k hk => absurd hk (Nat.not_lt_zero k)⟩
      · rintro ⟨hitem, -, hfirst⟩
        cases j with
        | zero =>
          obtain rfl := Option.some.inj hitem
          rfl
        | succ j => exact absurd hu (by simp [hfirst 0 (Nat.succ_pos j) u rfl])
    · rw [if_neg hu]
      cases j with
      | zero =>
        refine iff_of_false (by simp) ?_
        rintro ⟨-, ⟨w, hw, hnamed⟩, -⟩
        obtain rfl := Option.some.inj hw
        exact hu hnamed
      | succ j =>
        rw [firstNamed_cons_succ (Bool.eq_false_iff.mpr hu), List.getElem?_cons_succ, ← ih]
        simp

/-! ## One step -/

theorem reached?_zero (current : Option Json) (resolved : MutationPath) :
    reached? current resolved 0 = current := by
  simp [reached?, Json.get?]

theorem reached?_succ (current : Option Json) (first : Segment) (more : MutationPath) (i : Nat) :
    reached? current (first :: more) (i + 1) =
      reached? (current.bind (·.child? first.text)) more i := by
  simp only [reached?, List.take_succ_cons, List.map_cons, Json.get?, Option.bind_assoc]

/-- What is asked of the first step of a resolved path. -/
def AddressesFirst (current : Option Json) (segment first : Segment) : Prop :=
  match segment with
  | .ref id => ∃ items j, current = some (.arr items) ∧ first = .index j ∧ FirstNamed id items j
  | segment => first = segment

namespace AddressesFirst

variable {current : Option Json} {segment first : Segment}

theorem isRef (h : AddressesFirst current segment first) : first.isRef = false := by
  cases segment with
  | ref id =>
    obtain ⟨-, -, -, rfl, -⟩ := h
    rfl
  | literal key => exact h ▸ rfl
  | index i => exact h ▸ rfl

/-- A key and a position stay. -/
theorem kept (h : AddressesFirst current segment first) (href : segment.isRef = false) :
    first = segment := by
  cases segment with
  | ref id => cases href
  | literal key => exact h
  | index i => exact h

/-- A key stands for itself only. -/
theorem literal {key : String} (h : AddressesFirst current segment (.literal key)) :
    segment = .literal key := by
  cases segment with
  | ref id =>
    obtain ⟨_, _, _, hindex, _⟩ := h
    cases hindex
  | literal key' => exact h.symm
  | index i => cases h

/-- A position stands for itself, or for a reference into an array. -/
theorem index {n : Nat} (h : AddressesFirst current segment (.index n)) :
    segment = .index n ∨ ∃ items, current = some (.arr items) := by
  cases segment with
  | ref id =>
    obtain ⟨items, -, hcurrent, -, -⟩ := h
    exact .inr ⟨items, hcurrent⟩
  | literal key => cases h
  | index i => exact .inl h.symm

end AddressesFirst

theorem fills_nil : Fills [] [] := ⟨rfl, fun i s hs => by simp at hs⟩

theorem fills_cons_iff (segment first : Segment) (rest more : MutationPath) :
    Fills (segment :: rest) (first :: more) ↔
      (segment.isRef = false → first = segment) ∧ Fills rest more := by
  constructor
  · rintro ⟨hlength, hkept⟩
    exact ⟨fun href => Option.some.inj (hkept 0 _ rfl href), Nat.succ.inj hlength,
      fun i => hkept (i + 1)⟩
  · rintro ⟨hfirst, hlength, hkept⟩
    refine ⟨congrArg Nat.succ hlength, fun i s hs href => ?_⟩
    cases i with
    | zero =>
      obtain rfl := Option.some.inj hs
      exact congrArg some (hfirst href)
    | succ i => exact hkept i s hs href

theorem addresses_nil (current : Option Json) : Addresses current [] [] :=
  ⟨fills_nil, fun i id hid => by simp at hid⟩

theorem addresses_cons_iff (current : Option Json) (segment first : Segment)
    (rest more : MutationPath) :
    Addresses current (segment :: rest) (first :: more) ↔
      AddressesFirst current segment first ∧
        Addresses (current.bind (·.child? first.text)) rest more := by
  constructor
  · rintro ⟨hfills, hnamed⟩
    obtain ⟨hkept, hfills⟩ := (fills_cons_iff ..).mp hfills
    refine ⟨?_, hfills, fun i id hid => ?_⟩
    · cases segment with
      | ref id =>
        obtain ⟨items, j, hreached, hfirst, hj⟩ := hnamed 0 id rfl
        exact ⟨items, j, by rwa [reached?_zero] at hreached, Option.some.inj hfirst, hj⟩
      | literal key => exact hkept rfl
      | index i => exact hkept rfl
    · have hstep := hnamed (i + 1) id hid
      rwa [reached?_succ] at hstep
  · rintro ⟨hfirst, hfills, hnamed⟩
    refine ⟨(fills_cons_iff ..).mpr ⟨hfirst.kept, hfills⟩, fun i id hid => ?_⟩
    cases i with
    | zero =>
      obtain rfl := Option.some.inj hid
      obtain ⟨items, j, hcurrent, hindex, hj⟩ := hfirst
      exact ⟨items, j, by rw [reached?_zero, hcurrent], congrArg some hindex, hj⟩
    | succ i =>
      rw [reached?_succ]
      exact hnamed i id hid

theorem unsigned_cons_iff (current : Option Json) (segment first : Segment)
    (rest more : MutationPath) :
    Unsigned current (segment :: rest) (first :: more) ↔
      (∀ key items, segment = .literal key → rest.hasRefs = true → current = some (.arr items) →
        FieldPath.signedIndex? key = FieldPath.index? key) ∧
      Unsigned (current.bind (·.child? first.text)) rest more := by
  unfold Unsigned
  rw [← Nat.and_forall_add_one]
  simp only [reached?_zero, reached?_succ, List.getElem?_cons_zero, List.getElem?_cons_succ,
    Option.some.injEq, List.drop_succ_cons, List.drop_zero]

theorem positionsInArrays_cons_iff (current : Option Json) (segment first : Segment)
    (rest more : MutationPath) :
    PositionsInArrays current (segment :: rest) (first :: more) ↔
      (∀ n v, segment = .index n → rest.hasRefs = true → current = some v →
        ∃ items, v = .arr items) ∧
      PositionsInArrays (current.bind (·.child? first.text)) rest more := by
  unfold PositionsInArrays
  rw [← Nat.and_forall_add_one]
  simp only [reached?_zero, reached?_succ, List.getElem?_cons_zero, List.getElem?_cons_succ,
    Option.some.injEq, List.drop_succ_cons, List.drop_zero]

/-! ## Where no reference is left -/

theorem hasRefs_cons (segment : Segment) (rest : MutationPath) :
    hasRefs (segment :: rest) = (segment.isRef || rest.hasRefs) := rfl

/-- Without references a path is resolved as it is. -/
theorem resolveFrom_of_not_hasRefs (whole : MutationPath) (current : Option Json)
    {asked : MutationPath} (h : asked.hasRefs = false) :
    resolveFrom whole current asked = .ok asked := by
  induction asked generalizing current with
  | nil => rfl
  | cons segment rest ih =>
    rw [hasRefs_cons, Bool.or_eq_false_iff] at h
    cases segment with
    | ref id => cases h.1
    | literal key => rw [resolveFrom, ih _ h.2]; rfl
    | index i => rw [resolveFrom, ih _ h.2]; rfl

/-- Nothing is found from nowhere. -/
theorem resolveFrom_none (whole : MutationPath) {asked : MutationPath}
    (h : asked.hasRefs = true) : resolveFrom whole none asked = .error (.pathResolution whole) := by
  induction asked with
  | nil => cases h
  | cons segment rest ih =>
    rw [hasRefs_cons] at h
    cases segment with
    | ref id => rfl
    | literal key =>
      rw [resolveFrom, Option.bind_none, ih h]
      rfl
    | index i =>
      rw [resolveFrom, Option.bind_none, Option.bind_none, ih h]
      rfl

/-- Nothing can be named from nowhere. -/
theorem not_addresses_none {asked resolved : MutationPath} (h : asked.hasRefs = true) :
    ¬ Addresses none asked resolved := by
  intro haddresses
  obtain ⟨segment, hmem, href⟩ := List.any_eq_true.mp h
  obtain ⟨i, hi⟩ := List.getElem?_of_mem hmem
  cases segment with
  | ref id =>
    obtain ⟨items, j, hreached, -⟩ := haddresses.named i id hi
    cases hreached
  | literal key => cases href
  | index n => cases href

/-! ## The two walks -/

/-- Where the resolution stands after a step of the resolved path. -/
def followed? (current : Option Json) : Segment → Option Json
  | .literal key => current.bind (childByKey? · key)
  | .index i => (current.bind Json.items?).bind (·[i]?)
  | .ref _ => none

theorem exists_arr_of_items? {current : Option Json} {items : List Json}
    (h : current.bind Json.items? = some items) : current = some (.arr items) := by
  obtain ⟨v, rfl, hv⟩ := Option.bind_eq_some_iff.mp h
  cases v with
  | arr items' => rw [Option.some.inj hv]
  | _ => cases hv

theorem resolveFrom_cons_ok_iff (whole : MutationPath) (current : Option Json) (segment : Segment)
    (rest resolved : MutationPath) :
    resolveFrom whole current (segment :: rest) = .ok resolved ↔
      ∃ first more, resolved = first :: more ∧ AddressesFirst current segment first ∧
        resolveFrom whole (followed? current first) rest = .ok more := by
  -- a step that stays is put in front of what the rest is resolved to
  have hkept : ∀ (next : Option Json) (first : Segment),
      (first :: ·) <$> resolveFrom whole next rest = .ok resolved ↔
        ∃ more, resolved = first :: more ∧ resolveFrom whole next rest = .ok more := by
    intro next first
    cases resolveFrom whole next rest with
    | error e => simp [Functor.map, Except.map]
    | ok more => simp [Functor.map, Except.map, eq_comm]
  cases segment with
  | literal key =>
    rw [resolveFrom, hkept]
    exact ⟨fun ⟨more, hmore⟩ => ⟨_, more, hmore.1, rfl, hmore.2⟩,
      fun ⟨_, more, he, hfirst, hmore⟩ => ⟨more, hfirst ▸ he, by cases hfirst; exact hmore⟩⟩
  | index i =>
    rw [resolveFrom, hkept]
    exact ⟨fun ⟨more, hmore⟩ => ⟨_, more, hmore.1, rfl, hmore.2⟩,
      fun ⟨_, more, he, hfirst, hmore⟩ => ⟨more, hfirst ▸ he, by cases hfirst; exact hmore⟩⟩
  | ref id =>
    rw [resolveFrom]
    cases hfound : (current.bind Json.items?).bind (findRef? id) with
    | none =>
      refine iff_of_false (by simp) ?_
      rintro ⟨-, more, -, ⟨items, j, rfl, rfl, hnamed⟩, -⟩
      obtain ⟨v, hitem, -⟩ := hnamed.1
      have hsome := (findRef?_eq_some_iff id items j v).mpr ⟨hitem, hnamed⟩
      rw [Option.bind_some, Json.items?, Option.bind_some, hsome] at hfound
      cases hfound
    | some found =>
      obtain ⟨j, v⟩ := found
      obtain ⟨items, hitems, hfind⟩ := Option.bind_eq_some_iff.mp hfound
      obtain rfl : current = some (.arr items) := exists_arr_of_items? hitems
      obtain ⟨hitem, hnamed⟩ := (findRef?_eq_some_iff id items j v).mp hfind
      have hfollowed : followed? (some (.arr items)) (.index j) = some v := hitem
      rw [hkept]
      constructor
      · rintro ⟨more, he, hmore⟩
        exact ⟨_, more, he, ⟨items, j, rfl, rfl, hnamed⟩, hfollowed ▸ hmore⟩
      · rintro ⟨first, more, he, ⟨items', j', hcurrent, rfl, hnamed'⟩, hmore⟩
        obtain rfl := Json.arr.inj (Option.some.inj hcurrent)
        -- the first named element is unique
        obtain ⟨v', hitem', -⟩ := hnamed'.1
        have hsame := (findRef?_eq_some_iff id items j' v').mpr ⟨hitem', hnamed'⟩
        obtain ⟨rfl, rfl⟩ := Prod.mk.inj (Option.some.inj (hfind.symm.trans hsame))
        rw [hfollowed] at hmore
        exact ⟨more, he, hmore⟩

theorem childByKey?_eq_child? {v : Json} {key : String}
    (h : ∀ items, v = .arr items → FieldPath.signedIndex? key = FieldPath.index? key) :
    childByKey? v key = v.child? key := by
  cases v with
  | arr items => rw [childByKey?, Json.child?, h items rfl]
  | _ => rfl

theorem childByKey?_of_child? {v w : Json} {key : String} (h : v.child? key = some w) :
    childByKey? v key = some w := by
  cases v with
  | arr items =>
    obtain ⟨i, hindex, hitem⟩ := Option.bind_eq_some_iff.mp h
    rw [childByKey?, FieldPath.signedIndex?_of_index? hindex]
    exact hitem
  | _ => exact h

/-- Where the resolution goes on, storage is at the same value. -/
theorem child?_of_followed? {current : Option Json} {first : Segment} {w : Json}
    (hfit : ∀ v, current = some v → v.SlotsFit)
    (hunsigned : ∀ key items, first = .literal key → current = some (.arr items) →
      FieldPath.signedIndex? key = FieldPath.index? key)
    (h : followed? current first = some w) :
    current.bind (·.child? first.text) = some w := by
  cases first with
  | ref id => cases h
  | literal key =>
    obtain ⟨v, rfl, hv⟩ := Option.bind_eq_some_iff.mp h
    rw [childByKey?_eq_child? fun items he => hunsigned key items rfl (congrArg some he)] at hv
    exact hv
  | index i =>
    obtain ⟨items, hitems, hitem⟩ := Option.bind_eq_some_iff.mp h
    obtain rfl := exists_arr_of_items? hitems
    rw [Option.bind_some, Json.child?_text_index (hfit _ rfl).items]
    exact hitem

/-- Where storage goes on, the resolution is at the same value, if a position is one in an array. -/
theorem followed?_of_child? {current : Option Json} {first : Segment} {w : Json}
    (hfit : ∀ v, current = some v → v.SlotsFit) (href : first.isRef = false)
    (hposition : ∀ n v, first = .index n → current = some v → ∃ items, v = .arr items)
    (h : current.bind (·.child? first.text) = some w) : followed? current first = some w := by
  obtain ⟨v, rfl, hchild⟩ := Option.bind_eq_some_iff.mp h
  cases first with
  | ref id => cases href
  | literal key => exact childByKey?_of_child? hchild
  | index i =>
    obtain ⟨items, rfl⟩ := hposition i v rfl rfl
    rw [Json.child?_text_index (hfit _ rfl).items] at hchild
    exact hchild

/-! ## Whole paths -/

section Walks

variable {whole asked resolved : MutationPath} {current : Option Json}

theorem slotsFit_next (hfit : ∀ v, current = some v → v.SlotsFit) (segment : String) :
    ∀ w, current.bind (·.child? segment) = some w → w.SlotsFit := by
  intro w h
  obtain ⟨v, rfl, hchild⟩ := Option.bind_eq_some_iff.mp h
  exact (hfit v rfl).child hchild

/-- What is resolved is addressed in storage, by induction on the path: the resolution and storage
are at the same value as long as there is a reference to come. -/
theorem addresses_of_resolveFrom (hfit : ∀ v, current = some v → v.SlotsFit)
    (h : resolveFrom whole current asked = .ok resolved)
    (hunsigned : Unsigned current asked resolved) : Addresses current asked resolved := by
  induction asked generalizing current resolved with
  | nil =>
    obtain rfl := Except.ok.inj h
    exact addresses_nil current
  | cons segment rest ih =>
    obtain ⟨first, more, rfl, hfirst, hmore⟩ := (resolveFrom_cons_ok_iff ..).mp h
    obtain ⟨hkey, hunsigned⟩ := (unsigned_cons_iff ..).mp hunsigned
    refine (addresses_cons_iff ..).mpr ⟨hfirst, ih (slotsFit_next hfit _) ?_ hunsigned⟩
    by_cases hrest : hasRefs rest = true
    · cases hnext : followed? current first with
      | none =>
        rw [hnext, resolveFrom_none whole hrest] at hmore
        cases hmore
      | some w =>
        rw [child?_of_followed? hfit (fun key items hkey' hcurrent => ?_) hnext, ← hnext]
        · exact hmore
        · exact hkey key items (hkey' ▸ hfirst).literal hrest hcurrent
    · rw [Bool.not_eq_true] at hrest
      rw [resolveFrom_of_not_hasRefs whole _ hrest] at hmore ⊢
      exact hmore

/-- What storage can be made to address is found, by induction on the path. -/
theorem resolveFrom_of_addresses (hfit : ∀ v, current = some v → v.SlotsFit)
    (h : Addresses current asked resolved) (hpositions : PositionsInArrays current asked resolved) :
    resolveFrom whole current asked = .ok resolved := by
  induction asked generalizing current resolved with
  | nil => rw [List.eq_nil_of_length_eq_zero h.length, resolveFrom]
  | cons segment rest ih =>
    obtain ⟨first, more, rfl⟩ := List.exists_cons_of_length_eq_add_one h.length
    obtain ⟨hfirst, hmore⟩ := (addresses_cons_iff ..).mp h
    obtain ⟨hposition, hpositions⟩ := (positionsInArrays_cons_iff ..).mp hpositions
    have hresolved := ih (slotsFit_next hfit _) hmore hpositions
    refine (resolveFrom_cons_ok_iff ..).mpr ⟨first, more, rfl, hfirst, ?_⟩
    by_cases hrest : hasRefs rest = true
    · cases hnext : current.bind (·.child? first.text) with
      | none =>
        rw [hnext] at hmore
        exact absurd hmore (not_addresses_none hrest)
      | some w =>
        rw [followed?_of_child? hfit hfirst.isRef (fun n v hn hcurrent => ?_) hnext, ← hnext]
        · exact hresolved
        · rcases (hn ▸ hfirst).index with hsegment | ⟨items, hitems⟩
          · exact hposition n v hsegment hrest hcurrent
          · exact ⟨items, Option.some.inj (hcurrent.symm.trans hitems)⟩
    · rw [Bool.not_eq_true] at hrest
      rw [resolveFrom_of_not_hasRefs whole _ hrest] at hresolved ⊢
      exact hresolved

/-- Whatever goes wrong, the error names the path that was asked for. -/
theorem resolveFrom_error {e : Error} (h : resolveFrom whole current asked = .error e) :
    e = .pathResolution whole := by
  have hkept : ∀ (first : Segment) (r : Except Error MutationPath),
      (first :: ·) <$> r = .error e → r = .error e := by
    rintro first (e' | more) hr
    · exact congrArg _ (Except.error.inj hr)
    · cases hr
  induction asked generalizing current with
  | nil => cases h
  | cons segment rest ih =>
    cases segment with
    | literal key => exact ih (hkept _ _ h)
    | index i => exact ih (hkept _ _ h)
    | ref id =>
      rw [resolveFrom] at h
      cases hfound : (current.bind Json.items?).bind (findRef? id) with
      | none =>
        rw [hfound] at h
        exact (Except.error.inj h).symm
      | some found =>
        rw [hfound] at h
        exact ih (hkept _ _ h)

theorem resolve_eq_resolveFrom (doc : Option Json) (asked : MutationPath) :
    resolve doc asked = resolveFrom asked doc asked := by
  unfold resolve
  by_cases href : asked.hasRefs = true
  · rw [if_pos href]
  · rw [if_neg href, resolveFrom_of_not_hasRefs _ _ (Bool.not_eq_true _ ▸ href)]

/-- A resolved path has no references, and the keys and positions that were asked for. -/
theorem fills_of_resolveFrom (h : resolveFrom whole current asked = .ok resolved) :
    resolved.hasRefs = false ∧ Fills asked resolved := by
  induction asked generalizing current resolved with
  | nil =>
    obtain rfl := Except.ok.inj h
    exact ⟨rfl, fills_nil⟩
  | cons segment rest ih =>
    obtain ⟨first, more, rfl, hfirst, hmore⟩ := (resolveFrom_cons_ok_iff ..).mp h
    obtain ⟨hplain, hfills⟩ := ih hmore
    refine ⟨?_, (fills_cons_iff ..).mpr ⟨hfirst.kept, hfills⟩⟩
    rw [hasRefs_cons, hfirst.isRef, hplain]
    rfl

end Walks

/-- **Resolution and storage address the same elements.** A resolved path has no references, and
the keys and positions that were asked for. Storage, following it, is at an array wherever a
reference was asked for, with the position of the first element that answers to it; so it is for
every path whose keys spell slots the way storage reads them. Resolution fails only with an error
that names the path asked for, and only where storage cannot be made to address what was asked for
by a path whose positions are positions in arrays. -/
theorem resolve_addresses (doc : Json) (asked : MutationPath) (hfit : doc.SlotsFit) :
    (∀ resolved, resolve (some doc) asked = .ok resolved → resolved.hasRefs = false ∧
      Fills asked resolved ∧
      (Unsigned (some doc) asked resolved → Addresses (some doc) asked resolved)) ∧
    ∀ e, resolve (some doc) asked = .error e → e = .pathResolution asked ∧
      ¬ ∃ resolved, Addresses (some doc) asked resolved ∧
        PositionsInArrays (some doc) asked resolved := by
  have hfit' : ∀ v, some doc = some v → v.SlotsFit := fun v he => Option.some.inj he ▸ hfit
  rw [resolve_eq_resolveFrom]
  refine ⟨fun resolved h => ?_, fun e h => ⟨resolveFrom_error h, ?_⟩⟩
  · obtain ⟨hplain, hfills⟩ := fills_of_resolveFrom h
    exact ⟨hplain, hfills, addresses_of_resolveFrom hfit' h⟩
  · rintro ⟨resolved, haddresses, hpositions⟩
    rw [resolveFrom_of_addresses hfit' haddresses hpositions] at h
    cases h

/-- A document with an array of one element that has an identity. -/
def namedRows : Json := .obj [("rows", .arr [.obj [("_id", .str "c")]])]

theorem resolve_addresses_rows :
    namedRows.SlotsFit ∧
      resolve (some namedRows) [.literal "rows", .ref "c"] = .ok [.literal "rows", .index 0] ∧
      Addresses (some namedRows) [.literal "rows", .ref "c"] [.literal "rows", .index 0] := by
  have hid : (Json.str "c").SlotsFit :=
    Json.SlotsFit.of_child (fun items he => by cases he) fun segment w hw => by cases hw
  have hrow : (Json.obj [("_id", .str "c")]).SlotsFit := by
    refine Json.SlotsFit.of_child (fun items he => by cases he) fun segment w hw => ?_
    obtain ⟨-, rfl⟩ := by simpa [Json.child?, Members.get?] using hw
    exact hid
  have hrows : (Json.arr [.obj [("_id", .str "c")]]).SlotsFit := by
    refine Json.SlotsFit.of_child (fun items he => ?_) fun segment w hw => ?_
    · obtain rfl := Json.arr.inj he
      decide
    · obtain ⟨i, -, hitem⟩ := Option.bind_eq_some_iff.mp hw
      obtain rfl := List.mem_singleton.mp (List.mem_of_getElem? hitem)
      exact hrow
  have hdoc : namedRows.SlotsFit := by
    refine Json.SlotsFit.of_child (fun items he => by cases he) fun segment w hw => ?_
    obtain ⟨-, rfl⟩ := by simpa [namedRows, Json.child?, Members.get?] using hw
    exact hrows
  refine ⟨hdoc, rfl, ((resolve_addresses namedRows _ hdoc).1 _ rfl).2.2 ?_⟩
  intro i key items hkey hrefs hreached
  -- storage is at the root, which is no array
  cases i with
  | zero => cases hreached
  | succ i => cases i <;> simp at hkey

/-! ### Positions that are keys, and signed slots -/

/-- A document in which a position is the key of a member. -/
def keyedRows : Json := .obj [("o", .obj [("0", .arr [.obj [("_id", .str "c")]])])]

/-- A document in which a slot can be spelled with a sign. -/
def signedRows : Json :=
  .obj [("rows", .arr [.obj [("cells", .arr [.obj [("_id", .str "c")]])]])]

/-- Both conditions are needed. Storage takes a position for a key where resolution fails, and
resolution reads a signed slot where storage reaches nothing. -/
theorem resolve_disagrees :
    (resolve (some keyedRows) [.literal "o", .index 0, .ref "c"] =
        .error (.pathResolution [.literal "o", .index 0, .ref "c"]) ∧
      Addresses (some keyedRows) [.literal "o", .index 0, .ref "c"]
        [.literal "o", .index 0, .index 0]) ∧
    (resolve (some signedRows) [.literal "rows", .literal "+0", .literal "cells", .ref "c"] =
        .ok [.literal "rows", .literal "+0", .literal "cells", .index 0] ∧
      ¬ Addresses (some signedRows) [.literal "rows", .literal "+0", .literal "cells", .ref "c"]
        [.literal "rows", .literal "+0", .literal "cells", .index 0]) := by
  refine ⟨⟨rfl, ?_⟩, rfl, fun h => ?_⟩
  · refine (addresses_cons_iff ..).mpr ⟨rfl, (addresses_cons_iff ..).mpr ⟨rfl, ?_⟩⟩
    refine (addresses_cons_iff ..).mpr ⟨⟨_, 0, rfl, rfl, ?_⟩, ?_⟩
    · exact ⟨⟨_, rfl, rfl⟩, fun k hk => absurd hk (Nat.not_lt_zero k)⟩
    · exact addresses_nil _
  · obtain ⟨items, j, hreached, -⟩ := h.named 3 "c" rfl
    cases hreached

end MutationPath
end DocWatch
