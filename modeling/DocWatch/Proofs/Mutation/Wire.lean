import DocWatch.Mutation.Wire
import DocWatch.Proofs.Action
import Mathlib.Algebra.Group.Nat.Defs

/-!
# Records survive the wire

What can be read of a record can be written and read again. Not every edit has a wire form that
reads back: a literal step may not start with an ampersand, positions have to fit 64 bits, an
element may not be null, and a new document has to be an object. Everything that was read is like
this (`Mutation.IsWire`), and everything that is like this reads back (`Mutation.ofJson_toJson`).

- `Segment.IsWire`, `MutationPath.IsWire`, `Mutation.IsWire`: edits that come from the wire.
- `Mutation.ofJson_wireOf`: the form in which an error names a record reads as the record.
-/

namespace DocWatch

/-! ## Steps and paths -/

/-- A step that was read. -/
def Segment.IsWire : Segment → Prop
  | .literal key => ∀ rest, key.toList ≠ '&' :: rest
  | .index position => position < 2 ^ 64
  | .ref _ => True

theorem Segment.isWire_ofText (text : String) : (ofText text).IsWire := by
  unfold ofText
  split
  · exact trivial
  · rename_i h
    exact fun rest he => h rest he

theorem Segment.isWire_of_ofJson {v : Json} {s : Segment} (h : ofJson v = .ok s) : s.IsWire := by
  unfold ofJson at h
  split at h
  · rw [← Except.ok.inj h]
    exact isWire_ofText _
  · rename_i i fits
    by_cases hneg : i < 0
    · rw [if_pos hneg] at h
      cases h
    · rw [if_neg hneg] at h
      rw [← Except.ok.inj h]
      show i.toNat < 2 ^ 64
      omega
  · cases h

/-- A step that was read reads back. -/
theorem Segment.ofJson_toJson {s : Segment} (h : s.IsWire) : ofJson s.toJson = .ok s := by
  cases s with
  | literal key =>
    show Except.ok (ofText key) = _
    unfold ofText
    split
    · rename_i rest he
      exact absurd he (h rest)
    · rfl
  | index position =>
    have hlt : position < 2 ^ 64 := h
    show ofJson (.num (Number.ofNat position)) = _
    rw [Number.ofNat, dif_pos hlt]
    rw [ofJson, if_neg (by omega), Int.toNat_natCast]
  | ref id =>
    show Except.ok (ofText ("&" ++ id)) = _
    have htext : ("&" ++ id).toList = '&' :: id.toList := by
      rw [String.toList_append]
      rfl
    unfold ofText
    rw [htext]
    show Except.ok (Segment.ref (String.ofList id.toList)) = _
    rw [String.ofList_toList]

/-- A path that was read. -/
def MutationPath.IsWire (path : MutationPath) : Prop := ∀ s ∈ path, s.IsWire

theorem MutationPath.isWire_of_ofItems {items : List Json} {path : MutationPath}
    (h : ofItems items = .ok path) : path.IsWire := by
  induction items generalizing path with
  | nil =>
    rw [← Except.ok.inj h]
    exact fun s hs => absurd hs List.not_mem_nil
  | cons v rest ih =>
    obtain ⟨segment, hv, h⟩ := exists_of_bind_ok h
    obtain ⟨path', hrest, h⟩ := exists_of_bind_ok h
    rw [← Except.ok.inj h]
    intro s hs
    rcases List.mem_cons.mp hs with rfl | hs
    · exact Segment.isWire_of_ofJson hv
    · exact ih hrest s hs

theorem MutationPath.isWire_of_ofJson {v : Json} {path : MutationPath}
    (h : ofJson v = .ok path) : path.IsWire := by
  cases v with
  | arr items => exact isWire_of_ofItems h
  | _ => cases h

/-- A path that was read reads back. -/
theorem MutationPath.ofJson_toJson {path : MutationPath} (h : path.IsWire) :
    ofJson path.toJson = .ok path := by
  show ofItems (path.map Segment.toJson) = _
  induction path with
  | nil => rfl
  | cons segment rest ih =>
    have hrest := ih fun s hs => h s (List.mem_cons_of_mem segment hs)
    rw [List.map_cons, ofItems, Segment.ofJson_toJson (h segment List.mem_cons_self), hrest]
    rfl

namespace Mutation

/-! ## Edits -/

/-- An edit that was read. -/
def IsWire : Mutation → Prop
  | .set path _ | .unset path => path.IsWire
  | .remove path _ index => path.IsWire ∧ ∀ i, index = some i → i < 2 ^ 64
  | .insert path index element =>
    path.IsWire ∧ (∀ i, index = some i → i < 2 ^ 64) ∧ element ≠ .null
  | .create document => document.isObject = true
  | .delete => True

/-- What has been read of a record so far. -/
structure Draft.IsWire (draft : Draft) : Prop where
  path : ∀ path, draft.path = some path → path.IsWire
  index : ∀ s, draft.index = some s → s.IsWire
  element : draft.element ≠ some .null

theorem Draft.isWire_empty : Draft.empty.IsWire where
  path := fun _ h => by cases h
  index := fun _ h => by cases h
  element := fun h => by cases h

theorem isWire_of_optional {α : Type} {P : α → Prop} {read : Json → Except Wire.DecodeError α}
    (hread : ∀ v a, read v = .ok a → P a) {v : Json} {a? : Option α}
    (h : Wire.optional read v = .ok a?) : ∀ a, a? = some a → P a := by
  rintro a rfl
  unfold Wire.optional at h
  split at h
  · cases h
  · cases hv : read v with
    | error e =>
      rw [hv] at h
      cases h
    | ok a' =>
      rw [hv] at h
      obtain rfl : a' = a := Option.some.inj (Except.ok.inj h)
      exact hread v a' hv

theorem value?_ne_null (v : Json) : value? v ≠ some .null := by
  cases v <;> simp [value?, Json.isNull]

/-- Each member that is read keeps the draft like this. -/
theorem Draft.isWire_member {draft draft' : Draft} (hdraft : draft.IsWire) {key : String}
    {v : Json} (h : layout.member draft key v = .ok draft') : draft'.IsWire := by
  simp only [layout] at h
  split at h
  · obtain ⟨kind, -, h⟩ := exists_of_bind_ok h
    rw [← Except.ok.inj h]
    exact ⟨hdraft.path, hdraft.index, hdraft.element⟩
  · obtain ⟨path, hv, h⟩ := exists_of_bind_ok h
    rw [← Except.ok.inj h]
    exact ⟨isWire_of_optional (fun _ _ => MutationPath.isWire_of_ofJson) hv, hdraft.index,
      hdraft.element⟩
  · rw [← Except.ok.inj h]
    exact ⟨hdraft.path, hdraft.index, hdraft.element⟩
  · rw [← Except.ok.inj h]
    exact ⟨hdraft.path, hdraft.index, hdraft.element⟩
  · obtain ⟨index, hv, h⟩ := exists_of_bind_ok h
    rw [← Except.ok.inj h]
    exact ⟨hdraft.path, isWire_of_optional (fun _ _ => Segment.isWire_of_ofJson) hv,
      hdraft.element⟩
  · rw [← Except.ok.inj h]
    exact ⟨hdraft.path, hdraft.index, value?_ne_null v⟩
  · rw [← Except.ok.inj h]
    exact ⟨hdraft.path, hdraft.index, hdraft.element⟩
  · rw [← Except.ok.inj h]
    exact hdraft

theorem Draft.isWire_members {draft draft' : Draft} (hdraft : draft.IsWire)
    {fields : Members Json} (h : layout.members draft fields = .ok draft') : draft'.IsWire := by
  induction fields generalizing draft with
  | nil =>
    rw [← Except.ok.inj h]
    exact hdraft
  | cons kv rest ih =>
    obtain ⟨next, hv, h⟩ := exists_of_bind_ok h
    exact ih (Draft.isWire_member hdraft hv) h

theorem Draft.isWire_of_read {v : Json} {draft : Draft}
    (h : layout.read Draft.empty v = .ok draft) : draft.IsWire := by
  unfold Wire.Layout.read at h
  split at h
  · exact isWire_members isWire_empty h
  · obtain ⟨filled, hmembers, h⟩ := exists_of_bind_ok h
    dsimp only at h
    split at h
    · cases h
    split at h
    · cases h
    · rw [← Except.ok.inj h]
      exact isWire_members isWire_empty hmembers
  · cases h

theorem index_of_position? {kind : String} {index : Option Segment} {i? : Option Nat}
    (h : position? kind index = .ok i?) (hindex : ∀ s, index = some s → s.IsWire) :
    ∀ i, i? = some i → i < 2 ^ 64 := by
  rintro i rfl
  unfold position? at h
  split at h
  · cases h
  · obtain rfl := Option.some.inj (Except.ok.inj h)
    exact hindex _ rfl
  · cases h

theorem requiredPath_ok {kind : String} {path? : Option MutationPath} {path : MutationPath}
    (h : requiredPath kind path? = .ok path) : path? = some path := by
  cases path? with
  | none => cases h
  | some p => rw [Except.ok.inj h]

/-- Every edit that a draft describes is like this. -/
theorem isWire_of_ofDraft {kind : String} {draft : Draft} (hdraft : draft.IsWire) {m : Mutation}
    (h : ofDraft kind draft = .ok m) : m.IsWire := by
  unfold ofDraft at h
  obtain ⟨index, hindex, h⟩ := exists_of_bind_ok h
  have hpositions := index_of_position? hindex hdraft.index
  split at h
  · obtain ⟨path, hpath, h⟩ := exists_of_bind_ok h
    rw [← Except.ok.inj h]
    exact hdraft.path path (requiredPath_ok hpath)
  · obtain ⟨path, hpath, h⟩ := exists_of_bind_ok h
    rw [← Except.ok.inj h]
    exact hdraft.path path (requiredPath_ok hpath)
  · obtain ⟨path, hpath, h⟩ := exists_of_bind_ok h
    rw [← Except.ok.inj h]
    exact ⟨hdraft.path path (requiredPath_ok hpath), hpositions⟩
  · obtain ⟨path, hpath, h⟩ := exists_of_bind_ok h
    split at h
    · rename_i element helement
      rw [← Except.ok.inj h]
      refine ⟨hdraft.path path (requiredPath_ok hpath), hpositions, ?_⟩
      rintro rfl
      exact hdraft.element helement
    · cases h
  · split at h
    · rw [← Except.ok.inj h]
      rfl
    · cases h
  · rw [← Except.ok.inj h]
    exact trivial
  · cases h

/-- Every edit that was read is like this. -/
theorem isWire_of_ofJson {v : Json} {m : Mutation} (h : ofJson v = .ok m) : m.IsWire := by
  unfold ofJson at h
  cases hread : layout.read Draft.empty v with
  | error e =>
    rw [hread] at h
    cases h
  | ok draft =>
    rw [hread] at h
    simp only at h
    split at h
    · cases h
    · exact isWire_of_ofDraft (Draft.isWire_of_read hread) h

/-! ## Reading what was written -/

theorem value?_getD (v : Json) : (value? v).getD .null = v := by
  cases v <;> rfl

theorem value?_of_ne_null {v : Json} (h : v ≠ .null) : value? v = some v := by
  cases v with
  | null => exact absurd rfl h
  | _ => rfl

/-- A path goes into the draft. -/
theorem members_path {path : MutationPath} (h : path.IsWire) (draft : Draft)
    (rest : Members Json) : layout.members draft (("path", path.toJson) :: rest) =
      layout.members { draft with path := some path } rest := by
  have hread : Wire.optional MutationPath.ofJson path.toJson = .ok (some path) := by
    show some <$> MutationPath.ofJson path.toJson = _
    rw [MutationPath.ofJson_toJson h]
    rfl
  simp only [Wire.Layout.members, layout, hread]
  rfl

/-- A key goes into a draft without one, if there is a key. -/
theorem members_key {draft : Draft} (hkey : draft.key = none) (key : Option String)
    (rest : Members Json) : layout.members draft (member "key" (key.map .str) ++ rest) =
      layout.members { draft with key := key.map .str } rest := by
  cases key with
  | none =>
    show layout.members draft rest = layout.members { draft with key := none } rest
    rw [← hkey]
  | some key => rfl

/-- A position goes into a draft without one, if there is a position. -/
theorem members_index {draft : Draft} (hindex : draft.index = none) {index : Option Nat}
    (h : ∀ i, index = some i → i < 2 ^ 64) (rest : Members Json) :
    layout.members draft (member "index" (index.map .nat) ++ rest) =
      layout.members { draft with index := index.map .index } rest := by
  cases index with
  | none =>
    show layout.members draft rest = layout.members { draft with index := none } rest
    rw [← hindex]
  | some i =>
    have hread : Wire.optional Segment.ofJson (.nat i) = .ok (some (.index i)) := by
      show some <$> Segment.ofJson (Segment.index i).toJson = _
      rw [Segment.ofJson_toJson (show (Segment.index i).IsWire from h i rfl)]
      rfl
    show layout.members draft (("index", .nat i) :: rest) = _
    simp only [Wire.Layout.members, layout, hread]
    rfl

theorem position?_map (kind : String) (index : Option Nat) :
    position? kind (index.map .index) = .ok index := by
  cases index <;> rfl

/-- A record whose other members fill a draft of its kind is the edit that the draft describes. -/
theorem ofJson_of_members {kind : String} {fields : Members Json} {draft : Draft}
    (h : layout.members { Draft.empty with kind := some kind } fields = .ok draft)
    (hkind : draft.kind = some kind) :
    ofJson (.obj (("type", .str kind) :: fields)) = ofDraft kind draft := by
  have hread : layout.read Draft.empty (.obj (("type", .str kind) :: fields)) = .ok draft := h
  simp only [ofJson, hread, hkind]

/-- **Records survive the wire.** An edit that was read reads back from its wire form. -/
theorem ofJson_toJson {m : Mutation} (h : m.IsWire) : ofJson m.toJson = .ok m := by
  cases m with
  | set path value =>
    have hfields : layout.members { Draft.empty with kind := some "set" }
        [("path", path.toJson), ("value", value)] =
          .ok ⟨some "set", some path, value? value, none, none, none, none⟩ :=
      members_path h _ _
    refine (ofJson_of_members hfields rfl).trans ?_
    show Except.ok (Mutation.set path ((value? value).getD .null)) = _
    rw [value?_getD]
  | unset path =>
    have hfields : layout.members { Draft.empty with kind := some "unset" }
        [("path", path.toJson)] =
          .ok ⟨some "unset", some path, none, none, none, none, none⟩ :=
      members_path h _ _
    exact ofJson_of_members hfields rfl
  | remove path key index =>
    obtain ⟨hpath, hindex⟩ := h
    have hfields : layout.members { Draft.empty with kind := some "remove" }
        (("path", path.toJson) :: (member "key" (key.map .str) ++
          member "index" (index.map .nat))) =
          .ok ⟨some "remove", some path, none, key.map .str, index.map .index, none, none⟩ := by
      -- the optional members go in one after another
      rw [members_path hpath, members_key rfl, ← List.append_nil (member "index" _),
        members_index rfl hindex]
      rfl
    refine (ofJson_of_members hfields rfl).trans ?_
    simp only [ofDraft, position?_map]
    cases key <;> rfl
  | insert path index element =>
    obtain ⟨hpath, hindex, hne⟩ := h
    have hfields : layout.members { Draft.empty with kind := some "insert" }
        (("path", path.toJson) :: (member "index" (index.map .nat) ++ [("el", element)])) =
          .ok ⟨some "insert", some path, none, none, index.map .index, some element, none⟩ := by
      rw [members_path hpath, members_index rfl hindex, ← value?_of_ne_null hne]
      rfl
    refine (ofJson_of_members hfields rfl).trans ?_
    simp only [ofDraft, position?_map]
    rfl
  | create document =>
    cases document with
    | obj fields => rfl
    | _ => cases h
  | delete => rfl

/-- How an error names a record: in the wire form of what it reads as, or as it is if it cannot be
read. -/
def wireOf (record : Json) : Json :=
  match ofJson record with
  | .ok m => m.toJson
  | .error _ => record

/-- The form in which an error names a record reads as the record. -/
theorem ofJson_wireOf (record : Json) : ofJson (wireOf record) = ofJson record := by
  unfold wireOf
  cases h : ofJson record with
  | error e => exact h
  | ok m => exact ofJson_toJson (isWire_of_ofJson h)

end Mutation
end DocWatch
