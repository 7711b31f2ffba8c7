import DocWatch.Proofs.Action
import DocWatch.Proofs.Json.Access
import DocWatch.Proofs.Json.Alike

/-!
# Values that are written piece by piece

A value that is built by writes at paths, where each write puts in what a fixed value has at the
path, is a draft of that value: alike to it, or an object whose members are drafts of what its keys
lead to. However the paths overlap, no write fails, and none takes away what is there already.

- `Json.Draft`: the relation of what was written to the value that it was taken from.
- `Json.Met`: the two have alike values at a path.
- `Json.Draft.set`: one more piece. `Json.Draft.writeAll`: all of them.
- `Json.Holds`, `Json.exists_writeAll_iff`: values at paths can be written, one after another, into
  a document that has all of them exactly if there is such a document.
-/

namespace DocWatch.Json

/-! ## Writing what is there -/

/-- A write of a value that is alike to what the path reaches succeeds and changes nothing that a
query could see. -/
theorem set_of_get? {v w value : Json} {path : FieldPath} (hv : v.KeysDistinct)
    (hget : v.get? path = some w) (hvalue : Alike value w) :
    (v.set path value).2 = none ∧ Alike (v.set path value).1 v := by
  induction path generalizing v with
  | nil =>
    obtain rfl := Option.some.inj hget
    exact ⟨rfl, hvalue⟩
  | cons segment rest ih =>
    rw [get?, Option.bind_eq_some_iff] at hget
    obtain ⟨inner, hchild, hinner⟩ := hget
    cases v with
    | obj fields =>
      have hfield : Members.get? fields segment = some inner := hchild
      obtain ⟨herror, halike⟩ := ih (hv.of_field? hchild) hinner
      rw [set_obj, hfield, Option.getD_some]
      refine ⟨herror, (alike_obj_iff _ _).mpr ⟨Members.nodup_insert hv.1 _ _, hv.1, fun key => ?_⟩⟩
      rw [Members.get?_insert]
      by_cases hkey : segment = key
      · rw [if_pos hkey, ← hkey, hfield]
        exact .some halike
      · rw [if_neg hkey]
        exact (Alike.refl hv).child? key
    | arr items =>
      obtain ⟨i, hindex, hitem⟩ := Option.bind_eq_some_iff.mp hchild
      obtain ⟨hlt, hi⟩ := List.getElem?_eq_some_iff.mp hitem
      have hdistinct : inner.KeysDistinct :=
        (keysDistinctItems_iff items).mp hv inner (List.mem_of_getElem? hitem)
      obtain ⟨herror, halike⟩ := ih hdistinct hinner
      -- a slot that something is read below is not null, and so it is not opened
      have hslot : (openSlot inner).set rest value = inner.set rest value := by
        cases rest with
        | nil => rfl
        | cons next rest =>
          rw [openSlot_of_ne_null]
          rintro rfl
          cases hinner
      rw [set_arr hindex (pad_of_lt hlt segment), hitem, Option.getD_some, hslot]
      refine ⟨herror, ?_⟩
      have hset := Alike.arr_set ((alike_arr_iff _ _).mp (Alike.refl hv)) i halike
      have hsame : items.set i inner = items := by rw [← hi, List.set_getElem_self]
      rwa [hsame] at hset
    | _ => cases hchild

/-! ## Drafts -/

/-- What was written of a value so far: something alike to it, or an object of drafts of what its
keys lead to in the value. The value need not be an object, for a key can be a position as well. -/
inductive Draft : Json → Json → Prop
  | done {v d : Json} : Alike v d → Draft v d
  | begun {fields : Members Json} {d : Json} : (Members.keys fields).Nodup →
      (∀ key v, Members.get? fields key = some v → ∃ w, d.child? key = some w) →
      (∀ key v w, Members.get? fields key = some v → d.child? key = some w → Draft v w) →
      Draft (.obj fields) d

/-- An object without members is a draft of anything. -/
theorem Draft.empty (d : Json) : Draft (.obj []) d :=
  .begun List.nodup_nil (fun _ _ h => nomatch h) fun _ _ _ h => nomatch h

/-- Two values have alike values at a path. -/
def Met (v d : Json) (path : FieldPath) : Prop :=
  ∃ a b, v.get? path = some a ∧ d.get? path = some b ∧ Alike a b

theorem Alike.met {v d w : Json} (h : Alike v d) {path : FieldPath} (hd : d.get? path = some w) :
    Met v d path := by
  obtain ⟨a, ha, hab⟩ := exists_left_of_rel (h.get? path) hd
  exact ⟨a, w, ha, hd, hab⟩

theorem met_cons_iff {v d : Json} {key : String} {rest : FieldPath} :
    Met v d (key :: rest) ↔
      ∃ inner inner', v.child? key = some inner ∧ d.child? key = some inner' ∧
        Met inner inner' rest := by
  unfold Met
  simp only [get?, Option.bind_eq_some_iff]
  constructor
  · rintro ⟨a, b, ⟨inner, hv, ha⟩, ⟨inner', hd, hb⟩, hab⟩
    exact ⟨inner, inner', hv, hd, a, b, ha, hb, hab⟩
  · rintro ⟨inner, inner', hv, hd, a, b, ha, hb, hab⟩
    exact ⟨a, b, ⟨inner, hv, ha⟩, ⟨inner', hd, hb⟩, hab⟩

theorem met_nil_iff {v d : Json} : Met v d [] ↔ Alike v d := by
  simp [Met, get?]

/-- A later draft, in which nothing is lost. -/
structure Draft.Extends (d v v' : Json) : Prop where
  draft : Draft v' d
  keeps : ∀ path, Met v d path → Met v' d path

/-- What is alike to the value extends every draft of it. -/
theorem Draft.extends_of_alike {d v v' : Json} (h : Alike v' d) : Draft.Extends d v v' := by
  refine ⟨.done h, fun path hpath => ?_⟩
  obtain ⟨_, _, -, hb, -⟩ := hpath
  exact h.met hb

/-- A draft in place of one member, that extends what was there, extends the object. -/
theorem Draft.extends_insert {fields : Members Json} {d inner v' : Json} {segment : String}
    (h : Draft (.obj fields) d) (halike : ¬ Alike (.obj fields) d)
    (hchild : d.child? segment = some inner)
    (hnext : Draft.Extends inner ((Members.get? fields segment).getD (.obj [])) v') :
    Draft.Extends d (.obj fields) (.obj (Members.insert fields segment v')) := by
  cases h with
  | done h => exact absurd h halike
  | begun hnodup hfound hinner =>
    refine ⟨.begun (Members.nodup_insert hnodup _ _) ?_ ?_, fun path hpath => ?_⟩
    · intro key v hv
      rw [Members.get?_insert] at hv
      by_cases hkey : segment = key
      · exact ⟨inner, hkey ▸ hchild⟩
      · rw [if_neg hkey] at hv
        exact hfound key v hv
    · intro key v w hv hw
      rw [Members.get?_insert] at hv
      by_cases hkey : segment = key
      · subst hkey
        rw [if_pos rfl] at hv
        obtain rfl := Option.some.inj hv
        obtain rfl := Option.some.inj (hchild.symm.trans hw)
        exact hnext.draft
      · rw [if_neg hkey] at hv
        exact hinner key v w hv hw
    · cases path with
      | nil => exact absurd (met_nil_iff.mp hpath) halike
      | cons key below =>
        obtain ⟨a, b, ha, hb, hab⟩ := met_cons_iff.mp hpath
        have hfield : Members.get? fields key = some a := ha
        by_cases hkey : segment = key
        · subst hkey
          obtain rfl := Option.some.inj (hchild.symm.trans hb)
          rw [hfield, Option.getD_some] at hnext
          refine met_cons_iff.mpr ⟨v', inner, ?_, hb, hnext.keeps below hab⟩
          rw [child?, Members.get?_insert, if_pos rfl]
        · refine met_cons_iff.mpr ⟨a, b, ?_, hb, hab⟩
          rw [child?, Members.get?_insert, if_neg hkey, hfield]

/-- What stands under a key of a draft, if anything does, is a draft of what the key leads to. -/
theorem Draft.member {fields : Members Json} {d inner : Json} {segment : String}
    (h : Draft (.obj fields) d) (hchild : d.child? segment = some inner) :
    Draft ((Members.get? fields segment).getD (.obj [])) inner := by
  cases hfield : Members.get? fields segment with
  | none => exact .empty inner
  | some v =>
    cases h with
    | done halike =>
      obtain ⟨w, hw, hvw⟩ := exists_right_of_rel (halike.child? segment) hfield
      obtain rfl := Option.some.inj (hchild.symm.trans hw)
      exact .done hvw
    | begun _ _ hinner => exact hinner segment v inner hfield hchild

/-- A write of what the value has at a path succeeds on a draft of it and loses nothing. -/
theorem Draft.set {d v w value : Json} {path : FieldPath} (hd : d.KeysDistinct) (h : Draft v d)
    (hget : d.get? path = some w) (hvalue : Alike value w) :
    (v.set path value).2 = none ∧ Draft.Extends d v (v.set path value).1 := by
  induction path generalizing v d with
  | nil =>
    obtain rfl := Option.some.inj hget
    exact ⟨rfl, extends_of_alike hvalue⟩
  | cons segment rest ih =>
    by_cases halike : Alike v d
    · -- all is there, be it in an object or in an array
      obtain ⟨w', hw', hww'⟩ := exists_left_of_rel (halike.get? _) hget
      obtain ⟨herror, hset⟩ := set_of_get? halike.left hw' (hvalue.trans hww'.symm)
      exact ⟨herror, extends_of_alike (hset.trans halike)⟩
    · rw [get?, Option.bind_eq_some_iff] at hget
      obtain ⟨inner, hchild, hget⟩ := hget
      have hsegment : d.get? [segment] = some inner := by rw [get?, hchild, Option.bind_some, get?]
      cases h with
      | done h => exact absurd h halike
      | @begun fields _ hnodup hfound hinner =>
        have hobj : Draft (.obj fields) d := .begun hnodup hfound hinner
        obtain ⟨herror, hnext⟩ := ih (hd.get? hsegment) (hobj.member hchild) hget
        rw [set_obj]
        exact ⟨herror, hobj.extends_insert halike hchild hnext⟩

/-! ## Writing one after another -/

/-- Values and where they are to be written. -/
abbrev Pieces := List (FieldPath × Json)

/-- Writes values at paths, one after another. -/
def writeAll (v : Json) (pieces : Pieces) : Except AccessError Json :=
  pieces.foldlM (fun v piece => v.write piece.1 piece.2) v

theorem writeAll_cons (v : Json) (piece : FieldPath × Json) (rest : Pieces) :
    v.writeAll (piece :: rest) = v.write piece.1 piece.2 >>= (·.writeAll rest) :=
  List.foldlM_cons

theorem writeAll_append (v : Json) (pieces more : Pieces) :
    v.writeAll (pieces ++ more) = v.writeAll pieces >>= (·.writeAll more) :=
  List.foldlM_append

theorem write_ok_iff {v w value : Json} {path : FieldPath} :
    v.write path value = .ok w ↔ v.set path value = (w, none) := by
  unfold write
  rcases v.set path value with ⟨w', _ | e⟩ <;> simp

/-- A document has an equal value at each of the paths. -/
def Holds (d : Json) (pieces : Pieces) : Prop :=
  ∀ path v, (path, v) ∈ pieces → ∃ w, d.get? path = some w ∧ w.equiv v = true

/-- No object in the values has a key twice. -/
def PiecesDistinct (pieces : Pieces) : Prop := ∀ path v, (path, v) ∈ pieces → v.KeysDistinct

theorem keysDistinct_writeAll {pieces : Pieces} (hpieces : PiecesDistinct pieces) {v w : Json}
    (hv : v.KeysDistinct) (h : v.writeAll pieces = .ok w) : w.KeysDistinct := by
  induction pieces generalizing v with
  | nil =>
    obtain rfl := Except.ok.inj h
    exact hv
  | cons piece rest ih =>
    rw [writeAll_cons] at h
    obtain ⟨u, hu, hrest⟩ := exists_of_bind_ok h
    have hset := ((Alike.refl hv).set piece.1 (hpieces _ _ List.mem_cons_self)).1.left
    rw [write_ok_iff.mp hu] at hset
    exact ih (fun path v hmem => hpieces path v (List.mem_cons_of_mem _ hmem)) hset hrest

/-- Pieces of one value can be written one after another, and then all of them are there. -/
theorem Draft.writeAll {d v : Json} (hd : d.KeysDistinct) (h : Draft v d) {pieces : Pieces}
    (hpieces : ∀ path value, (path, value) ∈ pieces →
      ∃ b, d.get? path = some b ∧ Alike value b) :
    ∃ v', v.writeAll pieces = .ok v' ∧ Draft.Extends d v v' ∧
      ∀ path value, (path, value) ∈ pieces → Met v' d path := by
  induction pieces generalizing v with
  | nil =>
    exact ⟨v, rfl, ⟨h, fun _ hpath => hpath⟩, fun _ _ hmem => absurd hmem List.not_mem_nil⟩
  | cons piece rest ih =>
    obtain ⟨path, value⟩ := piece
    obtain ⟨b, hb, hvalue⟩ := hpieces path value List.mem_cons_self
    obtain ⟨herror, hnext⟩ := h.set hd hb hvalue
    obtain ⟨v', hwrite, hrest, hmet⟩ := ih hnext.draft fun path value hmem =>
      hpieces path value (List.mem_cons_of_mem _ hmem)
    have hstep : v.write path value = .ok (v.set path value).1 :=
      write_ok_iff.mpr (Prod.ext rfl herror)
    refine ⟨v', ?_, ⟨hrest.draft, fun path hpath => hrest.keeps path (hnext.keeps path hpath)⟩, ?_⟩
    · rw [writeAll_cons, hstep]
      exact hwrite
    · intro path' value' hmem
      rcases List.mem_cons.mp hmem with he | hmem
      · -- what is written is there at once, and is kept
        obtain ⟨rfl, -⟩ := Prod.mk.inj he
        exact hrest.keeps _ ⟨value, b, get?_set herror, hb, hvalue⟩
      · exact hmet path' value' hmem

/-- If a document has all the values at their paths, then they can be written one after another,
and the document that this makes has all of them too. -/
theorem exists_writeAll_iff {pieces : Pieces} (hpieces : PiecesDistinct pieces) :
    (∃ w, (obj []).writeAll pieces = .ok w ∧ w.Holds pieces) ↔
      ∃ d : Json, d.KeysDistinct ∧ d.Holds pieces := by
  constructor
  · rintro ⟨w, hw, hholds⟩
    have hempty : (obj []).KeysDistinct := ⟨List.nodup_nil, trivial⟩
    exact ⟨w, keysDistinct_writeAll hpieces hempty hw, hholds⟩
  · rintro ⟨d, hd, hholds⟩
    obtain ⟨w, hw, -, hmet⟩ := (Draft.empty d).writeAll hd fun path value hmem => by
      obtain ⟨b, hb, hequiv⟩ := hholds path value hmem
      exact ⟨b, hb, Alike.symm ⟨hd.get? hb, hpieces path value hmem, hequiv⟩⟩
    refine ⟨w, hw, fun path value hmem => ?_⟩
    obtain ⟨a, b, ha, hb, hab⟩ := hmet path value hmem
    obtain ⟨b', hb', hequiv⟩ := hholds path value hmem
    obtain rfl := Option.some.inj (hb.symm.trans hb')
    exact ⟨a, ha, equiv_trans hab.equiv hequiv⟩

end DocWatch.Json
