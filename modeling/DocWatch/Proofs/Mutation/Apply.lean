import DocWatch.Mutation.Apply
import DocWatch.Proofs.Action

/-!
# Records move along what writers do

A record touches the state only through the actions of its writer, and it updates with one operator
at a time (`Mutation.Makes`), always the document with the identity of the payload. So what the
actions of a writer keep, such updates among them, a record keeps, and a payload too.

- `MutationPath.target_ok`, `MutationPath.Names`, `Mutation.removalTarget_ok`,
  `Mutation.insertionTarget_ok`: where records write.
- `Mutation.removalTarget_of_place`, `Mutation.perform_removal`: the steps of a removal by position.
- `Mutation.Makes`: the operators of a record.
- `Mutation.upserts`, `Mutation.creates`: the records that may make a document.
- `Writer.WithinFor`, `Writer.Within`: the actions of a writer move along a relation.
- `Mutation.within_apply_of_makes`, `Payload.within_apply_of_records`: so do records and payloads.
-/

namespace DocWatch

/-! ## Where records write -/

/-- The path into the document has the texts of the steps. It is not the root. -/
theorem MutationPath.target_ok {resolved asked : MutationPath} {path : FieldPath}
    (h : resolved.target asked = .ok path) : path = resolved.map Segment.text ∧ path ≠ [] := by
  unfold target fieldPath? at h
  by_cases href : resolved.hasRefs = true
  · rw [if_pos href] at h
    cases h
  · rw [if_neg href] at h
    cases hpath : resolved.map Segment.text with
    | nil =>
      rw [hpath] at h
      cases h
    | cons segment rest =>
      rw [hpath] at h
      obtain rfl := Except.ok.inj h
      exact ⟨rfl, List.cons_ne_nil segment rest⟩

/-- A path without references that is not the root leads into the document. -/
theorem MutationPath.target_of_fieldPath? {resolved : MutationPath} {path : FieldPath}
    (h : resolved.fieldPath? = some path) (hroot : path ≠ []) (asked : MutationPath) :
    resolved.target asked = .ok path := by
  obtain ⟨segment, rest, rfl⟩ := List.exists_cons_of_ne_nil hroot
  rw [target, h]

/-- The place and the position that a resolved path names. A position beside the path belongs to
the whole path; without it, the last step may be one. -/
inductive MutationPath.Names (resolved : MutationPath) :
    Option Nat → MutationPath → Option Nat → Prop
  | beside (i : Nat) : Names resolved (some i) resolved (some i)
  | last {place : MutationPath} {i : Nat} (h : resolved = place ++ [.index i]) :
      Names resolved none place (some i)
  | whole (h : ∀ i, resolved.getLast? ≠ some (.index i)) : Names resolved none resolved none

namespace MutationPath

variable {resolved place : MutationPath} {index position : Option Nat}

theorem names_splitIndex (path : MutationPath) :
    path.Names none path.splitIndex.1 path.splitIndex.2 := by
  unfold splitIndex
  split
  · rename_i i hlast
    obtain ⟨init, rfl⟩ := List.getLast?_eq_some_iff.mp hlast
    rw [List.dropLast_concat]
    exact .last rfl
  · rename_i hlast
    exact .whole fun i hi => hlast i hi

theorem Names.isPrefix (h : resolved.Names index place position) : place <+: resolved := by
  cases h with
  | beside i => exact List.prefix_rfl
  | last h => exact h ▸ List.prefix_append _ _
  | whole => exact List.prefix_rfl

/-- The slot lies at the path, or below it. -/
theorem Names.exists_below {i : Nat} (h : resolved.Names index place (some i)) :
    ∃ below, place ++ [.index i] <+: resolved ++ below := by
  cases h with
  | beside i => exact ⟨_, List.prefix_rfl⟩
  | last h => exact ⟨[], h ▸ List.prefix_append _ _⟩

end MutationPath

theorem Document.arrayAt?_eq_some_iff (doc : Option Json) (path : FieldPath) (items : List Json) :
    arrayAt? doc path = some items ↔ ∃ d, doc = some d ∧ d.get? path = some (.arr items) := by
  have harr : ∀ v : Json, v.items? = some items ↔ v = .arr items := by
    intro v
    cases v <;> simp [Json.items?]
  rw [arrayAt?, Option.bind_eq_some_iff]
  simp only [harr, exists_eq_right, Option.bind_eq_some_iff]

namespace Mutation

theorem names_of_removalPlace {resolved place : MutationPath} {index : Option Nat} {position : Nat}
    (h : removalPlace resolved index = .ok (place, position)) :
    resolved.Names index place (some position) := by
  unfold removalPlace at h
  cases index with
  | some i =>
    obtain ⟨rfl, rfl⟩ := Prod.mk.inj (Except.ok.inj h)
    exact .beside i
  | none =>
    have hnames := resolved.names_splitIndex
    cases hsplit : resolved.splitIndex with
    | mk init last =>
      rw [hsplit] at h hnames
      cases last with
      | none => cases h
      | some i =>
        obtain ⟨rfl, rfl⟩ := Prod.mk.inj (Except.ok.inj h)
        exact hnames

/-- A removal by position writes to an array of the document, and to a slot that is in it. -/
theorem removalTarget_ok {doc : Option Json} {resolved : MutationPath} {index : Option Nat}
    {slot array : FieldPath} (h : removalTarget doc resolved index = .ok (slot, array)) :
    ∃ (place : MutationPath) (position : Nat) (items : List Json),
      resolved.Names index place (some position) ∧
      MutationPath.target (place ++ [.index position]) resolved = .ok slot ∧
      place.target resolved = .ok array ∧
      (∃ d, doc = some d ∧ d.get? array = some (.arr items)) ∧ position < items.length := by
  unfold removalTarget at h
  obtain ⟨⟨place, position⟩, hplace, h⟩ := exists_of_bind_ok h
  obtain ⟨slot', hslot, h⟩ := exists_of_bind_ok h
  obtain ⟨array', harray, h⟩ := exists_of_bind_ok h
  cases hitems : Document.arrayAt? doc array' with
  | none =>
    rw [hitems] at h
    cases h
  | some items =>
    rw [hitems] at h
    by_cases hlt : position < items.length
    · simp only [hlt, if_true] at h
      obtain ⟨rfl, rfl⟩ := Prod.mk.inj (Except.ok.inj h)
      exact ⟨place, position, items, names_of_removalPlace hplace, hslot, harray,
        (Document.arrayAt?_eq_some_iff _ _ _).mp hitems, hlt⟩
    · simp only [hlt, if_false] at h
      cases h

/-- A removal by a position that lies in an array of the document leads to this array. -/
theorem removalTarget_of_place {doc : Json} {resolved place : MutationPath} {index : Option Nat}
    {position : Nat} {array : FieldPath} {items : List Json}
    (hplace : removalPlace resolved index = .ok (place, position))
    (harray : place.fieldPath? = some array) (hroot : array ≠ [])
    (hitems : doc.get? array = some (.arr items)) (hlt : position < items.length) :
    removalTarget (some doc) resolved index =
      .ok (array ++ [(Segment.index position).text], array) := by
  obtain ⟨href, htext⟩ : place.hasRefs = false ∧ place.map Segment.text = array := by
    unfold MutationPath.fieldPath? at harray
    by_cases href : place.hasRefs = true
    · rw [if_pos href] at harray
      cases harray
    · rw [if_neg href] at harray
      exact ⟨eq_false_of_ne_true href, Option.some.inj harray⟩
  have hslot : MutationPath.fieldPath? (place ++ [.index position]) =
      some (array ++ [(Segment.index position).text]) := by
    have hplain : MutationPath.hasRefs (place ++ [.index position]) = false := by
      rw [MutationPath.hasRefs, List.any_append, ← MutationPath.hasRefs, href]
      rfl
    rw [MutationPath.fieldPath?, hplain, if_neg Bool.false_ne_true, List.map_append, htext]
    rfl
  have hfound := (Document.arrayAt?_eq_some_iff _ _ _).mpr ⟨doc, rfl, hitems⟩
  have hinto := MutationPath.target_of_fieldPath? hslot
    (List.append_ne_nil_of_right_ne_nil array (List.cons_ne_nil _ _)) resolved
  unfold removalTarget
  rw [hplace]
  simp only [Except.bind, bind, hinto, MutationPath.target_of_fieldPath? harray hroot resolved,
    hfound, hlt, if_true]
  rfl

/-- A removal by position comes to its second write, if all before that answers. -/
theorem perform_removal {σ : Type} {w : Writer σ} {user : Option String} {id : Json}
    {path resolved : MutationPath} {index : Option Nat} {doc : Option Json}
    {slot array : FieldPath} {sentinel : String} {s s₁ s₂ s₃ s₄ : σ} {r : Except Error Unit}
    (hfind : (w.find id).perform s = (.ok doc, s₁)) (hresolve : path.resolve doc = .ok resolved)
    (htarget : removalTarget doc resolved index = .ok (slot, array))
    (hfresh : w.freshIdentity.perform s₁ = (.ok sentinel, s₂))
    (hmark : (w.update (.byId id) [.set slot (.str sentinel)] false).perform s₂ = (.ok (), s₃))
    (hpull : (w.update (.byId id) [.pull array (.equals (.str sentinel))] false).perform s₃ =
      (r, s₄)) :
    ((Mutation.remove path none index).apply w user id).perform s = (r, s₄) := by
  have hresolved : (Action.lift (path.resolve doc)).perform s₁ = (.ok resolved, s₁) := by
    rw [Action.perform_lift, hresolve]
  have hplace : (Action.lift (removalTarget doc resolved index)).perform s₁ =
      (.ok (slot, array), s₁) := by
    rw [Action.perform_lift, htarget]
  rw [apply, Action.perform_bind_ok hfind, Action.perform_bind_ok hresolved]
  refine (Action.perform_bind_ok hplace).trans ?_
  show (removeAt w id slot array).perform s₁ = (r, s₄)
  rw [removeAt, Action.perform_bind_ok hfresh, Action.perform_bind_ok hmark, hpull]

/-- An insertion writes to an array, at the path or at the beginning of it. -/
theorem insertionTarget_ok {resolved asked : MutationPath} {index position : Option Nat}
    {array : FieldPath} (h : insertionTarget resolved asked index = .ok (array, position)) :
    ∃ place : MutationPath, resolved.Names index place position ∧
      place.target asked = .ok array := by
  unfold insertionTarget at h
  obtain ⟨array', harray, h⟩ := exists_of_bind_ok h
  obtain ⟨rfl, rfl⟩ := Prod.mk.inj (Except.ok.inj h)
  cases index with
  | some i => exact ⟨resolved, .beside i, harray⟩
  | none => exact ⟨_, resolved.names_splitIndex, harray⟩

/-! ## The operators of a record -/

/-- The operators that a record may update a document with. They write to the place that the path
leads to, to what contains it, or to a slot in it; a record of a deletion writes the mark. -/
inductive Makes : Mutation → Operator → Prop
  | place {m : Mutation} {path resolved place asked below : MutationPath} {doc : Option Json}
      {op : Operator} (hpath : m.path? = some path) (hresolve : path.resolve doc = .ok resolved)
      (hplace : place <+: resolved ++ below) (htarget : place.target asked = .ok op.path) :
      Makes m op
  | mark (value : Json) : Makes .delete (.set ["_deleted"] value)

/-- An operator that writes to the place that the path leads to, or to what contains it. -/
theorem Makes.of_initial {m : Mutation} {path resolved place asked : MutationPath}
    {doc : Option Json} {op : Operator} (hpath : m.path? = some path)
    (hresolve : path.resolve doc = .ok resolved) (hplace : place <+: resolved)
    (htarget : place.target asked = .ok op.path) : m.Makes op :=
  .place hpath hresolve (hplace.trans (List.prefix_append _ [])) htarget

/-- Does the record write a document even if there is none to write to? -/
def upserts : Mutation → Bool
  | .set .. | .unset _ => true
  | _ => false

/-- Does the record add a document of its own? -/
def creates : Mutation → Bool
  | .create _ => true
  | _ => false

end Mutation

/-! ## What writers and records keep -/

variable {σ : Type} {R : σ → σ → Prop} {P : Filter → Operator → Bool → Prop} {w : Writer σ}

/-- Each action of a writer but insertion moves along a relation, where the updates are those of a
kind, with one operator each. -/
structure Writer.WithinFor (R : σ → σ → Prop) (P : Filter → Operator → Bool → Prop)
    (w : Writer σ) : Prop where
  find : ∀ id, Action.Within R (w.find id)
  update : ∀ f op upsert, P f op upsert → Action.Within R (w.update f [op] upsert)
  freshIdentity : Action.Within R w.freshIdentity
  now : Action.Within R w.now

/-- Each action of a writer moves along a relation. -/
structure Writer.Within (R : σ → σ → Prop) (w : Writer σ) : Prop where
  find : ∀ id, Action.Within R (w.find id)
  update : ∀ f u upsert, Action.Within R (w.update f u upsert)
  insert : ∀ doc, Action.Within R (w.insert doc)
  freshIdentity : Action.Within R w.freshIdentity
  now : Action.Within R w.now

theorem Writer.Within.withinFor (hw : w.Within R) : w.WithinFor R fun _ _ _ => True where
  find := hw.find
  update := fun f op upsert _ => hw.update f [op] upsert
  freshIdentity := hw.freshIdentity
  now := hw.now

variable [IsPreorder σ R]

namespace Mutation

/-- A resolved place is where the path leads in some document. -/
theorem resolveTarget_ok {id : Json} {path : MutationPath} {s s' : σ} {field : FieldPath}
    (h : (resolveTarget w id path).perform s = (.ok field, s')) :
    ∃ doc resolved, path.resolve doc = .ok resolved ∧ resolved.target path = .ok field := by
  unfold resolveTarget at h
  by_cases href : path.hasRefs = true
  · rw [if_pos href] at h
    obtain ⟨doc, t, -, hrest⟩ := Action.perform_bind_eq_ok h
    obtain ⟨resolved, t', hresolve, htarget⟩ := Action.perform_bind_eq_ok hrest
    exact ⟨doc, resolved, (Prod.mk.inj hresolve).1, (Prod.mk.inj htarget).1⟩
  · rw [if_neg href] at h
    obtain ⟨resolved, t, hpure, htarget⟩ := Action.perform_bind_eq_ok h
    obtain rfl := Except.ok.inj (Prod.mk.inj hpure).1
    exact ⟨none, path, by rw [MutationPath.resolve, if_neg href], (Prod.mk.inj htarget).1⟩

theorem within_resolveTarget (hw : w.WithinFor R P) (id : Json) (path : MutationPath) :
    Action.Within R (resolveTarget w id path) := by
  unfold resolveTarget
  by_cases href : path.hasRefs = true
  · rw [if_pos href]
    exact (hw.find id).bind fun doc => (Action.within_lift _).bind fun resolved =>
      Action.within_lift _
  · rw [if_neg href]
    exact (Action.within_pure path).bind fun resolved => Action.within_lift _

theorem within_mark (hw : w.WithinFor R P) (user : Option String) :
    Action.Within R (mark w user) :=
  hw.now.bind fun _ => Action.within_pure _

/-- A write to the resolved path of a record. -/
theorem within_update_resolved (hw : w.WithinFor R P) {id : Json} {m : Mutation}
    {path : MutationPath} (hpath : m.path? = some path) (hupserts : m.upserts = true)
    (hm : ∀ op upsert, m.Makes op → (upsert = true → m.upserts = true) → P (.byId id) op upsert)
    (op : FieldPath → Operator) (hop : ∀ field, (op field).path = field) :
    Action.Within R
      (resolveTarget w id path >>= fun field => w.update (.byId id) [op field] true) := by
  refine (within_resolveTarget hw id path).bind_answer fun field ⟨s, s', hfield⟩ => ?_
  obtain ⟨doc, resolved, hresolve, htarget⟩ := resolveTarget_ok hfield
  rw [← hop field] at htarget
  have hmakes := Makes.of_initial hpath hresolve List.prefix_rfl htarget
  exact hw.update _ _ _ (hm _ _ hmakes fun _ => hupserts)

/-- A record moves along what its writer does, if its updates of the document with the identity are
among this, and its insertion if it makes one. -/
theorem within_apply_of_makes (hw : w.WithinFor R P) (user : Option String) {id : Json}
    {m : Mutation}
    (hm : ∀ op upsert, m.Makes op → (upsert = true → m.upserts = true) → P (.byId id) op upsert)
    (hinsert : m.creates = true → ∀ doc, Action.Within R (w.insert doc)) :
    Action.Within R (m.apply w user id) := by
  have hupdate : ∀ {op}, m.Makes op → Action.Within R (w.update (.byId id) [op] false) :=
    fun hop => hw.update _ _ _ (hm _ _ hop Bool.noConfusion)
  cases m with
  | set path value =>
    exact within_update_resolved hw rfl rfl hm (.set · value) fun _ => rfl
  | unset path => exact within_update_resolved hw rfl rfl hm .unset fun _ => rfl
  | remove path key index =>
    refine (hw.find id).bind fun doc => Action.within_lift_bind fun resolved hresolve => ?_
    cases key with
    | some key =>
      refine Action.within_lift_bind fun array harray => ?_
      refine (Action.within_lift _).bind fun selector => hupdate ?_
      exact .of_initial rfl hresolve List.prefix_rfl harray
    | none =>
      refine Action.within_lift_bind fun ⟨slot, array⟩ hplace => ?_
      obtain ⟨place, position, items, hnames, hslot, harray, -⟩ := removalTarget_ok hplace
      obtain ⟨below, hbelow⟩ := hnames.exists_below
      refine hw.freshIdentity.bind fun _ => (hupdate ?_).bind fun _ => hupdate ?_
      · exact .place rfl hresolve hbelow hslot
      · exact .of_initial rfl hresolve hnames.isPrefix harray
  | insert path index element =>
    refine (hw.find id).bind fun doc => Action.within_lift_bind fun resolved hresolve => ?_
    refine Action.within_lift_bind fun ⟨array, position⟩ hplace => hupdate ?_
    obtain ⟨place, hnames, harray⟩ := insertionTarget_ok hplace
    exact .of_initial rfl hresolve hnames.isPrefix harray
  | create document =>
    exact (within_mark hw user).bind fun created =>
      (hinsert rfl _).bind fun _ => Action.within_pure _
  | delete => exact (within_mark hw user).bind fun deleted => hupdate (.mark deleted)

end Mutation

namespace Payload

omit [IsPreorder σ R] in
/-- Naming a record in its failure changes no state. -/
theorem within_inContext {action : Action σ Unit} (h : Action.Within R action) (index : Nat)
    (record : Json) : Action.Within R (inContext index record action) := by
  intro s
  have hs := h s
  unfold inContext
  rw [Action.perform_attempt]
  cases hperform : action.perform s with
  | mk r s' =>
    rw [hperform] at hs
    cases r <;> exact hs

theorem within_applyRecords {user : Option String} {id : Json} (index : Nat) {ms : List Mutation}
    (hms : ∀ m ∈ ms, Action.Within R (m.apply w user id)) :
    Action.Within R (applyRecords w user id index ms) := by
  induction ms generalizing index with
  | nil => exact Action.within_pure ()
  | cons m rest ih =>
    obtain ⟨hm, hrest⟩ := List.forall_mem_cons.mp hms
    exact (within_inContext hm index _).bind fun _ => ih (index + 1) hrest

/-- A payload moves along what its records do. -/
theorem within_apply_of_records {user : Option String} {p : Payload}
    (hms : ∀ m ∈ p.mutations, Action.Within R (m.apply w user p.id))
    (hrejected : ∀ record m, p.rejected = some record → Mutation.ofJson record = .ok m →
      Action.Within R (m.apply w user p.id)) : Action.Within R (p.apply w user) := by
  refine (within_applyRecords 0 hms).bind fun _ => ?_
  cases hrecord : p.rejected with
  | none => exact Action.within_pure ()
  | some record =>
    exact within_inContext (Action.within_lift_bind fun m => hrejected record m hrecord) _ _

/-- A payload moves along what its writer does. -/
theorem within_apply (hw : w.Within R) (user : Option String) (p : Payload) :
    Action.Within R (p.apply w user) := by
  have hrecord : ∀ m : Mutation, Action.Within R (m.apply w user p.id) := fun m =>
    Mutation.within_apply_of_makes hw.withinFor user (fun _ _ _ _ => trivial) fun _ => hw.insert
  exact within_apply_of_records (fun m _ => hrecord m) fun _ m _ _ => hrecord m

end Payload
end DocWatch
