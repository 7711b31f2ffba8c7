import DocWatch.Proofs.Action
import DocWatch.Proofs.Update.Entries
import DocWatch.Proofs.Update.Frame

/-!
# The last writer of a field is on record

Entries are written one field at a time, after the update that they record. An update that avoids
the entries itself leaves those of other fields as they are. So after a sequence of attributed
updates, the entry of a field is that of the last update that touched it, and an entry that no
update touched is the one that was there at the start.

- `Update.Touches`, `Update.mem_touchedFields_iff_touches`: the fields of which entries are written.
- `Update.recorded?_of_run_attribute`: what one attributed update does to the entries.
- `Update.entry_of_last_writer`: what a sequence of them does.
-/

namespace DocWatch

namespace Update

open Document

/-! ## Touched fields -/

/-- Some operator writes to this field of the document, or below it. The identity is not counted. -/
def Touches (u : Update) (field : String) : Prop :=
  field ≠ idField ∧ ∃ op ∈ u, op.path.head? = some field

/-- Entries are written of the fields that an update touches, if it avoids the entries. -/
theorem mem_touchedFields_iff_touches {u : Update} (h : u.Avoids metaField) (field : String) :
    field ∈ u.touchedFields ↔ u.Touches field := by
  rw [mem_touchedFields_iff, Touches]
  refine and_congr_left fun ⟨op, hop, hhead⟩ => ?_
  have hmeta : field ≠ metaField := by
    rintro rfl
    exact (h op hop).2 hhead
  simp only [metaField] at hmeta
  simp [isTracked, idField, hmeta]

/-! ## The entries of one update -/

/-- The writes of entries avoid all members but `_meta`. -/
theorem avoids_entries {key : String} (hkey : metaField ≠ key) (p : Provenance)
    (fields : List String) : (entries p fields).Avoids key := by
  intro op hop
  obtain ⟨field, -, rfl⟩ := List.mem_map.mp hop
  exact ⟨List.cons_ne_nil _ _, fun he => hkey (Option.some.inj he)⟩

/-- An attributed update writes the entries of the fields that it touches, and keeps the others. -/
theorem recorded?_of_run_attribute {u : Update} (havoids : u.Avoids metaField) {p : Provenance}
    {doc new : Json} (hdoc : doc.DistinctObject) (hentries : EntriesInObject doc)
    (h : run (u.attribute p) doc = .ok new) :
    new.DistinctObject ∧ EntriesInObject new ∧
      (∀ field, u.Touches field → recorded? new field = some p.toJson) ∧
      ∀ field, ¬ u.Touches field → recorded? new field = recorded? doc field := by
  obtain ⟨plain, hrun, hwrites⟩ := (run_append_ok_iff u (entries p u.touchedFields) _ _).mp h
  obtain ⟨hplain, hfield⟩ := framed_run havoids hrun hdoc
  obtain ⟨new', hwrites', -, hnewentries, hentry⟩ :=
    exists_run_entries p u.touchedFields hplain.isObject (hentries.of_field?_eq hfield)
  obtain rfl : new = new' := Except.ok.inj (hwrites.symm.trans hwrites')
  have hnew := (framed_run (avoids_entries (by decide : metaField ≠ idField) p _) hwrites hplain).1
  refine ⟨hnew, hnewentries, fun field htouches => ?_, fun field htouches => ?_⟩
  · rw [hentry, if_pos ((mem_touchedFields_iff_touches havoids field).mpr htouches)]
  · rw [hentry, if_neg fun hmem =>
      htouches ((mem_touchedFields_iff_touches havoids field).mp hmem)]
    exact recorded?_of_field?_eq hplain.isObject hdoc.isObject hfield field

/-! ## Sequences of updates -/

/-- A document after attributed updates, one after another. -/
def runAttributed : List (Update × Provenance) → Json → Except UpdateError Json
  | [], doc => .ok doc
  | (u, p) :: rest, doc => do runAttributed rest (← run (u.attribute p) doc)

/-- **The last writer of a field is on record.** Let updates that avoid the entries succeed one
after another, each attributed, on an object that keeps its entries in an object. Then the entry of
a field is that of the last update that touched it, and every other entry is the one that was there
at the start. -/
theorem entry_of_last_writer {members : Members Json} (hdistinct : (Members.keys members).Nodup)
    (hentries : EntriesInObject (.obj members)) {steps : List (Update × Provenance)}
    (havoids : ∀ step ∈ steps, step.1.Avoids metaField) {new : Json}
    (h : runAttributed steps (.obj members) = .ok new) :
    EntriesInObject new ∧ ∀ field,
      (∀ earlier u p later, steps = earlier ++ (u, p) :: later → u.Touches field →
        (∀ step ∈ later, ¬ step.1.Touches field) → recorded? new field = some p.toJson) ∧
      ((∀ step ∈ steps, ¬ step.1.Touches field) →
        recorded? new field = recorded? (.obj members) field) := by
  -- the invariant of the sequence is what a document needs to be written an entry to
  obtain ⟨doc, hdoc, hstart⟩ : ∃ doc, doc = Json.obj members ∧ doc.DistinctObject :=
    ⟨_, rfl, members, rfl, hdistinct⟩
  rw [← hdoc] at h hentries ⊢
  clear hdoc hdistinct
  induction steps generalizing doc with
  | nil =>
    rw [← Except.ok.inj h]
    refine ⟨hentries, fun field => ⟨fun earlier u p later hsteps => ?_, fun _ => rfl⟩⟩
    exact absurd hsteps.symm (List.append_ne_nil_of_right_ne_nil _ (List.cons_ne_nil _ _))
  | cons step rest ih =>
    obtain ⟨u, p⟩ := step
    obtain ⟨mid, hmid, hrest⟩ := exists_of_bind_ok h
    obtain ⟨hmiddoc, hmidentries, htouched, huntouched⟩ :=
      recorded?_of_run_attribute (havoids (u, p) List.mem_cons_self) hstart hentries hmid
    obtain ⟨hnewentries, hfields⟩ :=
      ih (fun step hstep => havoids step (List.mem_cons_of_mem _ hstep)) mid hmidentries hrest
        hmiddoc
    refine ⟨hnewentries, fun field => ⟨fun earlier u' p' later hsteps htouches hlater => ?_,
      fun hnone => ?_⟩⟩
    · rcases List.cons_eq_append_iff.mp hsteps with ⟨-, he⟩ | ⟨earlier', -, he⟩
      · -- the first update is the last one to touch the field
        obtain ⟨hstep, rfl⟩ := List.cons.inj he
        obtain ⟨rfl, rfl⟩ := Prod.mk.inj hstep
        rw [(hfields field).2 hlater, htouched field htouches]
      · exact (hfields field).1 earlier' u' p' later he htouches hlater
    · rw [(hfields field).2 fun step hstep => hnone step (List.mem_cons_of_mem _ hstep),
        huntouched field (hnone (u, p) List.mem_cons_self)]

/-- Two clients push to `a`, and the first of them writes to `b` and `d` in between. -/
def turns : List (Update × Provenance) :=
  [([.push ["a"] [.nat 1] none], ⟨some "c", 1704067200, 0⟩),
    ([.set ["b", "c"] (.nat 2), .unset ["d"]], ⟨some "c", 1704067201, 0⟩),
    ([.push ["a"] [.nat 3] (some 0)], ⟨some "d", 1704067202, 0⟩)]

/-- The second client is on record for `a`, and an older entry stays. -/
theorem turns_on_record :
    ∃ new, runAttributed turns
        (.obj [("_id", .str "x"), ("_meta", .obj [("f", .null)]), ("a", .arr [])]) = .ok new ∧
      recorded? new "a" = some (Provenance.toJson ⟨some "d", 1704067202, 0⟩) ∧
      recorded? new "f" = some .null := by
  have havoids : ∀ step ∈ turns, step.1.Avoids metaField := by
    simp [turns, Avoids, FieldPath.Avoids, metaField, Operator.path]
  have hentries : EntriesInObject
      (.obj [("_id", .str "x"), ("_meta", .obj [("f", .null)]), ("a", .arr [])]) := by
    rintro v ⟨⟩
    rfl
  have hlast := (entry_of_last_writer (by decide) hentries havoids rfl).2
  refine ⟨_, rfl, (hlast "a").1 (turns.take 2) _ _ [] rfl ?_ ?_, ((hlast "f").2 ?_).trans rfl⟩
  · exact ⟨by decide, _, List.mem_singleton_self _, rfl⟩
  · exact fun step hstep => absurd hstep List.not_mem_nil
  · simp [turns, Touches, Operator.path]

end Update
end DocWatch
