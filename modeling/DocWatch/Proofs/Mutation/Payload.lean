import DocWatch.Proofs.Mutation.Records

/-!
# Payloads survive the wire

A payload keeps its records up to the first one that cannot be read: those before it as the edits
that they describe, and that one as it came. Its wire form has the wire forms of the edits, whatever
form they came in, and then the record that could not be read. An edit that was read reads back, and
a record that could not be read cannot be read the second time either. So reading stops in the same
place, and nothing is lost.

- `Payload.IsWire`: payloads that come from the wire.
- `Payload.readRecords_wire`: reading the records of the wire form.
- `Payload.reads_back`: the main result.
-/

namespace DocWatch.Payload

/-- A payload that was read. -/
structure IsWire (p : Payload) : Prop where
  edits : ∀ m ∈ p.mutations, m.IsWire
  rejected : ∀ record, p.rejected = some record → ∃ e, Mutation.ofJson record = .error e

/-! ## What was read -/

theorem isWire_of_mem_readRecords {records : List Json} {m : Mutation}
    (h : m ∈ (readRecords records).1) : m.IsWire := by
  induction records with
  | nil => exact absurd h List.not_mem_nil
  | cons record rest ih =>
    cases hread : Mutation.ofJson record with
    | error e =>
      rw [readRecords_of_error hread] at h
      exact absurd h List.not_mem_nil
    | ok m' =>
      rw [readRecords_of_ok hread] at h
      rcases List.mem_cons.mp h with rfl | hrest
      · exact Mutation.isWire_of_ofJson hread
      · exact ih hrest

/-- The record that reading stops at cannot be read. -/
theorem error_of_readRecords {records : List Json} {record : Json}
    (h : (readRecords records).2 = some record) : ∃ e, Mutation.ofJson record = .error e := by
  induction records with
  | nil => cases h
  | cons first rest ih =>
    cases hread : Mutation.ofJson first with
    | error e =>
      rw [readRecords_of_error hread] at h
      obtain rfl := Option.some.inj h
      exact ⟨e, hread⟩
    | ok m =>
      rw [readRecords_of_ok hread] at h
      exact ih h

theorem isWire_of_ofJson {v : Json} {p : Payload} (h : ofJson v = .ok p) : p.IsWire := by
  obtain ⟨collection, many, -, -, rfl⟩ := ofJson_ok h
  exact { edits := fun _ hm => isWire_of_mem_readRecords hm,
          rejected := fun _ hrecord => error_of_readRecords hrecord }

/-! ## Reading what was written -/

/-- Reading goes on through the edits, and stops at the record that it stopped at before. -/
theorem readRecords_wire {ms : List Mutation} (hms : ∀ m ∈ ms, m.IsWire) {rejected : Option Json}
    (hrejected : ∀ record, rejected = some record → ∃ e, Mutation.ofJson record = .error e) :
    readRecords (ms.map Mutation.toJson ++ rejected.toList) = (ms, rejected) := by
  induction ms with
  | nil =>
    cases rejected with
    | none => rfl
    | some record =>
      obtain ⟨e, he⟩ := hrejected record rfl
      exact readRecords_of_error he []
  | cons m rest ih =>
    have hm := Mutation.ofJson_toJson (hms m List.mem_cons_self)
    rw [List.map_cons, List.cons_append, readRecords_of_ok hm,
      ih fun m' hm' => hms m' (List.mem_cons_of_mem m hm')]

theorem ofJson_toJson {p : Payload} (h : p.IsWire) : ofJson p.toJson = .ok p := by
  have hread : ofJson p.toJson = .ok ⟨p.collection, p.id,
      (readRecords (p.mutations.map Mutation.toJson ++ p.rejected.toList)).1,
      (readRecords (p.mutations.map Mutation.toJson ++ p.rejected.toList)).2⟩ := rfl
  rw [hread, readRecords_wire h.edits h.rejected]

/-- **Payloads survive the wire.** Whatever a payload was read from, it reads back from its own wire
form: its collection, its identity, its edits in order, and the record that could not be read. So
does every single record that can be read. -/
theorem reads_back :
    (∀ v p, ofJson v = .ok p → ofJson p.toJson = .ok p) ∧
      ∀ record m, Mutation.ofJson record = .ok m → Mutation.ofJson m.toJson = .ok m :=
  ⟨fun _ _ h => ofJson_toJson (isWire_of_ofJson h),
    fun _ _ h => Mutation.ofJson_toJson (Mutation.isWire_of_ofJson h)⟩

/-- Edits of each kind, as objects and as arrays, and a record without a path among them. -/
def mixed : Json :=
  .obj [("collection", .str "t"), ("_id", .nat 7), ("mutations", .null), ("mutation", .arr [
    .obj [("path", .arr [.str "a", .nat 2, .str "&x"]), ("type", .str "set")],
    .arr [.str "unset", .arr [.str "b"]],
    .obj [("type", .str "remove"), ("path", .arr [.str "c"]), ("key", .nat 5), ("index", .null)],
    .arr [.str "insert", .arr [.str "c"], .null, .null, .nat 1, .bool true],
    .obj [("type", .str "create"), ("document", .obj [("_id", .str "y")])],
    .obj [("type", .str "delete"), ("value", .nat 1)],
    .obj [("type", .str "set"), ("value", .nat 1)],
    .obj [("type", .str "delete")]])]

/-- What it is read as. -/
def mixedPayload : Payload where
  collection := "t"
  id := .nat 7
  mutations := [.set [.literal "a", .index 2, .ref "x"] .null, .unset [.literal "b"],
    .remove [.literal "c"] (some "5") none, .insert [.literal "c"] (some 1) (.bool true),
    .create (.obj [("_id", .str "y")]), .delete]
  rejected := some (.obj [("type", .str "set"), ("value", .nat 1)])

/-- It reads back, and reading stops at the same record. -/
theorem mixed_reads_back :
    ofJson mixed = .ok mixedPayload ∧ ofJson mixedPayload.toJson = .ok mixedPayload := by
  have hread : ofJson mixed = .ok mixedPayload := rfl
  exact ⟨hread, reads_back.1 mixed mixedPayload hread⟩

end DocWatch.Payload
