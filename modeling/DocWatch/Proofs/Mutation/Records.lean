import DocWatch.Mutation.Apply
import DocWatch.Proofs.Action
import DocWatch.Proofs.Mutation.Wire

/-!
# The records of a payload, one after another

A payload is read up to its first bad record before anything is applied, and the bad record fails
in its turn. This comes to the same as reading each record when its turn comes
(`Payload.perform_apply`), and in this form it is plain where a payload stops: the records before
the failing one have all applied, and nothing comes after it (`Payload.runRecords_error_iff`).

- `Payload.applyWire`: reading and applying one record.
- `Payload.runRecords`: one record after another.
- `Payload.cut`: a payload with only its first records.
-/

namespace DocWatch.Payload

variable {σ : Type} (w : Writer σ) (user : Option String) (id : Json)

/-- Reads a record and applies it. -/
def applyWire (record : Json) : Action σ Unit := do
  let m ← Action.lift (Mutation.ofJson record)
  m.apply w user id

/-- Reads and applies records one after another, the first of them at a position. -/
def runRecords (index : Nat) (records : List Json) : Action σ Unit := do
  let _ ← Action.inTurn ((records.zipIdx index).map fun (record, k) =>
    inContext k (Mutation.wireOf record) (applyWire w user id record))

variable {w user id}

theorem perform_inContext_ok_iff (action : Action σ Unit) (index : Nat) (record : Json)
    (s s' : σ) : (inContext index record action).perform s = (.ok (), s') ↔
      action.perform s = (.ok (), s') := by
  rw [inContext, Action.perform_attempt]
  cases haction : action.perform s with
  | mk r t => cases r <;> simp

theorem perform_inContext_ok {action : Action σ Unit} {s s' : σ}
    (h : action.perform s = (.ok (), s')) (index : Nat) (record : Json) :
    (inContext index record action).perform s = (.ok (), s') :=
  (perform_inContext_ok_iff action index record s s').mpr h

/-- A failure in a context names the record. -/
theorem perform_inContext_error_iff (action : Action σ Unit) (index : Nat) (record : Json)
    (s s' : σ) (e : Error) : (inContext index record action).perform s = (.error e, s') ↔
      ∃ e', action.perform s = (.error e', s') ∧ e = .mutationFailed index record e' := by
  rw [inContext, Action.perform_attempt]
  constructor
  · intro h
    cases haction : action.perform s with
    | mk r t =>
      rw [haction] at h
      cases r with
      | ok u => cases h
      | error e' =>
        obtain ⟨he, rfl⟩ := Prod.mk.inj h
        exact ⟨e', rfl, (Except.error.inj he).symm⟩
  · rintro ⟨e', haction, rfl⟩
    rw [haction]

theorem perform_inContext_error {action : Action σ Unit} {s s' : σ} {e : Error}
    (h : action.perform s = (.error e, s')) (index : Nat) (record : Json) :
    (inContext index record action).perform s = (.error (.mutationFailed index record e), s') :=
  (perform_inContext_error_iff action index record s s' _).mpr ⟨e, h, rfl⟩

/-- Records in a row succeed if the first one does and the others do after it. -/
theorem perform_applyRecords_cons_ok_iff (index : Nat) (m : Mutation) (ms : List Mutation)
    (s s' : σ) : (applyRecords w user id index (m :: ms)).perform s = (.ok (), s') ↔
      ∃ t, (m.apply w user id).perform s = (.ok (), t) ∧
        (applyRecords w user id (index + 1) ms).perform t = (.ok (), s') := by
  constructor
  · intro h
    obtain ⟨_, t, hfirst, hrest⟩ := Action.perform_bind_eq_ok h
    exact ⟨t, (perform_inContext_ok_iff _ _ _ _ _).mp hfirst, hrest⟩
  · rintro ⟨t, hfirst, hrest⟩
    rw [applyRecords, Action.perform_bind_ok (perform_inContext_ok hfirst index m.toJson), hrest]

/-! ## Reading in turn -/

theorem applyWire_of_ok {record : Json} {m : Mutation} (h : Mutation.ofJson record = .ok m) :
    applyWire w user id record = m.apply w user id := by
  rw [applyWire, h]
  rfl

/-- A record that cannot be read fails and leaves the state as it is. -/
theorem perform_applyWire_of_error {record : Json} {e : Error}
    (h : Mutation.ofJson record = .error e) (s : σ) :
    (applyWire w user id record).perform s = (.error e, s) := by
  rw [applyWire, h]
  rfl

theorem perform_runRecords_error {record : Json} {s s' : σ} {e : Error}
    (h : (applyWire w user id record).perform s = (.error e, s')) (index : Nat)
    (rest : List Json) : (runRecords w user id index (record :: rest)).perform s =
      (.error (.mutationFailed index (Mutation.wireOf record) e), s') :=
  Action.perform_bind_error (Action.perform_bind_error
    (perform_inContext_error h index (Mutation.wireOf record)))

theorem perform_runRecords_ok {record : Json} {s s' : σ}
    (h : (applyWire w user id record).perform s = (.ok (), s')) (index : Nat)
    (rest : List Json) : (runRecords w user id index (record :: rest)).perform s =
      (runRecords w user id (index + 1) rest).perform s' := by
  have hcontext := perform_inContext_ok h index (Mutation.wireOf record)
  rw [runRecords, runRecords, List.zipIdx_cons, List.map_cons, Action.inTurn, bind_assoc,
    Action.perform_bind_ok hcontext]
  simp only [bind_assoc, pure_bind]

theorem readRecords_of_ok {record : Json} {m : Mutation} (h : Mutation.ofJson record = .ok m)
    (rest : List Json) :
    readRecords (record :: rest) = (m :: (readRecords rest).1, (readRecords rest).2) := by
  simp only [readRecords, h]

theorem readRecords_of_error {record : Json} {e : Error} (h : Mutation.ofJson record = .error e)
    (rest : List Json) : readRecords (record :: rest) = ([], some record) := by
  simp only [readRecords, h]

/-- The records that could be read, and then the one that could not, are the records one after
another. -/
theorem perform_readRecords (index : Nat) (records : List Json) (s : σ) :
    (applyRecords w user id index (readRecords records).1 >>= fun _ =>
      match (readRecords records).2 with
      | none => pure ()
      | some record => inContext (index + (readRecords records).1.length) record
          (applyWire w user id record)).perform s =
      (runRecords w user id index records).perform s := by
  induction records generalizing index s with
  | nil => rfl
  | cons record rest ih =>
    cases hread : Mutation.ofJson record with
    | error e =>
      -- reading stops here, and the record fails when it is read once more
      have hsplit := readRecords_of_error hread rest
      have hwire : Mutation.wireOf record = record := by
        simp only [Mutation.wireOf, hread]
      have hfails : (applyWire w user id record).perform s = (.error e, s) :=
        perform_applyWire_of_error hread s
      rw [hsplit, perform_runRecords_error hfails, hwire]
      exact perform_inContext_error hfails index record
    | ok m =>
      have hsplit := readRecords_of_ok hread rest
      have hwire : Mutation.wireOf record = m.toJson := by
        simp only [Mutation.wireOf, hread]
      -- reading goes on, whether the edit applies or not
      rw [hsplit, applyRecords, bind_assoc]
      cases hfirst : (m.apply w user id).perform s with
      | mk r t =>
        cases r with
        | error e =>
          rw [perform_runRecords_error ((applyWire_of_ok hread).symm ▸ hfirst), hwire,
            Action.perform_bind_error (perform_inContext_error hfirst index m.toJson)]
        | ok u =>
          rw [perform_runRecords_ok ((applyWire_of_ok hread).symm ▸ hfirst), ← ih (index + 1) t,
            Action.perform_bind_ok (perform_inContext_ok hfirst index m.toJson),
            List.length_cons, Nat.add_comm (readRecords rest).1.length 1, ← Nat.add_assoc]

/-- A payload applies its records one after another. -/
theorem perform_apply {p : Payload} {records : List Json}
    (h : readRecords records = (p.mutations, p.rejected)) (s : σ) :
    (p.apply w user).perform s = (runRecords w user p.id 0 records).perform s := by
  rw [← perform_readRecords, h, apply]
  cases p.rejected with
  | none => rfl
  | some record =>
    show _ = Action.perform (applyRecords w user p.id 0 p.mutations >>= fun _ =>
      inContext (0 + p.mutations.length) record (applyWire w user p.id record)) s
    rw [Nat.zero_add]
    rfl

/-! ## Where a payload stops -/

theorem take_zipIdx {α : Type} (l : List α) (n k : Nat) :
    (l.zipIdx n).take k = (l.take k).zipIdx n := by
  refine List.ext_getElem? fun i => ?_
  rw [List.getElem?_take, List.getElem?_zipIdx, List.getElem?_zipIdx, List.getElem?_take]
  split <;> rfl

/-- Records fail where the records before one of them apply and that one does not. -/
theorem runRecords_error_iff (index : Nat) (records : List Json) (s s' : σ) (e : Error) :
    (runRecords w user id index records).perform s = (.error e, s') ↔
      ∃ k record t e', records[k]? = some record ∧
        (runRecords w user id index (records.take k)).perform s = (.ok (), t) ∧
        (applyWire w user id record).perform t = (.error e', s') ∧
        e = .mutationFailed (index + k) (Mutation.wireOf record) e' := by
  rw [runRecords, Action.perform_bind_pure_error_iff, Action.inTurn_error_iff]
  constructor
  · rintro ⟨k, x, answers, t, hk, hprefix, hfails⟩
    rw [List.getElem?_map, List.getElem?_zipIdx, Option.map_map, Option.map_eq_some_iff] at hk
    obtain ⟨record, hrecord, rfl⟩ := hk
    obtain ⟨e', happly, he⟩ := (perform_inContext_error_iff _ _ _ t s' e).mp hfails
    refine ⟨k, record, t, e', hrecord, ?_, happly, he⟩
    rw [← List.map_take, take_zipIdx] at hprefix
    exact (Action.perform_bind_pure_ok_iff _ _ s t ()).mpr ⟨answers, hprefix, rfl⟩
  · rintro ⟨k, record, t, e', hrecord, hprefix, happly, he⟩
    obtain ⟨answers, hanswers, -⟩ := (Action.perform_bind_pure_ok_iff _ _ s t ()).mp hprefix
    refine ⟨k, _, answers, t, ?_, ?_, (perform_inContext_error_iff _ _ _ t s' e).mpr
      ⟨e', happly, he⟩⟩
    · rw [List.getElem?_map, List.getElem?_zipIdx, hrecord]
      rfl
    · rw [← List.map_take, take_zipIdx]
      exact hanswers

/-! ## Cutting payloads -/

/-- The payload with only its first records. -/
def cut (v : Json) (count : Nat) : Json :=
  match records v with
  | .ok many =>
    .obj [("collection", (v.field? "collection").getD .null), ("_id", (v.field? "_id").getD .null),
      ("mutations", .arr (many.take count))]
  | .error _ => v

/-- What a payload that can be read consists of. -/
theorem ofJson_ok {v : Json} {p : Payload} (h : ofJson v = .ok p) :
    ∃ collection many, v.field? "collection" = some (.str collection) ∧ records v = .ok many ∧
      p = ⟨collection, (v.field? "_id").getD .null, (readRecords many).1,
        (readRecords many).2⟩ := by
  unfold ofJson at h
  split at h
  · rename_i collection hcollection
    cases hobject : v.isObject with
    | false =>
      rw [hobject] at h
      cases h
    | true =>
      rw [hobject] at h
      obtain ⟨many, hmany, h⟩ := exists_of_bind_ok h
      exact ⟨collection, many, hcollection, hmany, (Except.ok.inj h).symm⟩
  · cases hobject : v.isObject <;> rw [hobject] at h <;> cases h

/-- A payload that was cut consists of the first records. -/
theorem ofJson_cut {v : Json} {collection : String} {many : List Json}
    (hcollection : v.field? "collection" = some (.str collection))
    (hrecords : records v = .ok many) (count : Nat) :
    ofJson (cut v count) = .ok ⟨collection, (v.field? "_id").getD .null,
      (readRecords (many.take count)).1, (readRecords (many.take count)).2⟩ := by
  rw [cut, hrecords, hcollection]
  rfl

end DocWatch.Payload
