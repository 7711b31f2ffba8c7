import DocWatch.Proofs.Database.Record
import DocWatch.Proofs.Database.Watch

/-!
# Failing batches and payloads leave their prefix

A batch with an entry that cannot be read does nothing; any other batch does what its writes do one
by one, up to the first that fails. A payload stops at the first record that cannot be read or does
not apply, and then everything is as after the payload that ends before this record: the record
itself changes nothing, and no record after it is looked at.

- `Session.oneByOne`: single writes one after another.
- `Session.StopsAt`: where a payload stops.
- `Session.LeavesPrefix`, `Watch.leavesPrefix_after`: what is left of batches and payloads after any
  run.
-/

namespace DocWatch

/-! ## Entries of a batch -/

theorem Batch.ofItems_ok {items : List Json} {ops : List WriteOp}
    (h : List.Forall₂ (fun entry op => WriteOp.ofJson entry = .ok op) items ops) :
    ofItems items = .ok ops := by
  induction h with
  | nil => rfl
  | cons hentry _ ih =>
    rw [ofItems, hentry, ih]
    rfl

/-- One bad entry spoils a batch. -/
theorem Batch.exists_ofItems_error {items : List Json} {entry : Json} (hentry : entry ∈ items)
    {e : Error} (he : WriteOp.ofJson entry = .error e) : ∃ e', ofItems items = .error e' := by
  induction items with
  | nil => cases hentry
  | cons first rest ih =>
    rw [ofItems]
    cases hfirst : WriteOp.ofJson first with
    | error e' => exact ⟨e', rfl⟩
    | ok op =>
      rcases List.mem_cons.mp hentry with rfl | hrest
      · rw [he] at hfirst
        cases hfirst
      · obtain ⟨e', he'⟩ := ih hrest
        rw [he']
        exact ⟨e', rfl⟩

namespace Session

variable (s : Session)

/-! ## Batches -/

/-- Single writes one after another, up to the first that fails. -/
def oneByOne (ops : List WriteOp) : Action Database (List Json) := Action.inTurn (ops.map s.single)

variable {s}

theorem single_eq_execute (op : WriteOp) : s.single op = Database.execute s.options op := by
  simp only [single, Database.call, bind_assoc, pure_bind, List.head?_cons, Option.getD_some,
    bind_pure]

theorem oneByOne_eq_call (ops : List WriteOp) : s.oneByOne ops = Database.call s.options ops := by
  induction ops with
  | nil => rfl
  | cons op rest ih =>
    rw [oneByOne] at ih ⊢
    rw [List.map_cons, Action.inTurn, Database.call, single_eq_execute, ih]

/-- A batch that can be read does what its writes do one by one. -/
theorem batch_eq_oneByOne {v : Json} {ops : List WriteOp} (h : Batch.ofJson v = .ok ops) :
    s.batch v = s.oneByOne ops := by
  rw [batch, h, oneByOne_eq_call]
  rfl

theorem perform_batch_error {v : Json} {e : Error} (h : Batch.ofJson v = .error e)
    (db : Database) : (s.batch v).perform db = (.error e, db) := by
  rw [batch, h]
  rfl

/-- Writes one by one fail where the writes before one of them succeed and that one does not. -/
theorem oneByOne_error_iff (ops : List WriteOp) (db db' : Database) (e : Error) :
    (s.oneByOne ops).perform db = (.error e, db') ↔
      ∃ k op answers dbk, ops[k]? = some op ∧
        (s.oneByOne (ops.take k)).perform db = (.ok answers, dbk) ∧
        (s.single op).perform dbk = (.error e, db') := by
  rw [oneByOne, Action.inTurn_error_iff]
  constructor
  · rintro ⟨k, x, answers, dbk, hk, hprefix, hfails⟩
    rw [List.getElem?_map, Option.map_eq_some_iff] at hk
    obtain ⟨op, hop, rfl⟩ := hk
    rw [← List.map_take] at hprefix
    exact ⟨k, op, answers, dbk, hop, hprefix, hfails⟩
  · rintro ⟨k, op, answers, dbk, hop, hprefix, hfails⟩
    refine ⟨k, s.single op, answers, dbk, ?_, ?_, hfails⟩
    · rw [List.getElem?_map, hop]
      rfl
    · rw [← List.map_take]
      exact hprefix

/-! ## Payloads -/

variable (s)

/-- The records of a payload one after another. -/
def applyRecords (p : Payload) (many : List Json) : Action Database Unit :=
  Payload.runRecords (Database.writer p.collection s.options.client) s.options.user p.id 0 many

variable {s}

theorem perform_push_error {v : Json} {e : Error} (h : Payload.ofJson v = .error e)
    (db : Database) : (s.push v).perform db = (.error e, db) := by
  rw [push, h]
  rfl

theorem perform_push {v : Json} {p : Payload} (h : Payload.ofJson v = .ok p) (db : Database) :
    (s.push v).perform db = (Database.push s.options p).perform db := by
  have hpush : s.push v = Database.push s.options p := by
    rw [push, h]
    show (Database.call s.options [.push p] >>= fun _ => pure ()) = _
    simp only [Database.call, Database.execute, bind_assoc, pure_bind]
    exact bind_pure _
  rw [hpush]

theorem perform_push_cut {v : Json} {p : Payload} {many : List Json} (h : Payload.ofJson v = .ok p)
    (hmany : Payload.records v = .ok many) (count : Nat) (db : Database) :
    (s.push (Payload.cut v count)).perform db =
      (s.applyRecords p (many.take count)).perform db := by
  obtain ⟨collection, many', hcollection, hmany', rfl⟩ := Payload.ofJson_ok h
  rw [perform_push (Payload.ofJson_cut hcollection hmany count)]
  exact Payload.perform_apply rfl db

theorem perform_push_records {v : Json} {p : Payload} {many : List Json}
    (h : Payload.ofJson v = .ok p) (hmany : Payload.records v = .ok many) (db : Database) :
    (s.push v).perform db = (s.applyRecords p many).perform db := by
  obtain ⟨collection, many', -, hmany', rfl⟩ := Payload.ofJson_ok h
  rw [hmany] at hmany'
  obtain rfl := Except.ok.inj hmany'
  rw [perform_push h]
  exact Payload.perform_apply rfl db

variable (s)

/-- The records of a payload before a position apply, and then the record at this position cannot
be read or does not apply. -/
structure StopsAt (db : Database) (v : Json) (k : Nat) (record : Json) (e : Error)
    (dbk : Database) : Prop where
  listed : ∃ many, Payload.records v = .ok many ∧ many[k]? = some record
  before : (s.push (Payload.cut v k)).perform db = (.ok (), dbk)
  fails : ∃ p db', Payload.ofJson v = .ok p ∧
    (Payload.applyWire (Database.writer p.collection s.options.client) s.options.user p.id
      record).perform dbk = (.error e, db')

variable {s}

/-- A payload that fails does so before its first record, or stops at one of them. -/
theorem exists_stopsAt {v : Json} {db db' : Database} {e : Error}
    (h : (s.push v).perform db = (.error e, db')) :
    (Payload.ofJson v = .error e ∧ db' = db) ∨
      ∃ k record e' dbk, s.StopsAt db v k record e' dbk := by
  cases hp : Payload.ofJson v with
  | error e' =>
    rw [perform_push_error hp] at h
    obtain ⟨he, rfl⟩ := Prod.mk.inj h
    exact .inl ⟨by rw [Except.error.inj he], rfl⟩
  | ok p =>
    obtain ⟨collection, many, -, hmany, -⟩ := Payload.ofJson_ok hp
    rw [perform_push_records hp hmany] at h
    obtain ⟨k, record, dbk, e', hrecord, hprefix, hfails, -⟩ :=
      (Payload.runRecords_error_iff 0 many db db' e).mp h
    exact .inr ⟨k, record, e', dbk,
      { listed := ⟨many, hmany, hrecord⟩
        before := (perform_push_cut hp hmany k db).trans hprefix
        fails := ⟨p, db', hp, hfails⟩ }⟩

/-- A payload that stops at a record fails there, whatever comes after it. -/
theorem StopsAt.perform_push {v : Json} {db dbk : Database} {k : Nat} {record : Json} {e : Error}
    (h : s.StopsAt db v k record e dbk) : ∃ p db', Payload.ofJson v = .ok p ∧
      (Payload.applyWire (Database.writer p.collection s.options.client) s.options.user p.id
        record).perform dbk = (.error e, db') ∧
      (s.push v).perform db = (.error (.mutationFailed k (Mutation.wireOf record) e), db') ∧
      (s.push (Payload.cut v (k + 1))).perform db =
        (.error (.mutationFailed k (Mutation.wireOf record) e), db') := by
  obtain ⟨many, hmany, hrecord⟩ := h.listed
  obtain ⟨p, db', hp, hfails⟩ := h.fails
  have hprefix := h.before
  rw [perform_push_cut hp hmany] at hprefix
  -- cutting behind the record leaves the records before it, and the record
  refine ⟨p, db', hp, hfails, ?_, ?_⟩
  · rw [perform_push_records hp hmany]
    refine (Payload.runRecords_error_iff 0 many db db' _).mpr
      ⟨k, record, dbk, e, hrecord, hprefix, hfails, ?_⟩
    rw [Nat.zero_add]
  · rw [perform_push_cut hp hmany]
    refine (Payload.runRecords_error_iff 0 (many.take (k + 1)) db db' _).mpr
      ⟨k, record, dbk, e, ?_, ?_, hfails, ?_⟩
    · rw [List.getElem?_take_of_lt (Nat.lt_succ_self k), hrecord]
    · rw [List.take_take, Nat.min_eq_left (Nat.le_succ k)]
      exact hprefix
    · rw [Nat.zero_add]

/-! ## What is left -/

variable (s)

/-- What batches and payloads leave when they fail. -/
structure LeavesPrefix (db : Database) (v : Json) : Prop where
  /-- A batch with an entry that cannot be read does nothing. -/
  unread : (∀ items, v = .arr items → ∃ entry ∈ items, ∃ e, WriteOp.ofJson entry = .error e) →
    ∃ e, (s.batch v).perform db = (.error e, db)
  /-- Any other batch does what its writes do one by one. -/
  batch : ∀ items ops, v = .arr items →
    List.Forall₂ (fun entry op => WriteOp.ofJson entry = .ok op) items ops →
    (s.batch v).perform db = (s.oneByOne ops).perform db ∧
      ∀ e db', (s.oneByOne ops).perform db = (.error e, db') ↔
        ∃ k op answers dbk, ops[k]? = some op ∧
          (s.oneByOne (ops.take k)).perform db = (.ok answers, dbk) ∧
          (s.single op).perform dbk = (.error e, db')
  /-- A payload that fails cannot be read at all, or it stops at a record. -/
  stops : ∀ e db', (s.push v).perform db = (.error e, db') →
    (Payload.ofJson v = .error e ∧ db' = db) ∨
      ∃ k record e' dbk, s.StopsAt db v k record e' dbk
  /-- A payload that stops at a record leaves what the records before it have done, and its error
  names the record. The records after it make no difference. -/
  payload : ∀ k record e dbk, s.StopsAt db v k record e dbk → dbk.store.StringIds →
    ∃ db', (s.push v).perform db = (.error (.mutationFailed k (Mutation.wireOf record) e), db') ∧
      (s.push (Payload.cut v (k + 1))).perform db =
        (.error (.mutationFailed k (Mutation.wireOf record) e), db') ∧
      Mutation.ofJson (Mutation.wireOf record) = Mutation.ofJson record ∧ dbk.Unchanged db'

variable {s}

theorem within_push (v : Json) : Action.Within Database.Keeps (s.push v) :=
  (Action.within_lift _).bind fun p =>
    (Database.within_call s.options [.push p]).bind fun _ => Action.within_pure ()

/-- Failing batches and payloads leave their prefix, from any sound store. -/
theorem leavesPrefix_of_sound {db : Database} (hs : db.store.Sound) (v : Json) :
    s.LeavesPrefix db v where
  unread := by
    intro hbad
    cases v with
    | arr items =>
      obtain ⟨entry, hentry, e, he⟩ := hbad items rfl
      obtain ⟨e', he'⟩ := Batch.exists_ofItems_error hentry he
      exact ⟨e', perform_batch_error (v := .arr items) he' db⟩
    | _ => exact ⟨_, perform_batch_error rfl db⟩
  batch := by
    rintro items ops rfl hops
    have hbatch := batch_eq_oneByOne (s := s) (v := .arr items) (Batch.ofItems_ok hops)
    exact ⟨by rw [hbatch], fun e db' => oneByOne_error_iff ops db db' e⟩
  stops := fun e db' h => exists_stopsAt h
  payload := by
    intro k record e dbk hstops hids
    -- the records before the failing one leave a sound store
    have hkeeps := within_push (s := s) (Payload.cut v k) db
    rw [hstops.before] at hkeeps
    obtain ⟨p, db', -, hfails, hpush, hcut⟩ := hstops.perform_push
    refine ⟨db', hpush, hcut, Mutation.ofJson_wireOf record, ?_⟩
    exact Database.applyWire_failsClean (hkeeps.sound hs) hids p.id record e db' hfails

end Session

namespace Watch

/-- **Failing batches and payloads leave their prefix**, after any run. -/
theorem leavesPrefix_after (supply : Supply) (settings : Settings) (options : SessionOptions)
    (calls : List Call) (s : Session) (v : Json) :
    s.LeavesPrefix (after supply settings options calls).database v := by
  obtain ⟨d, htraced⟩ : ∃ d, Traced supply settings options calls
      (after supply settings options calls) d := traced_after calls
  exact Session.leavesPrefix_of_sound htraced.sound v

/-- A record that removes from an array that is not there. -/
def emptyRemoval : Json :=
  .obj [("type", .str "remove"), ("path", .arr [.str "a"]), ("index", .nat 0)]

/-- A payload that sets a field, removes from it what is not there, and deletes the document. -/
def threeRecords : Json :=
  .obj [("collection", .str "t"), ("_id", .str "n"), ("mutations", .arr [
    .obj [("type", .str "set"), ("path", .arr [.str "a"]), ("value", .bool true)],
    emptyRemoval, .obj [("type", .str "delete")]])]

/-- The database with one document. -/
def withAddition : Database :=
  (after stillSupply .standard .anonymous [.write addition]).database

/-- The database after the first record. -/
def withField : Database :=
  ((Session.root.push (Payload.cut threeRecords 1)).perform withAddition).2

/-- The second record fails, and the document is as after the first. -/
theorem emptyRemoval_leaves_field : ∃ e db',
    (Session.root.push threeRecords).perform withAddition =
      (.error (.mutationFailed 1 emptyRemoval e), db') ∧
    (db'.store.find "t" .all).map (Json.get? · ["a"]) = [some (.bool true)] ∧
    (db'.store.find "t" .all).map (Json.get? · ["_deleted"]) = [none] := by
  have hstops : Session.root.StopsAt withAddition threeRecords 1 emptyRemoval
      (.invalidPayload (.notInArray [.literal "a"])) withField :=
    { listed := ⟨_, rfl, rfl⟩
      before := Prod.ext (by decide) rfl
      fails := ⟨_, _, rfl, rfl⟩ }
  have hids : withField.store.StringIds := Store.stringIds_singleton (t := "n") rfl
  obtain ⟨db', hpush, -, -, hunchanged⟩ := (leavesPrefix_after stillSupply .standard .anonymous
    [.write addition] .root threeRecords).payload 1 emptyRemoval _ withField hstops hids
  refine ⟨_, db', hpush, ?_, ?_⟩
  · rw [Store.find, hunchanged.documents]
    decide
  · rw [Store.find, hunchanged.documents]
    decide

end Watch
end DocWatch
