import DocWatch.Proofs.Database.Prefix
import DocWatch.Proofs.Mutation.Avoids
import DocWatch.Proofs.Mutation.Payload
import DocWatch.Proofs.Store.Grown
import DocWatch.Proofs.Update.Frame

/-!
# Payloads address one document

Each record of a payload looks for its document anew, by the identity of the payload. If a document
is found at first then all records write to this one. If none is found, then a record that sets or
takes away a value makes one, and it depends on the identity of the document that was made whether
the next record finds it: a payload without an identity never finds what it has made, and so makes a
document with each such record.

- `Database.keeping_writer`: what updates of one collection keep, its writer keeps.
- `Payload.additions`: how many documents the records of a payload make.
- `Database.keeping_apply_of_found`: what a record keeps where the document is found.
- `Database.exists_grown_of_apply`, `Database.exists_grown_of_applyRecords`: one record, and a run
  of records, where it is not.
- `Watch.push_shifts_one_document_iff`: when a payload is about one document.
-/

namespace DocWatch

namespace Database

variable {db db' : Database} {name : String} {client user : Option String} {id : Json}

/-! ## The writes of records -/

/-- An update that succeeds has updated the store, attributed or not. -/
theorem exists_update_of_writer {f : Filter} {op : Operator} {upsert : Bool}
    (h : ((writer name client).update f [op] upsert).perform db = (.ok (), db')) :
    ∃ fresh author outcome,
      db.store.update name fresh f (Update.attributed [op] author) upsert =
        (.ok outcome, db'.store) := by
  obtain ⟨touched, s, hupdate, hpure⟩ := Action.perform_bind_eq_ok h
  obtain ⟨-, rfl⟩ := Prod.mk.inj hpure
  cases hd : db.dispatch with
  | none =>
    rw [perform_update_none hd] at hupdate
    cases hupdate
  | some d =>
    rw [perform_update hd] at hupdate
    cases hup : db.store.update name db.fresh f (Update.attributed [op] (db.author d client))
        upsert with
    | mk r s' =>
      rw [hup] at hupdate
      cases r with
      | error e => cases hupdate
      | ok outcome =>
        obtain ⟨-, rfl⟩ := Prod.mk.inj hupdate
        exact ⟨db.fresh, db.author d client, outcome, hup⟩

/-- What holds of the store before holds of the one after. -/
def Keeping (P : Store → Prop) (db db' : Database) : Prop := P db.store → P db'.store

instance (P : Store → Prop) : IsPreorder Database (Keeping P) where
  refl _ h := h
  trans _ _ _ h h' := h' ∘ h

/-- What updates of a kind keep of a store, the writer of the collection keeps. -/
theorem keeping_writer {P : Store → Prop} {Q : Filter → Operator → Bool → Prop}
    (hsame : ∀ {s s' : Store}, (∀ name, s'.collection name = s.collection name) → P s → P s')
    (hupdate : ∀ {f op upsert}, Q f op upsert → ∀ {s s' : Store} {fresh u outcome},
      s.update name fresh f u upsert = (.ok outcome, s') → P s → P s') :
    (writer name client).WithinFor (Keeping P) Q where
  find := fun _ _ h => h
  update := by
    intro f op upsert hQ db h
    cases hperform : ((writer name client).update f [op] upsert).perform db with
    | mk r db' =>
      cases r with
      | error e => exact hsame (writer_update_failsClean _ _ _ _ _ hperform).documents h
      | ok u =>
        obtain ⟨fresh, author, outcome, hup⟩ := exists_update_of_writer hperform
        exact hupdate hQ hup h
  freshIdentity := fun _ h => h
  now := fun _ h => h

/-- A write to a resolved path fails before it comes to its update, and then changes nothing, or
comes to what the update comes to. -/
theorem perform_update_resolved {m : Mutation} {path : MutationPath} (hpath : m.path? = some path)
    (op : FieldPath → Operator) (hop : ∀ field, (op field).path = field) {r : Except Error Unit}
    (h : (Mutation.resolveTarget (writer name client) id path >>= fun field =>
      (writer name client).update (.byId id) [op field] true).perform db = (r, db')) :
    (∃ e, r = .error e ∧ db' = db) ∨ ∃ op, m.Makes op ∧
      ((writer name client).update (.byId id) [op] true).perform db = (r, db') := by
  have hsilent : ((Mutation.resolveTarget (writer name client) id path).perform db).2 = db :=
    perform_resolveTarget_snd id path db
  rcases Action.perform_bind_cases (Mutation.resolveTarget (writer name client) id path)
      (fun field => (writer name client).update (.byId id) [op field] true) db with
    ⟨e, s, htarget, hbind⟩ | ⟨field, s, htarget, hbind⟩
  · rw [htarget] at hsilent
    obtain ⟨rfl, rfl⟩ := Prod.mk.inj (hbind.symm.trans h)
    exact .inl ⟨e, rfl, hsilent⟩
  · rw [htarget] at hsilent
    obtain rfl : s = db := hsilent
    obtain ⟨doc, resolved, hresolve, hplace⟩ := Mutation.resolveTarget_ok htarget
    rw [← hop field] at hplace
    exact .inr ⟨op field, .of_initial hpath hresolve List.prefix_rfl hplace, hbind.symm.trans h⟩

/-- Such a write is all that a record does that writes even if there is nothing to write to. -/
theorem perform_apply_of_upserts {m : Mutation} (hm : m.upserts = true) {r : Except Error Unit}
    (h : (m.apply (writer name client) user id).perform db = (r, db')) :
    (∃ e, r = .error e ∧ db' = db) ∨ ∃ op, m.Makes op ∧
      ((writer name client).update (.byId id) [op] true).perform db = (r, db') := by
  cases m with
  | set path value => exact perform_update_resolved rfl (.set · value) (fun _ => rfl) h
  | unset path => exact perform_update_resolved rfl .unset (fun _ => rfl) h
  | _ => cases hm

/-- How many documents records make, one after another up to the first that fails: as many as there
are records that set or take away a value and find nothing to write to. -/
def additions (name : String) (client user : Option String) (id : Json) :
    List Mutation → Database → Nat
  | [], _ => 0
  | m :: rest, db =>
    match (m.apply (writer name client) user id).perform db with
    | (.error _, _) => 0
    | (.ok (), db') =>
      (if m.upserts && (db.store.findOne name (.byId id)).isNone then 1 else 0) +
        additions name client user id rest db'

/-- A payload that was read changes what the records in it change that could be read. -/
theorem exists_applyRecords_of_push {p : Payload} (hwire : p.IsWire) {options : SessionOptions}
    {r : Except Error Unit} (h : (push options p).perform db = (r, db')) :
    ∃ r', (Payload.applyRecords (writer p.collection options.client) options.user p.id 0
      p.mutations).perform db = (r', db') ∧ (r = .ok () → r' = .ok ()) := by
  rw [push, Payload.apply] at h
  cases hrecords : (Payload.applyRecords (writer p.collection options.client) options.user p.id 0
      p.mutations).perform db with
  | mk r' s =>
    cases r' with
    | error e =>
      obtain ⟨rfl, rfl⟩ := Prod.mk.inj ((Action.perform_bind_error hrecords).symm.trans h)
      exact ⟨_, rfl, fun he => by cases he⟩
    | ok u =>
      rw [Action.perform_bind_ok hrecords] at h
      cases hrejected : p.rejected with
      | none =>
        rw [hrejected] at h
        obtain ⟨-, rfl⟩ := Prod.mk.inj h
        exact ⟨_, rfl, fun _ => rfl⟩
      | some record =>
        obtain ⟨e, he⟩ := hwire.rejected record hrejected
        have hfails : (Payload.applyWire (writer p.collection options.client) options.user p.id
            record).perform s = (.error e, s) := Payload.perform_applyWire_of_error he s
        have hcontext := Payload.perform_inContext_error hfails p.mutations.length record
        rw [hrejected] at h
        obtain ⟨rfl, rfl⟩ := Prod.mk.inj (hcontext.symm.trans h)
        exact ⟨_, rfl, fun he => by cases he⟩

/-! ## Where the document is found -/

section Found

variable {s₀ : Store} {t : String} {doc : Json}

/-- The document with an identity was rewritten, and nothing else. -/
def RewrittenFrom (s₀ : Store) (name t : String) (doc : Json) (s : Store) : Prop :=
  s.Sound ∧ ∃ new, s₀.Rewritten name t doc new s

/-- A record that is no creation only rewrites the one that is there. -/
theorem keeping_apply_of_found (client user : Option String) {m : Mutation}
    (hcreates : m.creates = false) :
    Action.Within (Keeping (RewrittenFrom s₀ name t doc))
      (m.apply (writer name client) user (.str t)) := by
  have hwriter : (writer name client).WithinFor (Keeping (RewrittenFrom s₀ name t doc))
      (fun f _ _ => f = .byId (.str t)) := by
    refine keeping_writer (fun hsame ⟨hs, new, hnew⟩ => ?_)
      (fun hf _ _ _ _ _ hup ⟨hs, mid, hmid⟩ => ?_)
    · exact ⟨hs.congr hsame, new, hnew.congr hsame⟩
    · subst hf
      obtain ⟨new, -, hnew⟩ := hs.rewritten_of_update_byId hmid.stored_after hmid.id_after hup
      exact ⟨hs.of_update hup, new, hmid.trans hnew⟩
  refine Mutation.within_apply_of_makes hwriter user (fun _ _ _ _ => rfl) fun hcreate => ?_
  rw [hcreates] at hcreate
  cases hcreate

/-- All records find it. -/
theorem additions_of_found {ms : List Mutation} (hcreates : ∀ m ∈ ms, m.creates = false)
    (h : RewrittenFrom s₀ name t doc db.store) :
    additions name client user (.str t) ms db = 0 := by
  induction ms generalizing db with
  | nil => rfl
  | cons m rest ih =>
    obtain ⟨hm, hrest⟩ := List.forall_mem_cons.mp hcreates
    have hkept := keeping_apply_of_found client user hm db h
    obtain ⟨hs, new, hnew⟩ := h
    rw [additions, hnew.findOne hs]
    cases hfirst : (m.apply (writer name client) user (.str t)).perform db with
    | mk answer db₁ =>
      rw [hfirst] at hkept
      cases answer with
      | error e => rfl
      | ok u => simp [ih hrest hkept]

end Found

/-! ## Where it is not -/

section Missing

variable {s₀ : Store} {added : Collection}

/-- A record that is no creation and writes only to what is there rewrites documents behind those
that were there at first. -/
theorem keeping_apply_of_missing (hs : s₀.Sound) (hids : s₀.StringIds)
    (hmissing : s₀.findOne name (.byId id) = none) (client user : Option String) {m : Mutation}
    (hcreates : m.creates = false) (hupserts : m.upserts = false) :
    Action.Within (Keeping fun s => ∃ added', s₀.Grown name added' s ∧ added.Renewed added')
      (m.apply (writer name client) user id) := by
  have hwriter : (writer name client).WithinFor
      (Keeping fun s => ∃ added', s₀.Grown name added' s ∧ added.Renewed added')
      (fun f _ upsert => f = .byId id ∧ upsert = false) := by
    refine keeping_writer (fun hsame ⟨added', h, hrenewed⟩ => ?_)
      (fun ⟨hf, hupsert⟩ _ _ _ _ _ hup ⟨added', h, hrenewed⟩ => ?_)
    · exact ⟨added', h.congr hsame, hrenewed⟩
    · subst hf hupsert
      obtain ⟨more, hmore, hrest⟩ := h.update_renewed hs hids hmissing Bool.noConfusion hup
      exact ⟨more, hmore, hrenewed.trans hrest⟩
  refine Mutation.within_apply_of_makes hwriter user (fun op upsert _ hupsert => ⟨rfl, ?_⟩)
    fun hcreate => ?_
  · cases upsert with
    | false => rfl
    | true => exact (hupsert rfl).symm.trans hupserts
  · rw [hcreates] at hcreate
    cases hcreate

/-- So does any other record that is no creation, if it finds a document, and also if it fails. -/
theorem exists_renewed_of_apply (hs : s₀.Sound) (hids : s₀.StringIds)
    (hmissing : s₀.findOne name (.byId id) = none) (h : s₀.Grown name added db.store)
    {m : Mutation} (hcreates : m.creates = false) {r : Except Error Unit}
    (hperform : (m.apply (writer name client) user id).perform db = (r, db'))
    (hfound : m.upserts = true → r = .ok () →
      (db.store.findOne name (.byId id)).isSome = true) :
    ∃ added', s₀.Grown name added' db'.store ∧ added.Renewed added' := by
  cases hupserts : m.upserts with
  | false =>
    have hkept := keeping_apply_of_missing hs hids hmissing client user hcreates hupserts db
      ⟨added, h, .refl⟩
    rwa [hperform] at hkept
  | true =>
    rcases perform_apply_of_upserts hupserts hperform with ⟨e, -, rfl⟩ | ⟨op, -, hwrite⟩
    · exact ⟨added, h, .refl⟩
    · cases r with
      | error e =>
        have hsame := writer_update_failsClean _ _ _ _ _ hwrite
        exact ⟨added, h.congr hsame.documents, .refl⟩
      | ok u =>
        obtain ⟨fresh, author, outcome, hup⟩ := exists_update_of_writer hwrite
        exact h.update_renewed hs hids hmissing (fun _ => hfound hupserts rfl) hup

/-- A record that finds no document and writes nevertheless adds one. It lies under the key of the
identity of the payload if there is one and the record does not write to it. -/
theorem exists_added_of_apply (h : s₀.Grown name added db.store) {m : Mutation}
    (hupserts : m.upserts = true) (hnone : db.store.findOne name (.byId id) = none)
    (hperform : (m.apply (writer name client) user id).perform db = (.ok (), db')) :
    ∃ key stored, s₀.Grown name (added ++ [(key, stored)]) db'.store ∧
      (id ≠ .null → m.Avoids Document.idField → key = Identity.key id) := by
  rcases perform_apply_of_upserts hupserts hperform with ⟨e, he, -⟩ | ⟨op, hmakes, hwrite⟩
  · cases he
  obtain ⟨fresh, author, outcome, hup⟩ := exists_update_of_writer hwrite
  obtain ⟨key, stored, doc, hgrown, hrun, hstored⟩ := h.update_added hnone hup
  refine ⟨key, stored, hgrown, fun hnull hm => Document.key_of_withIdentity hstored ?_ hnull⟩
  -- the identity is still the one that the document was started with
  have havoids : Update.Avoids Document.idField [op] := by
    refine List.forall_mem_singleton.mpr ?_
    rcases hmakes.avoids (by decide) hm with hop | ⟨value, rfl⟩
    · exact hop
    · exact ⟨List.cons_ne_nil _ _, fun he => absurd (Option.some.inj he) (by decide)⟩
  have hseed : Json.DistinctObject (.obj [("_id", id)]) := ⟨_, rfl, List.nodup_singleton _⟩
  rw [Document.id?, Update.field?_of_run_attributed havoids (by decide) hseed hrun]
  rfl

/-- What one record that applies makes of the documents behind. -/
theorem exists_grown_of_apply (hs : s₀.Sound) (hids : s₀.StringIds)
    (hmissing : s₀.findOne name (.byId id) = none) (h : s₀.Grown name added db.store)
    {m : Mutation} (hcreates : m.creates = false)
    (hperform : (m.apply (writer name client) user id).perform db = (.ok (), db')) :
    ∃ added', s₀.Grown name added' db'.store ∧
      added'.length = added.length +
        (if m.upserts && (db.store.findOne name (.byId id)).isNone then 1 else 0) ∧
      (id ≠ .null → (m.upserts = true → m.Avoids Document.idField) →
        (∀ kd ∈ added, kd.1 = Identity.key id) → ∀ kd ∈ added', kd.1 = Identity.key id) := by
  by_cases hadds : (m.upserts && (db.store.findOne name (.byId id)).isNone) = true
  · obtain ⟨hupserts, hnone⟩ := (Bool.and_eq_true _ _).mp hadds
    rw [Option.isNone_iff_eq_none] at hnone
    obtain ⟨key, stored, hgrown, hkey⟩ := exists_added_of_apply h hupserts hnone hperform
    refine ⟨added ++ [(key, stored)], hgrown, ?_, fun hnull hm hold => ?_⟩
    · rw [if_pos hadds, List.length_append, List.length_singleton]
    · exact List.forall_mem_append.mpr
        ⟨hold, List.forall_mem_singleton.mpr (hkey hnull (hm hupserts))⟩
  · obtain ⟨added', hgrown, hrenewed⟩ :=
      exists_renewed_of_apply hs hids hmissing h hcreates hperform fun hupserts _ => by
        rw [hupserts, Bool.true_and, Bool.not_eq_true, Option.isNone_eq_false_iff] at hadds
        exact hadds
    refine ⟨added', hgrown, ?_, fun _ _ => hrenewed.forall_key (p := (· = Identity.key id))⟩
    rw [if_neg hadds, hrenewed.length_eq, Nat.add_zero]

end Missing

section Runs

variable {s₀ : Store} {added : Collection} {ms : List Mutation} {index : Nat}

/-- Records, one after another, whether they all apply or not. -/
theorem exists_grown_of_applyRecords (hs : s₀.Sound) (hids : s₀.StringIds)
    (hmissing : s₀.findOne name (.byId id) = none) (h : s₀.Grown name added db.store)
    (hcreates : ∀ m ∈ ms, m.creates = false) {r : Except Error Unit}
    (hperform : (Payload.applyRecords (writer name client) user id index ms).perform db =
      (r, db')) :
    ∃ added', s₀.Grown name added' db'.store ∧
      added'.length = added.length + additions name client user id ms db ∧
      (id ≠ .null → (∀ m ∈ ms, m.upserts = true → m.Avoids Document.idField) →
        (∀ kd ∈ added, kd.1 = Identity.key id) → ∀ kd ∈ added', kd.1 = Identity.key id) := by
  induction ms generalizing db added index with
  | nil =>
    obtain ⟨-, rfl⟩ := Prod.mk.inj hperform
    exact ⟨added, h, rfl, fun _ _ hold => hold⟩
  | cons m rest ih =>
    obtain ⟨hm, hrest⟩ := List.forall_mem_cons.mp hcreates
    rw [Payload.applyRecords] at hperform
    cases hfirst : (m.apply (writer name client) user id).perform db with
    | mk answer db₁ =>
      cases answer with
      | error e =>
        have hcontext := Payload.perform_inContext_error hfirst index m.toJson
        obtain ⟨-, rfl⟩ := Prod.mk.inj ((Action.perform_bind_error hcontext).symm.trans hperform)
        obtain ⟨added', hgrown, hrenewed⟩ :=
          exists_renewed_of_apply hs hids hmissing h hm hfirst fun _ he => by cases he
        refine ⟨added', hgrown, ?_, fun _ _ => hrenewed.forall_key (p := (· = Identity.key id))⟩
        rw [additions, hfirst, hrenewed.length_eq, Nat.add_zero]
      | ok u =>
        have hcontext := Payload.perform_inContext_ok hfirst index m.toJson
        rw [Action.perform_bind_ok hcontext] at hperform
        obtain ⟨mid, hmid, hlength, hown⟩ := exists_grown_of_apply hs hids hmissing h hm hfirst
        obtain ⟨added', hgrown, hlength', hown'⟩ := ih hmid hrest hperform
        refine ⟨added', hgrown, ?_, fun hnull havoids hold => ?_⟩
        · rw [additions, hfirst, hlength', hlength, Nat.add_assoc]
        · obtain ⟨havoid, havoids⟩ := List.forall_mem_cons.mp havoids
          exact hown' hnull havoids (hown hnull havoid hold)

/-- Without an identity, each record that sets or takes away a value makes a document of its own. -/
theorem additions_of_null (hs : s₀.Sound) (hids : s₀.StringIds)
    (h : s₀.Grown name added db.store) (hcreates : ∀ m ∈ ms, m.creates = false)
    (hperform : (Payload.applyRecords (writer name client) user .null index ms).perform db =
      (.ok (), db')) :
    additions name client user .null ms db = ms.countP Mutation.upserts := by
  induction ms generalizing db added index with
  | nil => rfl
  | cons m rest ih =>
    obtain ⟨hm, hrest⟩ := List.forall_mem_cons.mp hcreates
    obtain ⟨db₁, hfirst, hothers⟩ := (Payload.perform_applyRecords_cons_ok_iff ..).mp hperform
    have hmissing := (Store.grown_refl hs name).findOne_byId_null hs hids
    obtain ⟨mid, hmid, -⟩ := exists_grown_of_apply hs hids hmissing h hm hfirst
    rw [additions, hfirst, h.findOne_byId_null hs hids, List.countP_cons, Nat.add_comm]
    simp only [Option.isNone_none, Bool.and_true]
    rw [ih hmid hrest hothers]

end Runs

end Database

/-- How many documents the records of a payload make. -/
def Payload.additions (p : Payload) (options : SessionOptions) (db : Database) : Nat :=
  Database.additions p.collection options.client options.user p.id p.mutations db

namespace Watch

/-- **A payload is about one document.** After any calls, let all identities be strings, and let a
payload be pushed that holds no record of a creation. Whether it succeeds or fails, it leaves other
collections alone. If its identity finds a document, then this one gives way to another, in its
place, and nothing else changes. If it finds none, then all documents stay, and behind them come as
many as there were records that set or take away a value and found nothing to write to. So at most
one document is changed or added just if there was at most one such record. This is so if the
payload has an identity and none of these records writes to the identity; without an identity, each
of them adds a document of its own. -/
theorem push_shifts_one_document_iff (supply : Supply) (settings : Settings)
    (options : SessionOptions) (calls : List Call) {db : Database}
    (hdb : (after supply settings options calls).database = db) (hids : db.store.StringIds)
    (session : Session) {v : Json} {p : Payload} (hp : Payload.ofJson v = .ok p)
    (hcreates : ∀ m ∈ p.mutations, m.creates = false) {r : Except Error Unit} {db' : Database}
    (h : (session.push v).perform db = (r, db')) :
    (∀ other, other ≠ p.collection →
      db'.store.collection other = db.store.collection other) ∧
    (∀ doc, db.store.findOne p.collection (.byId p.id) = some doc →
      ∃ new, db.store.Shift p.collection (some doc) (some new) db'.store) ∧
    (db.store.findOne p.collection (.byId p.id) = none →
      ∃ added, (db'.store.collection p.collection).documents =
        (db.store.collection p.collection).documents ++ added ∧
        added.length = p.additions session.options db) ∧
    ((∃ before after, db.store.Shift p.collection before after db'.store) ↔
      p.additions session.options db ≤ 1) ∧
    (p.id ≠ .null → (∀ m ∈ p.mutations, m.upserts = true → m.Avoids Document.idField) →
      p.additions session.options db ≤ 1) ∧
    (p.id = .null → r = .ok () →
      p.additions session.options db = p.mutations.countP Mutation.upserts) := by
  have hsound : db.store.Sound := hdb ▸ sound_after calls
  rw [Session.perform_push hp] at h
  obtain ⟨r', hrecords, hok⟩ :=
    Database.exists_applyRecords_of_push (Payload.isWire_of_ofJson hp) h
  cases hfound : db.store.findOne p.collection (.byId p.id) with
  | some doc =>
    obtain ⟨key, t, hmem, hid, hpid⟩ := Database.exists_of_findOne_byId hids hfound
    have hstart : Database.RewrittenFrom db.store p.collection t doc db.store :=
      ⟨hsound, doc, .refl hsound hmem hid⟩
    have hafter := Payload.within_applyRecords 0 (fun m hm => Database.keeping_apply_of_found
      session.options.client session.options.user (hcreates m hm)) db hstart
    rw [hpid] at hrecords
    rw [hrecords] at hafter
    obtain ⟨-, new, hnew⟩ := hafter
    have hnone : p.additions session.options db = 0 := by
      rw [Payload.additions, hpid]
      exact Database.additions_of_found hcreates hstart
    have hshift := hnew.shift hsound
    rw [hnone]
    refine ⟨hnew.others, fun doc' hdoc' => ?_, fun h => ?_, ?_, fun _ _ => Nat.zero_le 1,
      fun hnull => ?_⟩
    · exact Option.some.inj hdoc' ▸ ⟨new, hshift⟩
    · cases h
    · exact iff_of_true ⟨_, _, hshift⟩ (Nat.zero_le 1)
    · rw [hpid] at hnull
      cases hnull
  | none =>
    obtain ⟨added, hgrown, hlength, hown⟩ := Database.exists_grown_of_applyRecords hsound hids
      hfound (Store.grown_refl hsound p.collection) hcreates hrecords
    rw [List.length_nil, Nat.zero_add, ← Payload.additions] at hlength
    rw [← hlength]
    refine ⟨hgrown.others, fun doc hdoc => ?_, fun _ => ?_, hgrown.shifts_iff,
      fun hnull havoids => ?_, fun hnull hr => ?_⟩
    · cases hdoc
    · refine ⟨Collection.documents added, ?_, List.length_map _⟩
      rw [hgrown.collection, Collection.documents_append]
    · exact hgrown.length_le_one (hown hnull havoids fun _ hkd => absurd hkd List.not_mem_nil)
    · rw [hok hr, hnull] at hrecords
      rw [hlength, Payload.additions, hnull]
      exact Database.additions_of_null hsound hids (Store.grown_refl hsound p.collection) hcreates
        hrecords

/-- A supply that spells how many identities were drawn before. -/
def countingSupply : Supply := ⟨fun n => String.ofList (Decimal.natChars n), fun _ => ⟨0, 0⟩, 0⟩

/-- Two values, for the document with an identity, or for one without. -/
def twoSets (id : Members Json) : Json :=
  .obj ([("collection", .str "t")] ++ id ++ [("mutations", .arr [
    .obj [("type", .str "set"), ("path", .arr [.str "a"]), ("value", .nat 1)],
    .obj [("type", .str "set"), ("path", .arr [.str "b"]), ("value", .nat 2)]])])

/-- The payload that it is read as. -/
def twoSetsOf (id : Json) : Payload where
  collection := "t"
  id := id
  mutations := [.set [.literal "a"] (.nat 1), .set [.literal "b"] (.nat 2)]
  rejected := none

/-- With an identity that finds nothing, the first record makes a document, and the second one finds
it. -/
theorem push_shifts_one_document_named : ∃ db',
    (Session.root.push (twoSets [("_id", .str "x")])).perform
      (after countingSupply .standard .anonymous []).database = (.ok (), db') ∧
    (∃ before new, (after countingSupply .standard .anonymous []).database.store.Shift "t" before
      new db'.store) ∧
    (twoSetsOf (.str "x")).additions .anonymous
      (after countingSupply .standard .anonymous []).database = 1 := by
  obtain ⟨db', hperform⟩ : ∃ db', (Session.root.push (twoSets [("_id", .str "x")])).perform
      (after countingSupply .standard .anonymous []).database = (.ok (), db') := ⟨_, rfl⟩
  have hids : (after countingSupply .standard .anonymous []).database.store.StringIds :=
    Store.stringIds_of_forall fun _ hnamed => absurd hnamed List.not_mem_nil
  have hp : Payload.ofJson (twoSets [("_id", .str "x")]) = .ok (twoSetsOf (.str "x")) := rfl
  obtain ⟨-, -, -, hone, hplain, -⟩ := push_shifts_one_document_iff countingSupply .standard
    .anonymous [] rfl hids .root hp (by simp [twoSetsOf, Mutation.creates]) hperform
  refine ⟨db', hperform, hone.mpr (hplain Json.noConfusion ?_), rfl⟩
  simp [twoSetsOf, Mutation.Avoids, Mutation.path?, FieldPath.Avoids, Segment.text,
    Document.idField]

/-- Without an identity, the same records make two documents. -/
theorem push_without_identity_adds_two : ∃ db',
    (Session.root.push (twoSets [])).perform
      (after countingSupply .standard .anonymous []).database = (.ok (), db') ∧
    (after countingSupply .standard .anonymous []).database.store.StringIds ∧
    Payload.ofJson (twoSets []) = .ok (twoSetsOf .null) ∧
    (∀ m ∈ (twoSetsOf .null).mutations, m.creates = false) ∧
    ¬ ∃ name before new, (after countingSupply .standard .anonymous []).database.store.Shift
      name before new db'.store := by
  obtain ⟨db', hperform, hlength⟩ : ∃ db', (Session.root.push (twoSets [])).perform
      (after countingSupply .standard .anonymous []).database = (.ok (), db') ∧
      (db'.store.collection "t").documents.length = 2 := ⟨_, rfl, rfl⟩
  refine ⟨db', hperform, Store.stringIds_of_forall fun _ hnamed => absurd hnamed List.not_mem_nil,
    rfl, by simp [twoSetsOf, Mutation.creates], ?_⟩
  rintro ⟨name, before, new, ⟨l, r, hbefore, hafter⟩, hothers⟩
  have hempty : ∀ name, ((after countingSupply .standard .anonymous []).database.store.collection
      name).documents = [] := fun _ => rfl
  by_cases hname : name = "t"
  · subst hname
    have hone : new.toList.length ≤ 1 := by cases new <;> simp
    rw [hempty, eq_comm, List.append_eq_nil_iff, List.append_eq_nil_iff] at hbefore
    rw [hafter, hbefore.1.1, hbefore.2, List.nil_append, List.append_nil] at hlength
    omega
  · rw [hothers "t" fun he => hname he.symm, hempty] at hlength
    cases hlength

end Watch
end DocWatch
