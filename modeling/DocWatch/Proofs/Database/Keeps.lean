import DocWatch.Proofs.Database.Write
import DocWatch.Proofs.Mutation.Apply
import DocWatch.Session

/-!
# What writes keep

Payloads and batches are made of single writes. So what single writes keep, they keep
(`Database.SingleWrites`). Whatever is written, and whether it succeeds or fails, the store stays
sound and no registration changes (`Database.Keeps`).

- `Database.SingleWrites.push`, `Database.SingleWrites.call`: from single writes to payloads and
  batches.
- `Database.within_insert`, `Database.within_update`, `Database.within_delete`: what single writes
  keep.
- `Database.within_push`, `Database.within_call`: what payloads and batches keep.
-/

namespace DocWatch

/-- What a dispatch knows besides its deliveries. -/
def Dispatch.tables (d : Dispatch) : Settings × QueryTable × Subscriptions :=
  (d.settings, d.queries, d.subscriptions)

namespace Database

/-! ## From single writes to batches -/

section SingleWrites

variable {R : Database → Database → Prop}

/-- Single writes move along a relation, and drawing an identity does. -/
structure SingleWrites (R : Database → Database → Prop) : Prop where
  insert : ∀ collection client doc, Action.Within R (Database.insert collection client doc)
  update : ∀ collection client f u upsert,
    Action.Within R (Database.update collection client f u upsert)
  delete : ∀ collection f, Action.Within R (Database.delete collection f)
  freshIdentity : Action.Within R Database.freshIdentity

variable [IsPreorder Database R]

theorem SingleWrites.writer (h : SingleWrites R) (collection : String) (client : Option String) :
    (writer collection client).Within R where
  find := fun _ => Action.within_view _
  update := fun f u upsert =>
    (h.update collection client f u upsert).bind fun _ => Action.within_pure ()
  insert := h.insert collection client
  freshIdentity := h.freshIdentity
  now := Action.within_view _

/-- So do payloads. -/
theorem SingleWrites.push (h : SingleWrites R) (options : SessionOptions) (p : Payload) :
    Action.Within R (Database.push options p) :=
  Payload.within_apply (h.writer p.collection options.client) options.user p

theorem SingleWrites.execute (h : SingleWrites R) (options : SessionOptions) (op : WriteOp) :
    Action.Within R (Database.execute options op) := by
  cases op with
  | insertOne collection doc => exact h.insert collection options.client doc
  | updateOne collection filter source upsert =>
    exact (Action.within_lift _).bind fun f => (Action.within_lift _).bind fun u =>
      (h.update collection options.client f u upsert).bind fun _ => Action.within_pure _
  | deleteOne collection filter =>
    exact (Action.within_lift _).bind fun f =>
      (h.delete collection f).bind fun _ => Action.within_pure _
  | push payload => exact (h.push options payload).bind fun _ => Action.within_pure _

/-- So do batches. -/
theorem SingleWrites.call (h : SingleWrites R) (options : SessionOptions) (ops : List WriteOp) :
    Action.Within R (Database.call options ops) := by
  induction ops with
  | nil => exact Action.within_pure []
  | cons op rest ih =>
    exact (h.execute options op).bind fun _ => ih.bind fun _ => Action.within_pure _

end SingleWrites

/-! ## What is kept -/

/-- The store stays sound, and settings, queries and subscriptions stay the same. -/
structure Keeps (db db' : Database) : Prop where
  sound : db.store.Sound → db'.store.Sound
  tables : db'.dispatch.map Dispatch.tables = db.dispatch.map Dispatch.tables

instance : IsPreorder Database Keeps where
  refl _ := { sound := id, tables := rfl }
  trans _ _ _ h h' := { sound := h'.sound ∘ h.sound, tables := h'.tables.trans h.tables }

theorem Keeps.exists_dispatch {db db' : Database} (h : db.Keeps db') {d : Dispatch}
    (hd : db.dispatch = some d) : ∃ d', db'.dispatch = some d' ∧ d'.queries = d.queries ∧
      d'.subscriptions = d.subscriptions := by
  have htables := h.tables
  rw [hd, Option.map_some, Option.map_eq_some_iff] at htables
  obtain ⟨d', hd', heq⟩ := htables
  obtain ⟨-, hrest⟩ := Prod.mk.inj heq
  obtain ⟨hqueries, hsubscriptions⟩ := Prod.mk.inj hrest
  exact ⟨d', hd', hqueries, hsubscriptions⟩

/-- Dispatching a change only adds deliveries. -/
theorem tables_notify (dispatch : Option Dispatch) (collection : String)
    (before after : Option Json) :
    (dispatch.map fun d => (d.notify collection before after).2).map Dispatch.tables =
      dispatch.map Dispatch.tables := by
  rw [Option.map_map]
  rfl

theorem within_insert (collection : String) (client : Option String) (doc : Json) :
    Action.Within Keeps (insert collection client doc) := by
  intro db
  cases hd : db.dispatch with
  | none =>
    rw [perform_insert_none hd]
    exact refl_of Keeps db
  | some d =>
    rw [perform_insert hd]
    have hsound := fun hs : db.store.Sound =>
      (Store.insert_change db.store collection db.fresh
        (attributed doc (db.author d client))).sound hs
    cases hins : db.store.insert collection db.fresh (attributed doc (db.author d client)) with
    | mk r s =>
      rw [hins] at hsound
      cases r with
      | error e => exact { sound := hsound, tables := rfl }
      | ok id => exact { sound := hsound, tables := tables_notify db.dispatch collection _ _ }

theorem within_update (collection : String) (client : Option String) (f : Filter) (u : Update)
    (upsert : Bool) : Action.Within Keeps (update collection client f u upsert) := by
  intro db
  cases hd : db.dispatch with
  | none =>
    rw [perform_update_none hd]
    exact refl_of Keeps db
  | some d =>
    rw [perform_update hd]
    have hsound := fun hs : db.store.Sound =>
      (Store.update_change hs.distinct collection db.fresh f
        (u.attributed (db.author d client)) upsert).sound hs
    cases hup : db.store.update collection db.fresh f
        (u.attributed (db.author d client)) upsert with
    | mk r s =>
      rw [hup] at hsound
      cases r with
      | error e => exact { sound := hsound, tables := rfl }
      | ok outcome => exact { sound := hsound, tables := tables_notify db.dispatch collection _ _ }

theorem within_delete (collection : String) (f : Filter) :
    Action.Within Keeps (delete collection f) := by
  intro db
  cases hd : db.dispatch with
  | none =>
    rw [perform_delete_none hd]
    exact refl_of Keeps db
  | some d =>
    rw [perform_delete hd]
    exact { sound := fun hs => (Store.delete_change hs.distinct collection f).sound hs,
            tables := tables_notify db.dispatch collection _ _ }

theorem keeps_singleWrites : SingleWrites Keeps where
  insert := within_insert
  update := within_update
  delete := within_delete
  freshIdentity := fun _ => { sound := id, tables := rfl }

/-- A payload keeps the store sound and the registrations as they are. -/
theorem within_push (options : SessionOptions) (p : Payload) :
    Action.Within Keeps (push options p) :=
  keeps_singleWrites.push options p

/-- A batch keeps the store sound and the registrations as they are. -/
theorem within_call (options : SessionOptions) (ops : List WriteOp) :
    Action.Within Keeps (call options ops) :=
  keeps_singleWrites.call options ops

end Database
end DocWatch
