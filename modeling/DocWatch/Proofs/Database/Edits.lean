import DocWatch.Proofs.Database.Removal

/-!
# Edits

A record of an edit sets, takes away or inserts a value at a path, which is resolved in the document
that is there when its turn comes. So in a payload of edits each one starts from the document that
the one before it has left. An edit changes nothing but the member that its path begins with, and
the entries.

- `Mutation.Edits`: what an edit does to a document.
- `Mutation.Leads`: edits in a row, each from the document that the one before it has left.
- `Database.exists_edits_of_apply`, `Database.exists_leads_of_applyRecords`: one record, and a run
  of records.
- `Watch.edits_follow_each_other`: payloads of edits.
-/

namespace DocWatch

/-! ## What an edit does -/

namespace Mutation

/-- A list with one more element, at a position or at the end. The end is the last position. -/
def inserted (items : List Json) (element : Json) : Option Nat → List Json
  | none => items ++ [element]
  | some q => items.insertIdx (min q items.length) element

theorem splice_singleton (items : List Json) (element : Json) (position : Option Nat) :
    Operator.splice items [element] position = inserted items element position := by
  cases position with
  | none => rfl
  | some q =>
    rw [Operator.splice, inserted]
    induction items generalizing q with
    | nil => simp
    | cons first rest ih =>
      cases q with
      | zero => simp
      | succ q =>
        rw [List.length_cons, Nat.add_min_add_right, List.insertIdx_succ_cons, ← ih q]
        rfl

/-- The records that edit the value at a path. -/
def IsEdit : Mutation → Prop
  | .set .. | .unset .. | .insert .. => True
  | _ => False

/-- No object in a value that is written has a key twice. -/
def KeysDistinct : Mutation → Prop
  | .set _ value => value.KeysDistinct
  | .insert _ _ element => element.KeysDistinct
  | _ => True

/-- What an edit does. Its path is resolved in the document before it. A value that was set is there
afterwards, and one that was taken away is not, or it is null in a slot of an array. What is
inserted comes into the array that was there, or into an empty one. -/
inductive Edits (doc new : Json) : Mutation → Prop
  | set {path resolved : MutationPath} {value : Json}
      (hresolve : path.resolve (some doc) = .ok resolved)
      (hvalue : new.get? (resolved.map Segment.text) = some value)
      (hkept : Document.Kept (resolved.map Segment.text) doc new) : Edits doc new (.set path value)
  | unset {path resolved : MutationPath} (hresolve : path.resolve (some doc) = .ok resolved)
      (hgone : new.get? (resolved.map Segment.text) = none ∨
        (new.get? (resolved.map Segment.text) = some .null ∧
          ∃ items, new.get? (resolved.map Segment.text).dropLast = some (.arr items)))
      (hkept : Document.Kept (resolved.map Segment.text) doc new) : Edits doc new (.unset path)
  | insert {path resolved place : MutationPath} {index position : Option Nat} {element : Json}
      {items : List Json} (hresolve : path.resolve (some doc) = .ok resolved)
      (hplace : resolved.Names index place position)
      (hbefore : doc.get? (place.map Segment.text) = some (.arr items) ∨
        doc.get? (place.map Segment.text) = none ∧ items = [])
      (hafter : new.get? (place.map Segment.text) = some (.arr (inserted items element position)))
      (hkept : Document.Kept (place.map Segment.text) doc new) :
      Edits doc new (.insert path index element)

/-- Edits in a row, each of them done to what the one before it has left. -/
inductive Leads : List Mutation → Json → Json → Prop
  | nil (doc : Json) : Leads [] doc doc
  | cons {m : Mutation} {ms : List Mutation} {doc mid new : Json} (h : m.Edits doc mid)
      (hrest : Leads ms mid new) : Leads (m :: ms) doc new

end Mutation

/-! ## Operators of edits -/

/-- A record of provenance has no key twice. -/
theorem Provenance.keysDistinct_toJson (p : Provenance) : p.toJson.KeysDistinct := by
  cases hclient : p.client <;>
    simp [toJson, hclient, Json.ofText?, Json.KeysDistinct, Json.KeysDistinctFields, Members.keys]

section Run

variable {op : Operator} {path : FieldPath} {author : Option Provenance} {doc new : Json}

/-- An attributed operator leaves no key twice if none was there and none is written. -/
theorem Update.keysDistinct_of_run (hroot : op.path ≠ []) (hop : op.KeysDistinct)
    (hdoc : doc.KeysDistinct) (h : run (attributed [op] author) doc = .ok new) :
    new.KeysDistinct := by
  obtain ⟨field, rest, hpath⟩ := List.exists_cons_of_ne_nil hroot
  have hu : Update.KeysDistinct (attributed [op] author) := by
    rw [attributed_singleton field rest hpath]
    refine List.forall_mem_cons.mpr ⟨hop, fun op' hop' => ?_⟩
    cases author with
    | none => cases hop'
    | some p =>
      rw [stamp] at hop'
      split at hop'
      · rw [List.mem_singleton.mp hop']
        exact p.keysDistinct_toJson
      · cases hop'
  have halike := (Update.apply_alike hu (Json.Alike.refl hdoc)).1
  unfold run at h
  split at h
  · rename_i happly
    rw [happly] at halike
    exact Except.ok.inj h ▸ halike.left
  · cases h

/-- What an attributed operator leaves below the member that its path begins with. -/
theorem Update.exists_get?_of_run {field : String} (hpath : op.path.head? = some field)
    (hdoc : doc.isObject = true) (h : run (attributed [op] author) doc = .ok new) :
    ∃ plain, op.apply doc = (plain, none) ∧ plain.isObject = true ∧
      ∀ below, new.get? (field :: below) = plain.get? (field :: below) := by
  obtain ⟨rest, hpath⟩ : ∃ rest, op.path = field :: rest := List.head?_eq_some_iff.mp hpath
  obtain ⟨plain, happly, hplain, hnew, hfields⟩ := exists_apply_of_run_attributed hpath hdoc h
  exact ⟨plain, happly, hplain,
    Json.get?_of_field?_eq hnew hplain (hfields field fun hmeta => hmeta)⟩

/-- A value that is set is there afterwards. -/
theorem Update.get?_of_run_set {value : Json} (hroot : path ≠ []) (hdoc : doc.isObject = true)
    (h : run (attributed [.set path value] author) doc = .ok new) :
    new.get? path = some value := by
  obtain ⟨field, rest, rfl⟩ := List.exists_cons_of_ne_nil hroot
  obtain ⟨plain, happly, -, hget⟩ := exists_get?_of_run rfl hdoc h
  rw [hget]
  exact Json.get?_of_set ((apply_set_ok_iff _ _ _ _).mp happly)

/-- A value that is taken away is gone afterwards, or null in a slot of an array. -/
theorem Update.get?_of_run_unset (hroot : path ≠ []) (hdoc : doc.isObject = true)
    (hdistinct : doc.KeysDistinct) (h : run (attributed [.unset path] author) doc = .ok new) :
    new.get? path = none ∨
      (new.get? path = some .null ∧ ∃ items, new.get? path.dropLast = some (.arr items)) := by
  obtain ⟨field, rest, rfl⟩ := List.exists_cons_of_ne_nil hroot
  obtain ⟨plain, happly, hplain, hget⟩ := exists_get?_of_run rfl hdoc h
  obtain rfl : (doc.unset (field :: rest)).1 = plain := congrArg Prod.fst happly
  rw [hget]
  refine (Json.get?_unset hdistinct hroot).imp_right ?_
  rintro ⟨hnull, items, hitems⟩
  refine ⟨hnull, items, ?_⟩
  cases rest with
  | nil =>
    -- a document is no array
    rw [Option.some.inj hitems] at hplain
    cases hplain
  | cons next below => rwa [List.dropLast_cons_cons, hget]

/-- An element that is inserted comes into the array that was there, or into a new one. -/
theorem Update.exists_items_of_run_push {element : Json} {position : Option Nat}
    (hroot : path ≠ []) (hdoc : doc.isObject = true)
    (h : run (attributed [.push path [element] position] author) doc = .ok new) :
    ∃ items, (doc.get? path = some (.arr items) ∨ doc.get? path = none ∧ items = []) ∧
      new.get? path = some (.arr (Mutation.inserted items element position)) := by
  obtain ⟨field, rest, rfl⟩ := List.exists_cons_of_ne_nil hroot
  obtain ⟨plain, happly, -, hget⟩ := exists_get?_of_run rfl hdoc h
  obtain ⟨items, hbefore, hafter⟩ := Operator.exists_items_of_apply_push happly
  rw [Mutation.splice_singleton] at hafter
  exact ⟨items, hbefore, (hget rest).trans hafter⟩

end Run

/-! ## Records of edits -/

namespace Database

variable {db db' : Database} {name : String} {client user : Option String}

/-- A write resolves its path in the document that is stored. -/
theorem exists_of_resolveTarget_bind {id : Json} {path : MutationPath}
    {f : FieldPath → Action Database Unit}
    (h : (Mutation.resolveTarget (writer name client) id path >>= f).perform db = (.ok (), db')) :
    ∃ resolved field, path.resolve (db.store.findOne name (.byId id)) = .ok resolved ∧
      resolved.target path = .ok field ∧ (f field).perform db = (.ok (), db') := by
  obtain ⟨field, s, htarget, hf⟩ := Action.perform_bind_eq_ok h
  unfold Mutation.resolveTarget at htarget
  by_cases href : path.hasRefs = true
  · rw [if_pos href] at htarget
    obtain ⟨resolved, hresolve, hlift⟩ :=
      exists_of_find_bind (f := fun _ resolved => Action.lift (resolved.target path)) htarget
    obtain ⟨hfield, rfl⟩ := Prod.mk.inj hlift
    exact ⟨resolved, field, hresolve, hfield, hf⟩
  · rw [if_neg href] at htarget
    obtain ⟨hfield, rfl⟩ := Prod.mk.inj htarget
    exact ⟨path, field, by rw [MutationPath.resolve, if_neg href], hfield, hf⟩

/-- A write of one operator that succeeds has rewritten the document, has kept what lies beside its
path, and leaves no key twice. -/
theorem exists_kept_of_writer_update (hs : db.store.Sound) {slot t : String} {doc : Json}
    (hmem : (slot, doc) ∈ db.store.collection name) (hid : Document.id? doc = some (.str t))
    (hdistinct : doc.KeysDistinct) {op : Operator} {upsert : Bool}
    (h : ((writer name client).update (.byId (.str t)) [op] upsert).perform db = (.ok (), db'))
    (hroot : op.path ≠ []) :
    ∃ new author, Update.run (Update.attributed [op] author) doc = .ok new ∧
      Document.Kept op.path doc new ∧ (op.KeysDistinct → new.KeysDistinct) ∧
      db.store.Rewritten name t doc new db'.store ∧ db'.store.Sound := by
  obtain ⟨new, author, hrun, hnew, hs'⟩ := rewritten_of_writer_update hs hmem hid h
  refine ⟨new, author, hrun, ?_, fun hop => Update.keysDistinct_of_run hroot hop hdistinct hrun,
    hnew, hs'⟩
  have hobject : doc.DistinctObject := by
    obtain ⟨fields, rfl, -⟩ := Document.exists_obj_of_id? hid
    exact ⟨fields, rfl, hdistinct.1⟩
  obtain ⟨field, rest, hpath⟩ := List.exists_cons_of_ne_nil hroot
  rw [hpath]
  exact Document.Kept.of_run hpath hobject hrun

/-- So has a record that writes to its resolved path. -/
theorem exists_kept_of_resolved (hs : db.store.Sound) {slot t : String} {doc : Json}
    (hmem : (slot, doc) ∈ db.store.collection name) (hid : Document.id? doc = some (.str t))
    (hdistinct : doc.KeysDistinct) (op : FieldPath → Operator)
    (hop : ∀ target, (op target).path = target) {path : MutationPath} {upsert : Bool}
    (h : (Mutation.resolveTarget (writer name client) (.str t) path >>= fun target =>
      (writer name client).update (.byId (.str t)) [op target] upsert).perform db =
        (.ok (), db')) :
    ∃ resolved target new author, path.resolve (some doc) = .ok resolved ∧
      target = resolved.map Segment.text ∧ target ≠ [] ∧
      Update.run (Update.attributed [op target] author) doc = .ok new ∧
      Document.Kept target doc new ∧ ((op target).KeysDistinct → new.KeysDistinct) ∧
      db.store.Rewritten name t doc new db'.store ∧ db'.store.Sound := by
  obtain ⟨resolved, target, hresolve, htarget, hupdate⟩ := exists_of_resolveTarget_bind h
  rw [hs.findOne_byId hmem hid] at hresolve
  obtain ⟨htext, hroot⟩ := MutationPath.target_ok htarget
  rw [← hop target] at hroot
  obtain ⟨new, author, hrun, hkept, hnew⟩ :=
    exists_kept_of_writer_update hs hmem hid hdistinct hupdate hroot
  rw [hop target] at hroot hkept
  exact ⟨resolved, target, new, author, hresolve, htext, hroot, hrun, hkept, hnew⟩

/-- An edit that succeeds has rewritten the document. -/
theorem exists_edits_of_apply (hs : db.store.Sound) {slot t : String} {doc : Json}
    (hmem : (slot, doc) ∈ db.store.collection name) (hid : Document.id? doc = some (.str t))
    (hdistinct : doc.KeysDistinct) {m : Mutation} (hm : m.IsEdit)
    (h : (m.apply (writer name client) user (.str t)).perform db = (.ok (), db')) :
    ∃ new, m.Edits doc new ∧ (m.KeysDistinct → new.KeysDistinct) ∧
      db.store.Rewritten name t doc new db'.store ∧ db'.store.Sound := by
  have hdoc := Document.isObject_of_id? hid
  cases m with
  | set path value =>
    obtain ⟨resolved, _, new, author, hresolve, rfl, hroot, hrun, hkept, hkeys, hnew⟩ :=
      exists_kept_of_resolved hs hmem hid hdistinct (.set · value) (fun _ => rfl) h
    have hvalue := Update.get?_of_run_set hroot hdoc hrun
    exact ⟨new, .set hresolve hvalue hkept, hkeys, hnew⟩
  | unset path =>
    obtain ⟨resolved, _, new, author, hresolve, rfl, hroot, hrun, hkept, hkeys, hnew⟩ :=
      exists_kept_of_resolved hs hmem hid hdistinct .unset (fun _ => rfl) h
    have hgone := Update.get?_of_run_unset hroot hdoc hdistinct hrun
    exact ⟨new, .unset hresolve hgone hkept, fun _ => hkeys trivial, hnew⟩
  | insert path index element =>
    obtain ⟨resolved, hresolve, h⟩ := exists_of_find_bind h
    rw [hs.findOne_byId hmem hid] at hresolve
    obtain ⟨⟨target, position⟩, hplace, hupdate⟩ := Action.perform_lift_bind_eq_ok h
    obtain ⟨place, hnames, htarget⟩ := Mutation.insertionTarget_ok hplace
    obtain ⟨rfl, hroot⟩ := MutationPath.target_ok htarget
    obtain ⟨new, author, hrun, hkept, hkeys, hnew⟩ :=
      exists_kept_of_writer_update hs hmem hid hdistinct hupdate hroot
    obtain ⟨items, hbefore, hafter⟩ := Update.exists_items_of_run_push hroot hdoc hrun
    refine ⟨new, .insert hresolve hnames hbefore hafter hkept, fun helement => ?_, hnew⟩
    exact hkeys fun value hvalue => List.mem_singleton.mp hvalue ▸ helement
  | _ => exact hm.elim

/-- Edits that succeed in a row lead from the document before them to the one after, by induction
on the records. -/
theorem exists_leads_of_applyRecords (hs : db.store.Sound) {slot t : String} {doc : Json}
    (hmem : (slot, doc) ∈ db.store.collection name) (hid : Document.id? doc = some (.str t))
    (hdistinct : doc.KeysDistinct) {ms : List Mutation} (hms : ∀ m ∈ ms, m.IsEdit)
    (hvalues : ∀ m ∈ ms, m.KeysDistinct) {k : Nat}
    (h : (Payload.applyRecords (writer name client) user (.str t) k ms).perform db =
      (.ok (), db')) :
    ∃ new, Mutation.Leads ms doc new ∧ db.store.Rewritten name t doc new db'.store ∧
      db'.store.Sound := by
  induction ms generalizing db slot doc k with
  | nil =>
    obtain ⟨-, rfl⟩ := Prod.mk.inj h
    exact ⟨doc, .nil doc, .refl hs hmem hid, hs⟩
  | cons m ms ih =>
    obtain ⟨db₁, hfirst, hrest⟩ := (Payload.perform_applyRecords_cons_ok_iff ..).mp h
    obtain ⟨hm, hms⟩ := List.forall_mem_cons.mp hms
    obtain ⟨hvalue, hvalues⟩ := List.forall_mem_cons.mp hvalues
    obtain ⟨mid, hedits, hkeys, hmid, hs₁⟩ :=
      exists_edits_of_apply hs hmem hid hdistinct hm hfirst
    obtain ⟨new, hleads, hnew, hs'⟩ :=
      ih hs₁ hmid.stored_after hmid.id_after (hkeys hvalue) hms hvalues hrest
    exact ⟨new, .cons hedits hleads, hmid.trans hnew, hs'⟩

end Database

namespace Watch

/-- **Each record sees the effect of the one before.** After any calls, let all identities be
strings, and let a document be found by an identity, in which no object has a key twice. A record of
an edit that succeeds resolves its path in this document, and the document that is found by the
identity afterwards is the edited one (`Mutation.Edits`). So a payload of edits that succeeds leads
from this document to the one that is found afterwards, edit by edit. -/
theorem edits_follow_each_other (supply : Supply) (settings : Settings) (options : SessionOptions)
    (calls : List Call) {db : Database}
    (hdb : (after supply settings options calls).database = db) (hids : db.store.StringIds)
    {name : String} {id doc : Json} (hfound : db.store.findOne name (.byId id) = some doc)
    (hdistinct : doc.KeysDistinct) :
    (∀ (m : Mutation) (client user : Option String) (db' : Database), m.IsEdit →
      (m.apply (Database.writer name client) user id).perform db = (.ok (), db') →
      ∃ new, db'.store.findOne name (.byId id) = some new ∧
        db.store.Shift name (some doc) (some new) db'.store ∧ m.Edits doc new) ∧
    ∀ (session : SessionOptions) (p : Payload) (db' : Database), p.collection = name → p.id = id →
      p.rejected = none → (∀ m ∈ p.mutations, m.IsEdit) → (∀ m ∈ p.mutations, m.KeysDistinct) →
      (Database.push session p).perform db = (.ok (), db') →
      ∃ new, db'.store.findOne name (.byId id) = some new ∧
        db.store.Shift name (some doc) (some new) db'.store ∧
        Mutation.Leads p.mutations doc new := by
  have hsound : db.store.Sound := hdb ▸ sound_after calls
  obtain ⟨slot, t, hmem, hid, rfl⟩ := Database.exists_of_findOne_byId hids hfound
  constructor
  · intro m client user db' hm h
    obtain ⟨new, hedits, -, hnew, hs'⟩ :=
      Database.exists_edits_of_apply hsound hmem hid hdistinct hm h
    exact ⟨new, hnew.findOne hs', hnew.shift hsound, hedits⟩
  · rintro session p db' rfl hp hrejected hms hvalues h
    obtain ⟨_, db₁, hrecords, hrest⟩ := Action.perform_bind_eq_ok h
    rw [hrejected] at hrest
    obtain ⟨-, rfl⟩ := Prod.mk.inj hrest
    rw [hp] at hrecords
    obtain ⟨new, hleads, hnew, hs'⟩ :=
      Database.exists_leads_of_applyRecords hsound hmem hid hdistinct hms hvalues hrecords
    exact ⟨new, hnew.findOne hs', hnew.shift hsound, hleads⟩

/-- An insertion in front, a write below the element that has moved, and the removal of what was
inserted. -/
def flaggedEdits : Payload where
  collection := "t"
  id := .str "a"
  mutations := [.insert [.literal "items", .index 0] none (.str "x"),
    .set [.literal "items", .ref "true", .literal "seen"] (.bool true),
    .unset [.literal "items", .index 0]]
  rejected := none

/-- The reference finds the element in the second slot, where the insertion has moved it. -/
theorem flaggedEdits_lead : ∃ db' new,
    (Database.push .anonymous flaggedEdits).perform flaggedStored = (.ok (), db') ∧
    db'.store.findOne "t" (.byId (.str "a")) = some new ∧
    Mutation.Leads flaggedEdits.mutations (Document.attribute flagged ⟨none, 0, 0⟩) new ∧
    new.get? ["items"] = some (.arr [.null, .obj [("_id", .bool true), ("seen", .bool true)],
      .obj [("_id", .str "true")], .obj [("_id", .arr [.bool true])]]) := by
  have hids : flaggedStored.store.StringIds := Store.stringIds_singleton rfl
  have hdistinct : (Document.attribute flagged ⟨none, 0, 0⟩).KeysDistinct := by
    obtain ⟨entry, hentry, hentries⟩ : ∃ entry : Json, entry.KeysDistinct ∧
        Document.attribute flagged ⟨none, 0, 0⟩ = .obj [("_id", .str "a"), ("items", .arr
          [.obj [("_id", .bool true)], .obj [("_id", .str "true")],
            .obj [("_id", .arr [.bool true])]]), ("_meta", .obj [("items", entry)])] :=
      ⟨Provenance.toJson ⟨none, 0, 0⟩, Provenance.keysDistinct_toJson _, rfl⟩
    rw [hentries]
    simp [Json.KeysDistinct, Json.KeysDistinctFields, Json.KeysDistinctItems, Members.keys, hentry]
  obtain ⟨db', shown, hperform, hshown, hitems⟩ : ∃ db' shown,
      (Database.push .anonymous flaggedEdits).perform flaggedStored = (.ok (), db') ∧
      db'.store.findOne "t" (.byId (.str "a")) = some shown ∧
      shown.get? ["items"] = some (.arr [.null, .obj [("_id", .bool true), ("seen", .bool true)],
        .obj [("_id", .str "true")], .obj [("_id", .arr [.bool true])]]) :=
    ⟨_, _, rfl, rfl, rfl⟩
  obtain ⟨new, hfound, -, hleads⟩ := (edits_follow_each_other stillSupply .standard .anonymous
    flaggedAdded rfl hids rfl hdistinct).2 .anonymous flaggedEdits db' rfl rfl rfl
      (by simp [flaggedEdits, Mutation.IsEdit])
      (by simp [flaggedEdits, Mutation.KeysDistinct, Json.KeysDistinct]) hperform
  obtain rfl := Option.some.inj (hshown.symm.trans hfound)
  exact ⟨db', shown, hperform, hfound, hleads, hitems⟩

end Watch
end DocWatch
