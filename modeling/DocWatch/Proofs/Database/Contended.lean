import DocWatch.Proofs.Database.Watch
import DocWatch.Proofs.Store.Lists
import DocWatch.Proofs.Update.Arrays

/-!
# Removal by position among pushes

A removal by position looks at the document, marks a slot of an array and then takes out the mark.
Other clients may write after each of these steps. If they push to the same array, then the removal
takes out one element: the one that is in the slot when the mark is written, wherever it moves
afterwards.

- `Contended`, `Contended.writer`: other clients write whenever the writer has accessed a document.
- `Database.Holds`: a database with an array in one of its documents.
- `Push`: a push by another client; it reaches the document if its filter finds that.
- `Database.Holds.update`, `Database.Holds.pushed`: what updates of the array do.
- `Watch.removal_among_pushes`: the removal.
-/

namespace DocWatch

/-! ## Writers with contention -/

/-- A database, and groups of writes of other clients that wait for their turn. -/
structure Contended where
  database : Database
  pending : List (List Write)

namespace Contended

variable {α : Type}

/-- The first of the groups is written. -/
def yield (c : Contended) : Contended :=
  ⟨(c.pending.headD []).foldl Write.run c.database, c.pending.tail⟩

/-- An action of the database that is no access to a document. -/
def alone (x : Action Database α) : Action Contended α := Action.attempt fun c =>
  ((x.perform c.database).1, ⟨(x.perform c.database).2, c.pending⟩)

/-- An action of the database, after which the others get their turn. -/
def shared (x : Action Database α) : Action Contended α := Action.attempt fun c =>
  ((x.perform c.database).1, yield ⟨(x.perform c.database).2, c.pending⟩)

/-- Access to a collection to which others write after each access to a document. -/
def writer (collection : String) (client : Option String) : Writer Contended where
  find id := shared ((Database.writer collection client).find id)
  update f u upsert := shared ((Database.writer collection client).update f u upsert)
  insert doc := shared ((Database.writer collection client).insert doc)
  freshIdentity := alone (Database.writer collection client).freshIdentity
  now := alone (Database.writer collection client).now

theorem perform_shared {x : Action Database α} {db db' : Database} {r : Except Error α}
    (h : x.perform db = (r, db')) (pending : List (List Write)) :
    (shared x).perform ⟨db, pending⟩ = (r, yield ⟨db', pending⟩) := by
  rw [shared, Action.perform_attempt, h]

theorem perform_alone {x : Action Database α} {db db' : Database} {r : Except Error α}
    (h : x.perform db = (r, db')) (pending : List (List Write)) :
    (alone x).perform ⟨db, pending⟩ = (r, ⟨db', pending⟩) := by
  rw [alone, Action.perform_attempt, h]

end Contended

/-! ## A database with an array -/

/-- A connected database, in which a document of a collection has an array. -/
structure Database.Holds (name t : String) (path : FieldPath) (items : List Json)
    (db : Database) : Prop where
  sound : db.store.Sound
  connected : ∃ d, db.dispatch = some d
  stored : ∃ key doc, (key, doc) ∈ db.store.collection name ∧ Document.Holds t path items doc

/-- The document with this string for its identity is the first one that a filter finds. -/
def Database.Finds (name t : String) (f : Filter) (db : Database) : Prop :=
  ∃ doc, db.store.findOne name f = some doc ∧ Document.id? doc = some (.str t)

/-- There is one document with an identity that is a string, and a filter that finds it finds it
under its own key. -/
theorem Store.Sound.matching_of_findOne {s : Store} (hs : s.Sound) {name key t : String}
    {doc doc' : Json} (hmem : (key, doc) ∈ s.collection name)
    (hid : Document.id? doc = some (.str t)) {f : Filter}
    (hfound : s.findOne name f = some doc') (hid' : Document.id? doc' = some (.str t)) :
    ∃ rest, (s.collection name).matching f = (key, doc) :: rest := by
  cases hm : (s.collection name).matching f with
  | nil =>
    rw [findOne_of_matching_nil hm] at hfound
    cases hfound
  | cons kd rest =>
    obtain ⟨key', found⟩ := kd
    rw [findOne_of_matching hm] at hfound
    obtain rfl := Option.some.inj hfound
    have hmem' : (key', found) ∈ (s.collection name).matching f := by
      rw [hm]
      exact List.mem_cons_self
    -- both are what a look-up of the identity finds
    have hone := (hs name).matching_byId (Collection.mem_of_mem_matching hmem').1 hid'
    rw [(hs name).matching_byId hmem hid] at hone
    rw [List.head_eq_of_cons_eq hone]
    exact ⟨rest, rfl⟩

namespace Database.Holds

variable {name t : String} {path : FieldPath} {items items' : List Json} {db : Database}

theorem finds_byId (h : db.Holds name t path items) : db.Finds name t (.byId (.str t)) := by
  obtain ⟨key, doc, hmem, hdoc⟩ := h.stored
  exact ⟨doc, h.sound.findOne_byId hmem hdoc.id, hdoc.id⟩

/-- Drawing an identity changes no document. -/
theorem drawn (h : db.Holds name t path items) : db.drawn.Holds name t path items :=
  ⟨h.sound, h.connected, h.stored⟩

/-- An update that finds the document, and that succeeds on every document with such an array,
succeeds. -/
theorem update (h : db.Holds name t path items) {f : Filter} (hf : db.Finds name t f) {u : Update}
    (hu : ∀ doc, Document.Holds t path items doc → ∀ author,
      ∃ new, Update.run (u.attributed author) doc = .ok new ∧ Document.Holds t path items' new)
    (client : Option String) (upsert : Bool) :
    ∃ touched db', (Database.update name client f u upsert).perform db = (.ok touched, db') ∧
      db'.Holds name t path items' := by
  obtain ⟨d, hd⟩ := h.connected
  obtain ⟨key, doc, hmem, hdoc⟩ := h.stored
  obtain ⟨doc', hfound, hid'⟩ := hf
  obtain ⟨rest, hm⟩ := h.sound.matching_of_findOne hmem hdoc.id hfound hid'
  obtain ⟨new, hrun, hnew⟩ := hu doc hdoc (db.author d client)
  have hkey : (Document.id? doc).map Identity.key = some key := by
    rw [hdoc.id, Option.map_some, ← (h.sound name).strings (key, doc) hmem t hdoc.id]
  have hsame : Document.sameIdentity doc new = true := by
    rw [Document.sameIdentity_iff]
    exact ⟨_, _, hdoc.id, hnew.id, (Json.equiv_str_iff _ t).mpr rfl⟩
  -- the store has the new document in the place of the old one
  obtain ⟨l, r, -, -, hupdate⟩ := Collection.update_of_matching (h.sound name).distinct hm hkey
    name db.fresh (u.attributed (db.author d client)) upsert
  simp only [hrun, hsame, if_true] at hupdate
  have hstore : db.store.update name db.fresh f (u.attributed (db.author d client)) upsert =
      (.ok ⟨Document.id? new, none⟩, Members.insert db.store name (l ++ (key, new) :: r)) := by
    rw [Store.update, hupdate]
  have hperform := perform_update hd name client f u upsert
  rw [hstore] at hperform
  have hkeeps := within_update name client f u upsert db
  rw [hperform] at hkeeps
  refine ⟨_, _, hperform, hkeeps.sound h.sound, ?_, key, new, ?_, hnew⟩
  · obtain ⟨d', hd', -⟩ := hkeeps.exists_dispatch hd
    exact ⟨d', hd'⟩
  · show (key, new) ∈ Store.collection (Members.insert db.store name (l ++ (key, new) :: r)) name
    rw [Store.collection_insert, if_pos rfl]
    exact List.mem_append_right l List.mem_cons_self

end Database.Holds

/-! ## Pushes -/

/-- An update by a client that consists of pushes to one array. -/
structure Push where
  client : Option String
  filter : Filter
  insertions : Insertions
  upsert : Bool

namespace Push

/-- The write, to an array at a path. -/
def write (name : String) (path : FieldPath) (push : Push) : Write :=
  .update name push.client push.filter (push.insertions.update path) push.upsert

/-- All insertions of several pushes. -/
def allInsertions (pushes : List Push) : Insertions := pushes.flatMap Push.insertions

theorem allInsertions_append (pushes pushes' : List Push) :
    allInsertions (pushes ++ pushes') = allInsertions pushes ++ allInsertions pushes' :=
  List.flatMap_append

/-- Each of the pushes finds the document, in the state that it meets. -/
def AllFind (name t : String) (path : FieldPath) : List Push → Database → Prop
  | [], _ => True
  | push :: rest, db =>
    db.Finds name t push.filter ∧ AllFind name t path rest ((push.write name path).run db)

end Push

namespace Database

/-- The database after some pushes. -/
def pushed (name : String) (path : FieldPath) (pushes : List Push) (db : Database) : Database :=
  (pushes.map (Push.write name path)).foldl Write.run db

/-- The database after the first write of a removal, which marks a slot. -/
def marked (name t : String) (client : Option String) (slot : FieldPath) (db : Database) :
    Database :=
  ((writer name client).update (.byId (.str t)) [.set slot (.str db.fresh)] false).perform
    db.drawn |>.2

variable {name t : String} {path : FieldPath} {items : List Json} {db : Database}

/-- A push that finds the document puts its values into the array. -/
theorem Holds.push (h : db.Holds name t path items) {push : Push}
    (hfinds : db.Finds name t push.filter) :
    ((push.write name path).run db).Holds name t path (push.insertions.onItems items) := by
  obtain ⟨touched, db', hperform, hdb'⟩ := h.update hfinds
    (fun doc hdoc author => hdoc.push push.insertions author) push.client push.upsert
  have hrun : (push.write name path).run db = db' := congrArg Prod.snd hperform
  rw [hrun]
  exact hdb'

/-- So do several of them. -/
theorem Holds.pushed (h : db.Holds name t path items) {pushes : List Push}
    (hfind : Push.AllFind name t path pushes db) :
    (db.pushed name path pushes).Holds name t path
      ((Push.allInsertions pushes).onItems items) := by
  induction pushes generalizing db items with
  | nil => exact h
  | cons push rest ih =>
    have hrest := ih (h.push hfind.1) hfind.2
    rw [← Insertions.onItems_append] at hrest
    exact hrest

/-- Marking a slot writes the mark into it. -/
theorem Holds.marked (h : db.Holds name t path items) {slot : String} {p : Nat}
    (hindex : FieldPath.index? slot = some p) (hp : p < items.length) (client : Option String) :
    ((writer name client).update (.byId (.str t)) [.set (path ++ [slot]) (.str db.fresh)]
      false).perform db.drawn = (.ok (), db.marked name t client (path ++ [slot])) ∧
      (db.marked name t client (path ++ [slot])).Holds name t path
        (items.set p (.str db.fresh)) := by
  obtain ⟨touched, db', hperform, hdb'⟩ := h.drawn.update h.drawn.finds_byId
    (fun doc hdoc author => hdoc.mark hindex hp (.str db.fresh) author) client false
  have hwrite : ((writer name client).update (.byId (.str t))
      [.set (path ++ [slot]) (.str db.fresh)] false).perform db.drawn = (.ok (), db') :=
    Action.perform_bind_ok hperform
  have hmarked : db.marked name t client (path ++ [slot]) = db' := congrArg Prod.snd hwrite
  rw [hmarked]
  exact ⟨hwrite, hdb'⟩

end Database

/-! ## The removal -/

/-- A mark that was written before some insertions and taken out after them takes the element of its
slot with it, and nothing else. -/
theorem Insertions.filter_marked (is : Insertions) {items : List Json} {slot : Nat}
    (h : slot < items.length) {sentinel : String} (hfresh : .str sentinel ∉ items ++ is.values) :
    (is.onItems (items.set slot (.str sentinel))).filter
        (fun v => !(Selector.equals (.str sentinel)).selects v) =
      (is.onItems items).eraseIdx (is.moved slot) := by
  rw [is.onItems_set h]
  exact Selector.filter_marked (is.moved_lt h) fun hmem =>
    hfresh ((is.perm_onItems items).mem_iff.mp hmem)

/-- The steps of a removal, and what is pushed in between: the document is looked at, then come the
first pushes, then the mark, then the other pushes, then the pull. -/
theorem Database.Holds.removal {name t slot : String} {array : FieldPath} {items : List Json}
    {db : Database} (h : db.Holds name t array items) {doc : Json}
    (hfound : db.store.findOne name (.byId (.str t)) = some doc)
    {path resolved : MutationPath} {index : Option Nat}
    (hresolve : path.resolve (some doc) = .ok resolved)
    (htarget : Mutation.removalTarget (some doc) resolved index = .ok (array ++ [slot], array))
    {p : Nat} (hindex : FieldPath.index? slot = some p) (hp : p < items.length)
    (client user : Option String) {before between : List Push}
    (hbefore : Push.AllFind name t array before db)
    (hbetween : Push.AllFind name t array between
      ((db.pushed name array before).marked name t client (array ++ [slot])))
    (hfresh : .str (db.pushed name array before).fresh ∉
      items ++ (Push.allInsertions (before ++ between)).values) :
    ∃ db', ((Mutation.remove path none index).apply (Contended.writer name client) user
        (.str t)).perform
          ⟨db, [before.map (Push.write name array), between.map (Push.write name array)]⟩ =
        (.ok (), ⟨db', []⟩) ∧
      db'.Holds name t array
        (((Push.allInsertions (before ++ between)).onItems items).eraseIdx
          ((Push.allInsertions between).moved p)) := by
  rw [Push.allInsertions_append, Insertions.values_append, ← List.append_assoc] at hfresh
  have hperm := (Push.allInsertions before).perm_onItems items
  -- the array after each of the steps
  have hfirst := h.pushed hbefore
  have hlt := (Push.allInsertions before).lt_length_onItems hp
  obtain ⟨hmark, hmarked⟩ := hfirst.marked hindex hlt client
  have hsecond := hmarked.pushed hbetween
  obtain ⟨touched, db', hpull, hlast⟩ := hsecond.update hsecond.finds_byId (fun doc hdoc author =>
    hdoc.pull (.equals (.str (db.pushed name array before).fresh)) author) client false
  rw [Insertions.filter_marked _ hlt fun hmem => hfresh ((hperm.append_right _).mem_iff.mp hmem),
    ← Insertions.onItems_append, ← Push.allInsertions_append] at hlast
  refine ⟨db', ?_, hlast⟩
  -- the record takes these steps
  have hlook : ((writer name client).find (.str t)).perform db = (.ok (some doc), db) :=
    (perform_findOne name (.byId (.str t)) db).trans (by rw [hfound])
  have hdraw := perform_freshIdentity (db.pushed name array before)
  have htake : ((writer name client).update (.byId (.str t))
      [.pull array (.equals (.str (db.pushed name array before).fresh))] false).perform
        (((db.pushed name array before).marked name t client (array ++ [slot])).pushed name array
          between) = (.ok (), db') := Action.perform_bind_ok hpull
  exact Mutation.perform_removal (Contended.perform_shared hlook _) hresolve htarget
    (Contended.perform_alone hdraw _) (Contended.perform_shared hmark _)
    (Contended.perform_shared htake _)

namespace Watch

/-- **A removal by position takes out one element, whatever is pushed meanwhile.** After any calls,
let a record of a removal be resolved to a position in an array of a stored document, which has a
string for its identity and its entries in an object, if any. Let other clients push to this array
before the removal has marked the slot and after that, and let the mark be none of the elements.
Then the record succeeds, and the document has the array that the pushes make but for one element:
the one that was at the position when the slot was marked, wherever it has moved since. The mark is
gone. -/
theorem removal_among_pushes (supply : Supply) (settings : Settings) (options : SessionOptions)
    (calls : List Call) {db : Database}
    (hdb : (after supply settings options calls).database = db) {name t : String} {doc : Json}
    (hstored : doc ∈ db.store.lists name) (hid : Document.id? doc = some (.str t))
    (hentries : Document.EntriesInObject doc) {path resolved place : MutationPath}
    {index : Option Nat} (hresolve : path.resolve (some doc) = .ok resolved) {p : Nat}
    (hplace : Mutation.removalPlace resolved index = .ok (place, p)) {array : FieldPath}
    (harray : place.fieldPath? = some array) {items : List Json}
    (hitems : doc.get? array = some (.arr items)) (hp : p < items.length)
    (hsize : items.length ≤ 2 ^ 64) (client user : Option String) {before between : List Push}
    (hbefore : Push.AllFind name t array before db)
    (hbetween : Push.AllFind name t array between
      ((db.pushed name array before).marked name t client (array ++ [(Segment.index p).text])))
    (hfresh : .str (db.pushed name array before).fresh ∉
      items ++ (Push.allInsertions (before ++ between)).values) :
    ∃ db' new final removed,
      ((Mutation.remove path none index).apply (Contended.writer name client) user
          (.str t)).perform
        ⟨db, [before.map (Push.write name array), between.map (Push.write name array)]⟩ =
          (.ok (), ⟨db', []⟩) ∧
      new ∈ db'.store.lists name ∧ Document.id? new = some (.str t) ∧
      new.get? array = some (.arr final) ∧
      ((Push.allInsertions before).onItems items)[p]? = some removed ∧
      (removed :: final).Perm (items ++ (Push.allInsertions (before ++ between)).values) ∧
      final = ((Push.allInsertions (before ++ between)).onItems items).eraseIdx
        ((Push.allInsertions between).moved p) ∧
      .str (db.pushed name array before).fresh ∉ final := by
  obtain ⟨d, htraced⟩ : ∃ d, Traced supply settings options calls
      (after supply settings options calls) d := traced_after calls
  have hsound := htraced.sound
  have hdispatch := htraced.dispatch
  rw [hdb] at hsound hdispatch
  rw [Store.lists_eq] at hstored
  obtain ⟨⟨key, doc'⟩, hmem, rfl⟩ := List.mem_map.mp hstored
  have hdoc : Document.Holds t array items doc' := ⟨hid, hentries, hitems⟩
  have hroot : array ≠ [] := by
    obtain ⟨field, rest, rfl, -⟩ := hdoc.exists_cons
    exact List.cons_ne_nil field rest
  have hholds : db.Holds name t array items := ⟨hsound, ⟨d, hdispatch⟩, key, doc', hmem, hdoc⟩
  obtain ⟨db', hperform, hlast⟩ := hholds.removal (hsound.findOne_byId hmem hid) hresolve
    (Mutation.removalTarget_of_place hplace harray hroot hitems hp)
    (FieldPath.index?_natChars (hp.trans_le hsize)) hp client user hbefore hbetween hfresh
  obtain ⟨key', new, hmem', hnew⟩ := hlast.stored
  have hnewstored : new ∈ db'.store.lists name := by
    rw [Store.lists_eq]
    exact List.mem_map_of_mem hmem'
  -- the element of the marked slot is the one that is missing
  have hlt := (Push.allInsertions before).lt_length_onItems hp
  have hmoved : (Push.allInsertions between).moved p <
      ((Push.allInsertions (before ++ between)).onItems items).length := by
    rw [Push.allInsertions_append, Insertions.onItems_append]
    exact (Push.allInsertions between).moved_lt hlt
  have hsame := (Push.allInsertions between).getElem?_moved hlt
  rw [← Insertions.onItems_append, ← Push.allInsertions_append,
    List.getElem?_eq_getElem hmoved] at hsame
  have hperm := (Push.allInsertions (before ++ between)).perm_onItems items
  refine ⟨db', new, _, _, hperform, hnewstored, hnew.id, hnew.array, hsame.symm,
    (List.getElem_cons_eraseIdx_perm hmoved).trans hperm, rfl, fun hin => hfresh ?_⟩
  exact hperm.mem_iff.mp (List.eraseIdx_sublist _ _ |>.subset hin)

/-- A document with an array of two numbers. -/
def counted : Json := .obj [("_id", .str "a"), ("l", .arr [.nat 1, .nat 2])]

/-- The document is added, and nothing else. -/
def countedAdded : List Call := [.write (.insert "t" none counted)]

/-- The database after that. -/
def countedStored : Database := (after stillSupply .standard .anonymous countedAdded).database

/-- A push to the start of the array. -/
def early : List Push := [⟨some "c", .byId (.str "a"), [⟨[.nat 0], some 0⟩], false⟩]

/-- Pushes to the end of the array and into it, by a filter that finds any document. -/
def late : List Push := [⟨some "d", .all, [⟨[.nat 3], none⟩, ⟨[.nat 4], some 1⟩], true⟩]

/-- The element in slot 1 is to be removed. This is the number 1 when the slot is marked. -/
theorem counted_loses_one : ∃ db' new,
    ((Mutation.remove [.literal "l", .index 1] none none).apply (Contended.writer "t" none) none
      (.str "a")).perform ⟨countedStored, [early.map (Push.write "t" ["l"]),
        late.map (Push.write "t" ["l"])]⟩ = (.ok (), ⟨db', []⟩) ∧
    new ∈ db'.store.lists "t" ∧
    new.get? ["l"] = some (.arr [.nat 0, .nat 4, .nat 2, .nat 3]) := by
  have hstored : Document.attribute counted ⟨none, 0, 0⟩ ∈ countedStored.store.lists "t" := by
    decide
  have hentries : Document.EntriesInObject (Document.attribute counted ⟨none, 0, 0⟩) := by
    rintro v ⟨⟩
    rfl
  have hresolve : MutationPath.resolve (some (Document.attribute counted ⟨none, 0, 0⟩))
      [.literal "l", .index 1] = .ok [.literal "l", .index 1] := rfl
  have hplace : Mutation.removalPlace [.literal "l", .index 1] none =
      .ok ([.literal "l"], 1) := rfl
  have hbefore : Push.AllFind "t" "a" ["l"] early countedStored := ⟨⟨_, rfl, rfl⟩, trivial⟩
  have hbetween : Push.AllFind "t" "a" ["l"] late ((countedStored.pushed "t" ["l"] early).marked "t"
      "a" none (["l"] ++ [(Segment.index 1).text])) := ⟨⟨_, rfl, rfl⟩, trivial⟩
  have hfresh : .str (countedStored.pushed "t" ["l"] early).fresh ∉
      [.nat 1, .nat 2] ++ (Push.allInsertions (early ++ late)).values := by decide
  obtain ⟨db', new, final, removed, hperform, hnew, -, hget, -, -, hfinal, -⟩ :=
    removal_among_pushes stillSupply .standard .anonymous countedAdded rfl hstored rfl hentries
      hresolve hplace rfl rfl (by decide) (by decide) none none hbefore hbetween hfresh
  exact ⟨db', new, hperform, hnew, hget.trans (by rw [hfinal]; rfl)⟩

end Watch
end DocWatch
