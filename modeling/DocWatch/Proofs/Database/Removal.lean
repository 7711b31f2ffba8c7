import DocWatch.Proofs.Database.Record
import DocWatch.Proofs.Database.Watch
import DocWatch.Proofs.Filter.Field
import DocWatch.Proofs.Store.Lists
import DocWatch.Proofs.Update.Arrays
import DocWatch.Proofs.Update.Single

/-!
# Removals

A record of a removal takes elements out of an array of a document. Without a key it takes out the
element at a position, in two writes that come to one deletion. With a key it takes out the elements
that a filter selects, and this filter is made from the stored identity of the first element that
the key names: so it looks at values where the key is a text, and an identity that is written like
an operator is read as one.

- `Document.keyedIdentity`: the identity that a removal by key looks for.
- `Watch.removal_by_key`: what a removal by key takes out.
- `Watch.removal_by_position`: a removal by position erases one element.
-/

namespace DocWatch

/-! ## The filter of a key -/

namespace Document

/-- A key names the elements whose identity is spelled like it. -/
theorem answersTo_iff (e : Json) (key : String) :
    answersTo e key = true ↔ ∃ v, id? e = some v ∧ v ≠ .null ∧ Identity.text v = key := by
  unfold answersTo
  cases id? e with
  | none => simp
  | some v => cases v <;> simp

/-- The identity by which a key removes: the stored one of the first element that the key names, or
the key itself if it names none. -/
def keyedIdentity (items : List Json) (key : String) : Json :=
  ((items.find? (answersTo · key)).bind id?).getD (.str key)

/-- The identity by which a key removes is the key, or an identity that is spelled like it. -/
theorem text_keyedIdentity (items : List Json) (key : String) :
    Identity.text (keyedIdentity items key) = key ∧ keyedIdentity items key ≠ .null := by
  unfold keyedIdentity
  cases hnamed : items.find? (answersTo · key) with
  | none => exact ⟨rfl, Json.noConfusion⟩
  | some e =>
    have hanswers := List.find?_some hnamed
    obtain ⟨v, hid, hnull, htext⟩ := (answersTo_iff e key).mp hanswers
    rw [Option.bind_some, hid, Option.getD_some]
    exact ⟨htext, hnull⟩

/-- Where all identities are strings, a key removes by itself. -/
theorem keyedIdentity_of_strings {items : List Json}
    (h : ∀ e ∈ items, ∀ v, id? e = some v → ∃ s, v = .str s) (key : String) :
    keyedIdentity items key = .str key := by
  have htext := (text_keyedIdentity items key).1
  unfold keyedIdentity at htext ⊢
  cases hnamed : (items.find? (answersTo · key)).bind id? with
  | none => rfl
  | some v =>
    obtain ⟨e, hfind, hid⟩ := Option.bind_eq_some_iff.mp hnamed
    obtain ⟨s, rfl⟩ := h e (List.mem_of_find?_eq_some hfind) v hid
    rw [hnamed, Option.getD_some] at htext
    rw [Option.getD_some, ← htext]
    rfl

end Document

/-- An element is removed by an identity if it has this identity, or an array that contains it. -/
theorem Selector.document_byId_iff {wanted : Json} (hwanted : wanted ≠ .null) (e : Json) :
    (Selector.document (.byId wanted)).selects e = true ↔
      ∃ v, Document.id? e = some v ∧ v.equalsOrContains wanted = true := by
  rw [selects, Bool.and_eq_true]
  cases hid : Document.id? e with
  | none =>
    refine iff_of_false ?_ (by simp)
    rintro ⟨hobject, hselects⟩
    cases e with
    | obj fields =>
      have hget : Members.get? fields "_id" = none := hid
      have hnull : wanted.isNull = true := by
        simpa [Filter.selects, Filter.byId, Predicate.holds, Condition.allHold, Condition.holds,
          Json.reach, hget, Json.anyEquals] using hselects
      cases wanted with
      | null => exact hwanted rfl
      | _ => cases hnull
    | _ => cases hobject
  | some v =>
    rw [Filter.byId_selects hid]
    simp [Document.isObject_of_id? hid]

/-- Two tests keep the same elements if they agree on each of them. -/
theorem filter_eq_filter_iff (items : List Json) (keep keep' : Json → Bool) :
    items.filter keep = items.filter keep' ↔ ∀ e ∈ items, keep e = keep' e := by
  refine ⟨fun h e he => ?_, List.filter_congr⟩
  have hmem : e ∈ items.filter keep ↔ e ∈ items.filter keep' := by rw [h]
  rw [List.mem_filter, List.mem_filter, and_iff_right he, and_iff_right he] at hmem
  exact Bool.eq_iff_iff.mpr hmem

/-- The selector of a removal by key. -/
theorem Mutation.keyedSelector_ok {doc : Json} {array : FieldPath} {items : List Json}
    (hitems : doc.get? array = some (.arr items)) {key : String} {selector : Selector}
    (h : keyedSelector (some doc) array key = .ok selector) :
    ∃ f, Filter.compile (.obj [("_id", Document.keyedIdentity items key)]) = .ok f ∧
      selector = .document f := by
  have hthere := (Document.arrayAt?_eq_some_iff _ _ _).mpr ⟨doc, rfl, hitems⟩
  unfold keyedSelector at h
  rw [hthere, Option.getD_some] at h
  rw [Document.keyedIdentity]
  cases hcompile : Filter.compile (.obj [("_id",
      ((items.find? (Document.answersTo · key)).bind Document.id?).getD (.str key))]) with
  | error e => simp [hcompile] at h
  | ok f =>
    simp only [hcompile] at h
    exact ⟨f, rfl, (Except.ok.inj h).symm⟩

/-- A removal without a key addresses a position of an array of a document. The position stands
beside the path or is its last step, once references are resolved. It may lie beyond the end. -/
def Mutation.RemovesAt (doc : Json) (path : MutationPath) (index : Option Nat) (array : FieldPath)
    (items : List Json) (p : Nat) : Prop :=
  ∃ resolved place, path.resolve (some doc) = .ok resolved ∧ resolved.Names index place (some p) ∧
    array = place.map Segment.text ∧ doc.get? array = some (.arr items)

theorem Mutation.RemovesAt.get? {doc : Json} {path : MutationPath} {index : Option Nat}
    {array : FieldPath} {items : List Json} {p : Nat} (h : RemovesAt doc path index array items p) :
    doc.get? array = some (.arr items) := by
  obtain ⟨resolved, place, -, -, -, hitems⟩ := h
  exact hitems

/-- A write into a slot that the text of a position names succeeds only if the position is one that
storage can read. -/
theorem Update.index?_of_run_mark {doc new value : Json} {array : FieldPath} {items : List Json}
    (hitems : doc.get? array = some (.arr items)) (hroot : array ≠ []) {p : Nat}
    (hdoc : doc.isObject = true) {author : Option Provenance}
    (h : run (attributed [.set (array ++ [(Segment.index p).text]) value] author) doc = .ok new) :
    FieldPath.index? (Segment.index p).text = some p := by
  obtain ⟨field, rest, rfl⟩ := List.exists_cons_of_ne_nil hroot
  obtain ⟨plain, happly, -⟩ := exists_apply_of_run_attributed rfl hdoc h
  have herror := congrArg Prod.snd ((apply_set_ok_iff _ _ _ _).mp happly)
  rw [Json.set_append hitems Json.noConfusion, Json.set] at herror
  rw [Segment.text, FieldPath.index?_natChars_eq_ite] at herror ⊢
  by_cases hp : p < 2 ^ 64
  · rw [if_pos hp]
  · rw [if_neg hp] at herror
    cases herror

namespace Database

variable {db db' : Database} {name : String} {client user : Option String}

/-! ## The steps of a removal -/

/-- A record of a removal that succeeds has resolved its path in the document. -/
theorem exists_of_find_bind {α : Type} {id : Json} {path : MutationPath}
    {f : Option Json → MutationPath → Action Database α} {a : α}
    (h : ((writer name client).find id >>= fun doc =>
      Action.lift (path.resolve doc) >>= f doc).perform db = (.ok a, db')) :
    ∃ resolved, path.resolve (db.store.findOne name (.byId id)) = .ok resolved ∧
      (f (db.store.findOne name (.byId id)) resolved).perform db = (.ok a, db') := by
  obtain ⟨doc, s, hfind, h⟩ := Action.perform_bind_eq_ok h
  obtain ⟨hdoc, rfl⟩ := Prod.mk.inj ((perform_findOne name (.byId id) db).symm.trans hfind)
  rw [Except.ok.inj hdoc]
  exact Action.perform_lift_bind_eq_ok h

/-- What a removal by key leaves of the document. -/
theorem exists_edited_of_keyed (hs : db.store.Sound) {t slot : String} {doc : Json}
    (hmem : (slot, doc) ∈ db.store.collection name) (hid : Document.id? doc = some (.str t))
    {path resolved : MutationPath} (hresolve : path.resolve (some doc) = .ok resolved)
    {items : List Json} (hitems : doc.get? (resolved.map Segment.text) = some (.arr items))
    {key : String} {index : Option Nat}
    (h : ((Mutation.remove path (some key) index).apply (writer name client) user
      (.str t)).perform db = (.ok (), db')) :
    ∃ f new, Filter.compile (.obj [("_id", Document.keyedIdentity items key)]) = .ok f ∧
      db.store.Rewritten name t doc new db'.store ∧ db'.store.Sound ∧
      Document.Edited (resolved.map Segment.text)
        (.arr (items.filter fun e => !(Selector.document f).selects e)) doc new ∧
      resolved.map Segment.text ≠ [] := by
  rw [Mutation.apply] at h
  obtain ⟨resolved', hresolve', h⟩ := exists_of_find_bind h
  rw [hs.findOne_byId hmem hid] at hresolve' h
  obtain rfl := Except.ok.inj (hresolve.symm.trans hresolve')
  obtain ⟨array, harray, h⟩ := Action.perform_lift_bind_eq_ok h
  obtain ⟨selector, hselector, h⟩ := Action.perform_lift_bind_eq_ok h
  obtain ⟨rfl, hroot⟩ := MutationPath.target_ok harray
  obtain ⟨f, hcompile, rfl⟩ := Mutation.keyedSelector_ok hitems hselector
  obtain ⟨new, author, hrun, hnew, hs'⟩ := rewritten_of_writer_update hs hmem hid h
  refine ⟨f, new, hcompile, hnew, hs', ?_, hroot⟩
  obtain ⟨field, rest, hpath⟩ := List.exists_cons_of_ne_nil hroot
  rw [hpath] at hitems hrun ⊢
  exact Document.Edited.of_run rfl (Document.isObject_of_id? hid) (Update.apply_pull hitems _) hrun

/-- The two writes of a removal by position come to one deletion. -/
theorem exists_edited_of_removeAt (hs : db.store.Sound) {key t : String} {doc : Json}
    (hmem : (key, doc) ∈ db.store.collection name) (hid : Document.id? doc = some (.str t))
    {array : FieldPath} {items : List Json} (hitems : doc.get? array = some (.arr items))
    (hroot : array ≠ []) {p : Nat} (hp : p < items.length) (hfresh : .str db.fresh ∉ items)
    (h : (Mutation.removeAt (writer name client) (.str t) (array ++ [(Segment.index p).text])
      array).perform db = (.ok (), db')) :
    ∃ new, db.store.Rewritten name t doc new db'.store ∧ db'.store.Sound ∧
      Document.Edited array (.arr (items.eraseIdx p)) doc new := by
  have hdraw : (writer name client).freshIdentity.perform db = (.ok db.fresh, db.drawn) :=
    perform_freshIdentity db
  rw [Mutation.removeAt, Action.perform_bind_ok hdraw] at h
  obtain ⟨_, db₁, hmark, hpull⟩ := Action.perform_bind_eq_ok h
  have hdoc := Document.isObject_of_id? hid
  -- the slot is marked
  obtain ⟨mid, author, hrun, hmid, hs₁⟩ :=
    rewritten_of_writer_update (show db.drawn.store.Sound from hs) hmem hid hmark
  have hindex := Update.index?_of_run_mark hitems hroot hdoc hrun
  obtain ⟨field, rest, rfl⟩ := List.exists_cons_of_ne_nil hroot
  have hmarked : Document.Edited (field :: rest) (.arr (items.set p (.str db.fresh))) doc mid :=
    .of_run rfl hdoc ((Update.apply_set_ok_iff _ _ _ _).mpr (Json.set_slot hitems hindex hp _)) hrun
  have hitems₁ := hmarked.get? hdoc hitems
  -- the mark is taken out
  obtain ⟨new, author', hrun', hnew, hs'⟩ :=
    rewritten_of_writer_update hs₁ hmid.stored_after hmid.id_after hpull
  have hpulled := Document.Edited.of_run rfl hmarked.isObject (Update.apply_pull hitems₁ _) hrun'
  rw [Selector.filter_marked hp hfresh] at hpulled
  exact ⟨new, hmid.trans hnew, hs', hmarked.trans hpulled⟩

/-- A removal by position that succeeds has erased an element. -/
theorem exists_edited_of_positional (hs : db.store.Sound) {slot t : String} {doc : Json}
    (hmem : (slot, doc) ∈ db.store.collection name) (hid : Document.id? doc = some (.str t))
    {path : MutationPath} {index : Option Nat}
    (hfresh : ∀ array items p, Mutation.RemovesAt doc path index array items p →
      .str db.fresh ∉ items)
    (h : ((Mutation.remove path none index).apply (writer name client) user (.str t)).perform db =
      (.ok (), db')) :
    ∃ array items p new, Mutation.RemovesAt doc path index array items p ∧ p < items.length ∧
      db.store.Rewritten name t doc new db'.store ∧ db'.store.Sound ∧
      Document.Edited array (.arr (items.eraseIdx p)) doc new ∧ array ≠ [] := by
  rw [Mutation.apply] at h
  obtain ⟨resolved, hresolve, h⟩ := exists_of_find_bind h
  rw [hs.findOne_byId hmem hid] at hresolve h
  obtain ⟨⟨slot', array⟩, htarget, h⟩ := Action.perform_lift_bind_eq_ok h
  obtain ⟨place, p, items, hnames, hslot, harray, ⟨doc', hdoc, hitems⟩, hp⟩ :=
    Mutation.removalTarget_ok htarget
  obtain rfl := Option.some.inj hdoc
  obtain ⟨rfl, -⟩ := MutationPath.target_ok hslot
  obtain ⟨rfl, hroot⟩ := MutationPath.target_ok harray
  have hremoves : Mutation.RemovesAt doc path index (place.map Segment.text) items p :=
    ⟨resolved, place, hresolve, hnames, rfl, hitems⟩
  rw [List.map_append] at h
  obtain ⟨new, hnew, hs', hedited⟩ := exists_edited_of_removeAt hs hmem hid hitems hroot hp
    (hfresh _ _ _ hremoves) h
  exact ⟨_, items, p, new, hremoves, hp, hnew, hs', hedited, hroot⟩

end Database

namespace Watch

/-- **What a removal by key takes out.** After any calls, let a record of a removal by key be
resolved to an array of a stored document, which has a string for its identity, and let it succeed.
Then the elements are gone that the filter for the stored identity of the first named element
selects, and nothing else has changed but the entries. These are the elements that the key names
just if the filter and the key agree on each element of the array. The filter selects the objects
whose identity is equal to that identity or contains it, if that is not written like an operator;
so filter and key agree if all identities are strings. -/
theorem removal_by_key (supply : Supply) (settings : Settings) (options : SessionOptions)
    (calls : List Call) {db : Database}
    (hdb : (after supply settings options calls).database = db) {name t : String} {doc : Json}
    (hstored : doc ∈ db.store.lists name) (hid : Document.id? doc = some (.str t))
    {path resolved : MutationPath} (hresolve : path.resolve (some doc) = .ok resolved)
    {items : List Json} (hitems : doc.get? (resolved.map Segment.text) = some (.arr items))
    {key : String} {index : Option Nat} {client user : Option String} {db' : Database}
    (h : ((Mutation.remove path (some key) index).apply (Database.writer name client) user
      (.str t)).perform db = (.ok (), db')) :
    ∃ f new, Filter.compile (.obj [("_id", Document.keyedIdentity items key)]) = .ok f ∧
      db'.store.findOne name (.byId (.str t)) = some new ∧
      db.store.Shift name (some doc) (some new) db'.store ∧
      new.get? (resolved.map Segment.text) =
        some (.arr (items.filter fun e => !(Selector.document f).selects e)) ∧
      Document.Edited (resolved.map Segment.text)
        (.arr (items.filter fun e => !(Selector.document f).selects e)) doc new ∧
      Document.Kept (resolved.map Segment.text) doc new ∧
      (new.get? (resolved.map Segment.text) =
          some (.arr (items.filter fun e => !Document.answersTo e key)) ↔
        ∀ e ∈ items, (Selector.document f).selects e = Document.answersTo e key) ∧
      ((∀ fields, Document.keyedIdentity items key = .obj fields →
          Filter.hasOperator fields = false) →
        ∀ e, (Selector.document f).selects e = true ↔ ∃ v, Document.id? e = some v ∧
          v.equalsOrContains (Document.keyedIdentity items key) = true) ∧
      ((∀ e ∈ items, ∀ v, Document.id? e = some v → ∃ s, v = .str s) →
        ∀ e ∈ items, (Selector.document f).selects e = Document.answersTo e key) := by
  have hsound : db.store.Sound := hdb ▸ sound_after calls
  rw [Store.lists_eq] at hstored
  obtain ⟨⟨slot, doc'⟩, hmem, rfl⟩ := List.mem_map.mp hstored
  obtain ⟨f, new, hcompile, hnew, hs', hedited, hroot⟩ :=
    Database.exists_edited_of_keyed hsound hmem hid hresolve hitems h
  obtain ⟨htext, hnull⟩ := Document.text_keyedIdentity items key
  obtain ⟨field, rest, hpath⟩ := List.exists_cons_of_ne_nil hroot
  rw [hpath] at hitems hedited ⊢
  have hget := hedited.get? (Document.isObject_of_id? hid) hitems
  have hplain : (∀ fields, Document.keyedIdentity items key = .obj fields →
      Filter.hasOperator fields = false) →
      ∀ e, (Selector.document f).selects e = true ↔ ∃ v, Document.id? e = some v ∧
        v.equalsOrContains (Document.keyedIdentity items key) = true := by
    intro hliteral e
    obtain rfl := Except.ok.inj ((Filter.compile_byId hliteral).symm.trans hcompile)
    exact Selector.document_byId_iff hnull e
  refine ⟨f, new, hcompile, hnew.findOne hs', hnew.shift hsound, hget, hedited, hedited.kept, ?_,
    hplain, fun hstrings e he => ?_⟩
  · rw [hget, Option.some.injEq, Json.arr.injEq, filter_eq_filter_iff]
    simp only [Bool.not_inj_iff]
  · have hkey := Document.keyedIdentity_of_strings hstrings key
    rw [Bool.eq_iff_iff, hplain (fun fields he => by rw [hkey] at he; cases he),
      Document.answersTo_iff, hkey]
    refine exists_congr fun v => and_congr_right fun hv => ?_
    obtain ⟨s, rfl⟩ := hstrings e he v hv
    rw [Json.str_equalsOrContains_iff, Json.str.injEq]
    exact ⟨fun hs => ⟨Json.noConfusion, hs.symm⟩, fun hs => hs.2.symm⟩

/-- A document with an array whose elements have identities of three kinds. -/
def flagged : Json :=
  .obj [("_id", .str "a"), ("items", .arr [.obj [("_id", .bool true)], .obj [("_id", .str "true")],
    .obj [("_id", .arr [.bool true])]])]

/-- The document is added, and nothing else. -/
def flaggedAdded : List Call := [.write (.insert "t" none flagged)]

/-- The database after that. -/
def flaggedStored : Database := (after stillSupply .standard .anonymous flaggedAdded).database

/-- The removal of what the text `true` names. -/
def removeTrue : Mutation := .remove [.literal "items"] (some "true") none

/-- The key names the truth value and the string, but the truth value and the array are removed. -/
theorem removal_by_key_misses_string : ∃ db' new,
    (removeTrue.apply (Database.writer "t" none) none (.str "a")).perform flaggedStored =
      (.ok (), db') ∧
    db'.store.findOne "t" (.byId (.str "a")) = some new ∧
    new.get? ["items"] = some (.arr [.obj [("_id", .str "true")]]) ∧
    [Json.obj [("_id", .bool true)], .obj [("_id", .str "true")],
      .obj [("_id", .arr [.bool true])]].filter (fun e => !Document.answersTo e "true") =
        [.obj [("_id", .arr [.bool true])]] :=
  ⟨_, _, rfl, rfl, rfl, rfl⟩

/-- The element that stays is the one whose identity is a string. -/
theorem removal_by_key_leaves_string : ∃ db' new,
    (removeTrue.apply (Database.writer "t" none) none (.str "a")).perform flaggedStored =
      (.ok (), db') ∧
    db'.store.findOne "t" (.byId (.str "a")) = some new ∧
    new.get? ["items"] = some (.arr [.obj [("_id", .str "true")]]) := by
  have hstored : Document.attribute flagged ⟨none, 0, 0⟩ ∈ flaggedStored.store.lists "t" := by
    decide
  obtain ⟨db', hperform⟩ : ∃ db', (removeTrue.apply (Database.writer "t" none) none
      (.str "a")).perform flaggedStored = (.ok (), db') := ⟨_, rfl⟩
  obtain ⟨f, new, hcompile, hfound, -, hget, -⟩ := removal_by_key stillSupply .standard .anonymous
    flaggedAdded rfl hstored rfl rfl rfl hperform
  obtain rfl := Except.ok.inj hcompile
  exact ⟨db', new, hperform, hfound, hget⟩

/-- **A removal by position erases one element.** After any calls, let all identities be strings,
and let a document be found by an identity. Let a record of a removal without a key be applied to
it, whose fresh mark is no element of an array that it addresses. If it succeeds, then it addresses
a position that lies in an array of the document; the element at this position is erased from the
array, and nothing else has changed but the entries. If it fails, then nothing has changed. It fails
if it addresses no position that lies in an array. -/
theorem removal_by_position (supply : Supply) (settings : Settings) (options : SessionOptions)
    (calls : List Call) {db : Database}
    (hdb : (after supply settings options calls).database = db) (hids : db.store.StringIds)
    {name : String} {id doc : Json} (hfound : db.store.findOne name (.byId id) = some doc)
    {path : MutationPath} {index : Option Nat}
    (hfresh : ∀ array items p, Mutation.RemovesAt doc path index array items p →
      .str db.fresh ∉ items) {client user : Option String} {r : Except Error Unit} {db' : Database}
    (h : ((Mutation.remove path none index).apply (Database.writer name client) user
      id).perform db = (r, db')) :
    (r = .ok () → ∃ array items p new, Mutation.RemovesAt doc path index array items p ∧
      p < items.length ∧ db'.store.findOne name (.byId id) = some new ∧
      db.store.Shift name (some doc) (some new) db'.store ∧
      new.get? array = some (.arr (items.eraseIdx p)) ∧
      Document.Edited array (.arr (items.eraseIdx p)) doc new ∧ Document.Kept array doc new) ∧
    (∀ e, r = .error e → db.Unchanged db') ∧
    ((¬ ∃ array items p, Mutation.RemovesAt doc path index array items p ∧ p < items.length) →
      ∃ e, r = .error e) := by
  have hsound : db.store.Sound := hdb ▸ sound_after calls
  obtain ⟨slot, t, hmem, hid, rfl⟩ := Database.exists_of_findOne_byId hids hfound
  cases r with
  | error e =>
    have hunchanged := Database.record_failsClean hsound hids (.str t) _ e db' h
    exact ⟨fun he => (nomatch he), fun _ _ => hunchanged, fun _ => ⟨e, rfl⟩⟩
  | ok u =>
    obtain ⟨array, items, p, new, hremoves, hp, hnew, hs', hedited, hroot⟩ :=
      Database.exists_edited_of_positional hsound hmem hid hfresh h
    obtain ⟨field, rest, rfl⟩ := List.exists_cons_of_ne_nil hroot
    have hget := hedited.get? (Document.isObject_of_id? hid) hremoves.get?
    refine ⟨fun _ => ⟨_, items, p, new, hremoves, hp, hnew.findOne hs', hnew.shift hsound, hget,
      hedited, hedited.kept⟩, fun e he => (nomatch he), fun hnone => ?_⟩
    exact absurd ⟨_, items, p, hremoves, hp⟩ hnone

/-- A reference leads to the first element, and this one is erased. -/
theorem removal_by_reference_erases_first : ∃ db' new,
    ((Mutation.remove [.literal "items", .ref "true"] none none).apply (Database.writer "t" none)
      none (.str "a")).perform flaggedStored = (.ok (), db') ∧
    db'.store.findOne "t" (.byId (.str "a")) = some new ∧
    new.get? ["items"] = some (.arr [.obj [("_id", .str "true")],
      .obj [("_id", .arr [.bool true])]]) := by
  have hids : flaggedStored.store.StringIds := Store.stringIds_singleton rfl
  have haddressed : ∀ array items p, Mutation.RemovesAt (Document.attribute flagged ⟨none, 0, 0⟩)
      [.literal "items", .ref "true"] none array items p →
      array = ["items"] ∧ items = [.obj [("_id", .bool true)], .obj [("_id", .str "true")],
        .obj [("_id", .arr [.bool true])]] ∧ p = 0 := by
    rintro array items p ⟨resolved, place, hresolve, hnames, rfl, hitems⟩
    have hfirst : MutationPath.resolve (some (Document.attribute flagged ⟨none, 0, 0⟩))
        [.literal "items", .ref "true"] = .ok ([.literal "items"] ++ [.index 0]) := rfl
    obtain rfl := Except.ok.inj (hfirst.symm.trans hresolve)
    cases hnames with
    | last h =>
      obtain ⟨rfl, hp⟩ := List.append_inj' h rfl
      cases hp
      exact ⟨rfl, (Json.arr.inj (Option.some.inj hitems)).symm, rfl⟩
  have hfresh : ∀ array items p, Mutation.RemovesAt (Document.attribute flagged ⟨none, 0, 0⟩)
      [.literal "items", .ref "true"] none array items p →
      .str flaggedStored.fresh ∉ items := by
    intro array items p h
    rw [(haddressed array items p h).2.1]
    decide
  obtain ⟨db', hperform⟩ : ∃ db', ((Mutation.remove [.literal "items", .ref "true"] none none).apply
      (Database.writer "t" none) none (.str "a")).perform flaggedStored = (.ok (), db') := ⟨_, rfl⟩
  obtain ⟨array, items, p, new, hremoves, -, hfound, -, hget, -⟩ :=
    (removal_by_position stillSupply .standard .anonymous flaggedAdded rfl hids rfl hfresh
      hperform).1 rfl
  obtain ⟨rfl, rfl, rfl⟩ := haddressed array items p hremoves
  exact ⟨db', new, hperform, hfound, hget⟩

end Watch
end DocWatch
