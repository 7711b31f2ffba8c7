import DocWatch.Proofs.Store.Write

/-!
# Writes act on the document that is found

A write looks for the first document that its filter selects, and then goes to the key of that
document's *present* identity. It reaches the document it found exactly when the document lies
under that key. An update may respell an identity: it has to stay equal to a query, but two
spellings of one object, or two numbers with the same double, have different keys. From then on
the document lies under a key that is not its own.

- `Store.after`: the store after a run of calls.
- `Store.Call.KeepsKey`: the call does not respell the key of the document that it rewrites.
- `Store.writes_act_on_found_document`: a run keeps every document under its own key exactly when
  all of its calls keep keys, and a found document is what the writes act on exactly when it lies
  under its own key.
-/

namespace DocWatch.Store

/-! ## Runs -/

/-- One call of the store. -/
inductive Call where
  | insert (name fresh : String) (doc : Json)
  | update (name fresh : String) (f : Filter) (u : Update) (upsert : Bool)
  | delete (name : String) (f : Filter)

/-- The store after a call. -/
def Call.run : Call → Store → Store
  | .insert name fresh doc, s => (s.insert name fresh doc).2
  | .update name fresh f u upsert, s => (s.update name fresh f u upsert).2
  | .delete name f, s => (s.delete name f).2

/-- The store after a run of calls, from the empty one. -/
def after (calls : List Call) : Store := calls.foldl (fun s call => call.run s) []

theorem after_take_succ (calls : List Call) (n : Nat) (call : Call) (h : calls[n]? = some call) :
    after (calls.take (n + 1)) = call.run (after (calls.take n)) := by
  rw [List.take_add_one, h, after, List.foldl_append]
  rfl

/-- Every call changes at most one place. -/
theorem Call.change {s : Store} (hnd : s.Distinct) (call : Call) : s.Change (call.run s) := by
  cases call with
  | insert name fresh doc => exact insert_change s name fresh doc
  | update name fresh f u upsert => exact update_change hnd name fresh f u upsert
  | delete name f => exact delete_change hnd name f

/-- No key ever stands twice, and what every change of a collection keeps holds for ever. -/
theorem distinct_and_forall_after {P : Collection → Prop} (hnil : P [])
    (hP : ∀ c c' : Collection, c.Change c' → P c → P c') (calls : List Call) :
    (after calls).Distinct ∧ ∀ name, P ((after calls).collection name) := by
  have hrun : ∀ (calls : List Call) (s : Store), s.Distinct → (∀ name, P (s.collection name)) →
      (calls.foldl (fun s call => call.run s) s).Distinct ∧
        ∀ name, P ((calls.foldl (fun s call => call.run s) s).collection name) := by
    intro calls
    induction calls with
    | nil => exact fun s hnd hs => ⟨hnd, hs⟩
    | cons call rest ih =>
      intro s hnd hs
      have hchange := call.change hnd
      exact ih _ (hchange.distinct hnd) (hchange.forall hP hs)
  exact hrun calls [] (fun _ => List.nodup_nil) fun _ => hnil

/-- No key ever stands twice. -/
theorem distinct_after (calls : List Call) : (after calls).Distinct :=
  (distinct_and_forall_after (P := fun _ => True) trivial (fun _ _ _ _ => trivial) calls).1

/-- What every change of a collection keeps holds after every run. -/
theorem forall_after {P : Collection → Prop} (hnil : P [])
    (hP : ∀ c c' : Collection, c.Change c' → P c → P c') (calls : List Call) (name : String) :
    P ((after calls).collection name) :=
  (distinct_and_forall_after hnil hP calls).2 name

/-- What holds all along a run, where each call keeps it on a condition of its own. -/
theorem forall_after_take_iff {P : Store → Prop} {K : Store → Call → Prop} (hempty : P [])
    (hstep : ∀ s call, s.Distinct → P s → (P (call.run s) ↔ K s call)) (calls : List Call) :
    (∀ n, P (after (calls.take n))) ↔
      ∀ n (call : Call), calls[n]? = some call → K (after (calls.take n)) call := by
  constructor
  · intro hall n call hcall
    have hnext := hall (n + 1)
    rw [after_take_succ calls n call hcall] at hnext
    exact (hstep _ call (distinct_after _) (hall n)).mp hnext
  · intro hall n
    induction n with
    | zero => exact hempty
    | succ n ih =>
      cases hcall : calls[n]? with
      | none =>
        rw [List.take_add_one, hcall, Option.toList_none, List.append_nil]
        exact ih
      | some call =>
        rw [after_take_succ calls n call hcall]
        exact (hstep _ call (distinct_after _) ih).mpr (hall n call hcall)

/-! ## Which calls keep documents under their own keys -/

/-- The call leaves the document that it rewrites an identity of the same key. -/
def Call.KeepsKey (s : Store) : Call → Prop
  | .update name _ f u _ => ∀ old new, s.findOne name f = some old → u.run old = .ok new →
      Document.sameIdentity old new = true →
      (Document.id? new).map Identity.key = (Document.id? old).map Identity.key
  | _ => True

/-- A store with one collection exchanged is keyed when that collection is. -/
theorem keyed_insert_iff {s : Store} (hk : s.Keyed) (name : String) (c : Collection) :
    Store.Keyed (Members.insert s name c) ↔ c.Keyed := by
  constructor
  · intro h
    have hc := h name
    rwa [collection_insert, if_pos rfl] at hc
  · intro h name'
    rw [collection_insert]
    by_cases hn : name = name'
    · rwa [if_pos hn]
    · rw [if_neg hn]
      exact hk name'

theorem keyed_insert {s : Store} (hk : s.Keyed) (name fresh : String) (doc : Json) :
    (s.insert name fresh doc).2.Keyed := by
  unfold insert
  cases h : (s.collection name).insert name fresh doc with
  | error e => exact hk
  | ok r =>
    obtain ⟨id, c'⟩ := r
    obtain ⟨key, stored, -, hid, -, hkey, -, hc⟩ := Collection.insert_ok h
    simp only [hc]
    exact (keyed_insert_iff hk name _).mpr ((hk name).add hid hkey)

theorem keyed_delete {s : Store} (hk : s.Keyed) (hnd : s.Distinct) (name : String) (f : Filter) :
    (s.delete name f).2.Keyed := by
  unfold delete
  cases h : (s.collection name).matching f with
  | nil =>
    have hnone : (s.collection name).delete f = none := by
      simp [Collection.delete, Collection.targetKey?_of_matching_nil h]
    rw [hnone]
    exact hk
  | cons kd rest =>
    obtain ⟨key, doc⟩ := kd
    obtain ⟨l, r, hc, hdel⟩ :=
      Collection.delete_of_matching (hnd name) h ((hk name).of_matching h)
    have hkc := hk name
    rw [hc] at hkc
    rw [hdel]
    exact (keyed_insert_iff hk name _).mpr hkc.drop

/-- An update that finds nothing adds a document under its own key, if it adds one. -/
theorem keyed_update_of_matching_nil {s : Store} (hk : s.Keyed) {name : String} {f : Filter}
    (h : (s.collection name).matching f = []) (fresh : String) (u : Update) (upsert : Bool) :
    (s.update name fresh f u upsert).2.Keyed := by
  unfold update Collection.update
  rw [Collection.targetKey?_of_matching_nil h]
  cases upsert with
  | false => exact (keyed_insert_iff hk name _).mpr (hk name)
  | true =>
    simp only [if_true]
    cases hup : (s.collection name).upsert name fresh f u with
    | error e => exact (keyed_insert_iff hk name _).mpr (hk name)
    | ok r =>
      obtain ⟨outcome, c'⟩ := r
      obtain ⟨_, _, key, stored, id, -, -, -, hid, -, hkey, -, -, hc⟩ := Collection.upsert_ok hup
      simp only [hc]
      exact (keyed_insert_iff hk name _).mpr ((hk name).add hid hkey)

/-- An update keeps a store keyed exactly when it keeps the key of the document it rewrites. -/
theorem keyed_update_iff {s : Store} (hk : s.Keyed) (hnd : s.Distinct) (name fresh : String)
    (f : Filter) (u : Update) (upsert : Bool) :
    (s.update name fresh f u upsert).2.Keyed ↔
      (Call.update name fresh f u upsert).KeepsKey s := by
  rw [Call.KeepsKey]
  cases h : (s.collection name).matching f with
  | nil =>
    refine iff_of_true (keyed_update_of_matching_nil hk h fresh u upsert) fun old new hfind => ?_
    rw [findOne_of_matching_nil h] at hfind
    cases hfind
  | cons kd rest =>
    obtain ⟨key, doc⟩ := kd
    have hkey := (hk name).of_matching h
    obtain ⟨l, r, hc, -, hup⟩ :=
      Collection.update_of_matching (hnd name) h hkey name fresh u upsert
    have hkc := hk name
    rw [hc] at hkc
    unfold update
    rw [hup, findOne_of_matching h]
    cases hrun : u.run doc with
    | error e =>
      refine iff_of_true ((keyed_insert_iff hk name _).mpr (hk name)) fun old new hold hnew => ?_
      rw [← Option.some.inj hold, hrun] at hnew
      cases hnew
    | ok new =>
      by_cases hsame : Document.sameIdentity doc new = true
      · simp only [hsame, if_true]
        rw [keyed_insert_iff hk, Collection.keyed_rewrite_iff hkc, ← hkey]
        constructor
        · intro he old new' hold hnew' _
          rw [← Option.some.inj hold] at hnew' ⊢
          rw [hrun, Except.ok.injEq] at hnew'
          rw [← hnew', he]
        · exact fun hall => hall doc new rfl hrun hsame
      · -- the update fails, and there is no identity to respell
        simp only [hsame, if_false, Bool.false_eq_true]
        refine iff_of_true ((keyed_insert_iff hk name _).mpr (hk name))
          fun old new' hold hnew' hsame' => ?_
        rw [← Option.some.inj hold] at hnew' hsame'
        rw [hrun, Except.ok.injEq] at hnew'
        rw [← hnew'] at hsame'
        exact absurd hsame' hsame

/-- One call, from a keyed store. -/
theorem Call.keyed_run_iff {s : Store} (hk : s.Keyed) (hnd : s.Distinct) (call : Call) :
    (call.run s).Keyed ↔ call.KeepsKey s := by
  cases call with
  | insert name fresh doc => exact iff_of_true (keyed_insert hk name fresh doc) trivial
  | update name fresh f u upsert => exact keyed_update_iff hk hnd name fresh f u upsert
  | delete name f => exact iff_of_true (keyed_delete hk hnd name f) trivial

/-- A run keeps every document under its own key exactly when all of its calls keep keys. -/
theorem keyed_after_iff (calls : List Call) :
    (∀ n, (after (calls.take n)).Keyed) ↔
      ∀ n (call : Call), calls[n]? = some call → call.KeepsKey (after (calls.take n)) :=
  forall_after_take_iff (fun _ _ hmem => absurd hmem List.not_mem_nil)
    (fun _ call hnd hk => call.keyed_run_iff hk hnd) calls

/-! ## The document that is found is the one that is written -/

/-- Deleting and updating with a filter act on the document that lies under a key, in its place,
and on nothing else. -/
structure ActsOn (s : Store) (name : String) (f : Filter) (key : String) (doc : Json) : Prop where
  /-- A deletion answers the document and takes it out. -/
  delete : ∃ l r, s.collection name = l ++ (key, doc) :: r ∧
    (s.delete name f).1 = some doc ∧ (s.delete name f).2.collection name = l ++ r ∧
    ∀ other, other ≠ name → (s.delete name f).2.collection other = s.collection other
  /-- An update fails and changes no document, or answers the identity of the rewritten document
  and rewrites it. It never answers that nothing was found. -/
  update : ∀ fresh u upsert,
    (∃ e, (s.update name fresh f u upsert).1 = .error e ∧
      ∀ other, (s.update name fresh f u upsert).2.collection other = s.collection other) ∨
    ∃ l r new id, s.collection name = l ++ (key, doc) :: r ∧ u.run doc = .ok new ∧
      Document.id? new = some id ∧
      (s.update name fresh f u upsert).1 = .ok ⟨some id, none⟩ ∧
      (s.update name fresh f u upsert).2.collection name = l ++ (key, new) :: r ∧
      ∀ other, other ≠ name →
        (s.update name fresh f u upsert).2.collection other = s.collection other

section Found

variable {s : Store} {name : String} {f : Filter} {key : String} {doc : Json} {rest : Collection}

theorem delete_of_matching (hnd : s.Distinct)
    (h : (s.collection name).matching f = (key, doc) :: rest)
    (hk : (Document.id? doc).map Identity.key = some key) :
    ∃ l r, s.collection name = l ++ (key, doc) :: r ∧
      s.delete name f = (some doc, Members.insert s name (l ++ r)) := by
  obtain ⟨l, r, hc, hdel⟩ := Collection.delete_of_matching (hnd name) h hk
  refine ⟨l, r, hc, ?_⟩
  unfold delete
  rw [hdel]

/-- A found document that lies under its own key is what the writes act on. -/
theorem actsOn_of_matching (hnd : s.Distinct)
    (h : (s.collection name).matching f = (key, doc) :: rest)
    (hk : (Document.id? doc).map Identity.key = some key) : s.ActsOn name f key doc where
  delete := by
    obtain ⟨l, r, hc, hdel⟩ := delete_of_matching hnd h hk
    refine ⟨l, r, hc, by rw [hdel], ?_, fun other hne => ?_⟩
    · rw [hdel, collection_insert, if_pos rfl]
    · rw [hdel, collection_insert, if_neg (fun he => hne he.symm)]
  update := by
    intro fresh u upsert
    obtain ⟨l, r, hc, -, hup⟩ :=
      Collection.update_of_matching (hnd name) h hk name fresh u upsert
    unfold Store.update
    rw [hup]
    cases hrun : u.run doc with
    | error e => exact .inl ⟨_, rfl, collection_insert_self s name⟩
    | ok new =>
      by_cases hsame : Document.sameIdentity doc new = true
      · obtain ⟨_, id, -, hid, -⟩ := (Document.sameIdentity_iff doc new).mp hsame
        simp only [hsame, if_true]
        refine .inr ⟨l, r, new, id, hc, rfl, hid, by rw [hid], ?_, fun other hne => ?_⟩
        · rw [collection_insert, if_pos rfl]
        · rw [collection_insert, if_neg (fun he => hne he.symm)]
      · simp only [hsame, if_false, Bool.false_eq_true]
        exact .inl ⟨_, rfl, collection_insert_self s name⟩

/-- A deletion that goes to another key leaves a document where it is. -/
theorem mem_delete_of_ne (hmem : (key, doc) ∈ s.collection name)
    (hne : (s.collection name).targetKey? f ≠ some key) :
    (key, doc) ∈ (s.delete name f).2.collection name := by
  unfold delete Collection.delete
  cases htarget : (s.collection name).targetKey? f with
  | none => simpa [htarget] using hmem
  | some target =>
    cases hget : Members.get? (s.collection name) target with
    | none => simpa [htarget, hget] using hmem
    | some old =>
      have hkey : key ≠ target := fun he => hne (he ▸ htarget)
      simp [hget, Members.remove, hmem, hkey]

/-- The writes act on the found document only if it lies under its own key. -/
theorem key_of_actsOn (hnd : s.Distinct)
    (h : (s.collection name).matching f = (key, doc) :: rest) (hacts : s.ActsOn name f key doc) :
    (Document.id? doc).map Identity.key = some key := by
  obtain ⟨l, r, hc, -, hdel, -⟩ := hacts.delete
  by_contra hne
  have hmem : (key, doc) ∈ s.collection name := by
    rw [hc]
    exact List.mem_append_right l List.mem_cons_self
  rw [← Collection.targetKey?_of_matching h] at hne
  have hstays := mem_delete_of_ne hmem hne
  have hother := hnd name
  rw [hc] at hother
  -- the document stays, but its key is not among those that are left
  obtain ⟨hl, hr⟩ := Members.not_mem_of_split hother
  rw [hdel] at hstays
  rcases List.mem_append.mp hstays with hin | hin
  · exact hl (Members.mem_keys_of_mem hin)
  · exact hr (Members.mem_keys_of_mem hin)

end Found

/-- **Writes act on the document that is found**, up to respelled identities. A run from the empty
store keeps every document under the key of its own identity exactly when no update of it respells
the key of the document it rewrites. Then, for every filter, a deletion answers the document that
is found first, and both writes act on that document. Without that condition, they still act on
each found document that lies under its own key, and on no other. -/
theorem writes_act_on_found_document (calls : List Call) :
    ((∀ n, (after (calls.take n)).Keyed) ↔
      ∀ n (call : Call), calls[n]? = some call → call.KeepsKey (after (calls.take n))) ∧
    ((after calls).Keyed → ∀ name f,
      ((after calls).delete name f).1 = (after calls).findOne name f ∧
      ∀ doc, (after calls).findOne name f = some doc →
        ∃ key, (after calls).ActsOn name f key doc) ∧
    ∀ name f key doc rest, ((after calls).collection name).matching f = (key, doc) :: rest →
      ((after calls).ActsOn name f key doc ↔
        (Document.id? doc).map Identity.key = some key) := by
  have hnd := distinct_after calls
  refine ⟨keyed_after_iff calls, fun hk name f => ?_, fun name f key doc rest h =>
    ⟨key_of_actsOn hnd h, actsOn_of_matching hnd h⟩⟩
  cases h : ((after calls).collection name).matching f with
  | nil =>
    have hnone : ((after calls).delete name f).1 = none := by
      simp [Store.delete, Collection.delete, Collection.targetKey?_of_matching_nil h]
    rw [hnone, findOne_of_matching_nil h]
    exact ⟨rfl, fun doc hdoc => by cases hdoc⟩
  | cons kd rest =>
    obtain ⟨key, doc⟩ := kd
    have hacts := actsOn_of_matching hnd h ((hk name).of_matching h)
    obtain ⟨-, -, -, hdel, -⟩ := hacts.delete
    rw [hdel, findOne_of_matching h]
    refine ⟨rfl, fun doc' hdoc => ⟨key, ?_⟩⟩
    rw [← Option.some.inj hdoc]
    exact hacts

/-- A document whose identity is an object, and an update that writes the members of that object in
another order. -/
def respelling : List Call :=
  [.insert "t" "" (.obj [("_id", .obj [("a", .bool true), ("b", .bool false)])]),
   .update "t" "" .all [.set ["_id"] (.obj [("b", .bool false), ("a", .bool true)])] false]

/-- After a respelling the document is found, but it no longer lies under its own key: it cannot be
deleted, and an update reports that nothing was found. -/
theorem respelled_identity_is_lost :
    (after respelling).findOne "t" .all =
        some (.obj [("_id", .obj [("b", .bool false), ("a", .bool true)])]) ∧
      ¬ (after respelling).Keyed ∧ ((after respelling).delete "t" .all).1 = none ∧
      ((after respelling).update "t" "" .all [] false).1 = .ok .nothing := by
  refine ⟨by decide, fun hk => ?_, by decide, by decide⟩
  have hkey := hk "t" _ List.mem_cons_self
  revert hkey
  decide

/-- A document whose identity is a string, and a change of one of its fields. -/
def revision : List Call :=
  [.insert "t" "" (.obj [("_id", .str "n"), ("done", .bool false)]),
   .update "t" "" .all [.set ["done"] (.bool true)] false]

/-- The revised document is what the writes act on. -/
theorem writes_act_on_revised_document :
    (after revision).ActsOn "t" .all "\"n\"" (.obj [("_id", .str "n"), ("done", .bool true)]) :=
  ((writes_act_on_found_document revision).2.2 "t" .all _ _ [] (by decide)).mpr (by decide)

end DocWatch.Store
