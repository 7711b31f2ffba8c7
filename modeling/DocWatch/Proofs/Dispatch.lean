import DocWatch.Dispatch
import DocWatch.Proofs.DeliveryQueue
import DocWatch.Proofs.History
import DocWatch.Proofs.Query
import DocWatch.Proofs.Subscription
import Mathlib.Data.Set.Card

/-!
# Exact delivery

Whatever was registered, observed, stopped, dispatched and delivered so far, the dispatch of one
more change tells each observer of an affected query once, and nobody else. Both the registered
queries and the tags that stand are read off the history of calls, and `Dispatch.Traced` says that
the state agrees with this history.

- `Dispatch.Call`, `Dispatch.after`: runs of calls.
- `Dispatch.standing`, `Dispatch.Registered`: what a history says about subscriptions and queries.
- `Dispatch.messages`: what an observer is told when all deliveries are made.
- `Dispatch.traced_after`: the invariant of runs.
- `Dispatch.notify_exact`: what one dispatch of a change does.
-/

namespace DocWatch.Dispatch

/-! ## Runs -/

/-- A call of the dispatch, or deliveries that are made between calls. -/
inductive Call where
  | register (collection method : String) (filter : Json)
  | observe (query : QueryId) (observer : Observer) (tag : Option String)
  | stop (query : QueryId) (observer : Observer)
  | notify (collection : String) (before after : Option Json)
  | settle (blocks : Observer → Bool)
  | shutDown

/-- The dispatch after a call. -/
def Call.run (d : Dispatch) : Call → Dispatch
  | .register collection method filter => (d.register collection method filter).2
  | .observe query observer tag => (d.observe query observer tag).2
  | .stop query observer => (d.stop query observer).2
  | .notify collection before after => (d.notify collection before after).2
  | .settle blocks => d.settle blocks
  | .shutDown => d.shutDown

/-- The dispatch after some calls. -/
def after (settings : Settings) (calls : List Call) : Dispatch :=
  calls.foldl Call.run (create settings)

theorem after_concat (settings : Settings) (calls : List Call) (call : Call) :
    after settings (calls ++ [call]) = call.run (after settings calls) := by
  rw [after, List.foldl_append]
  rfl

/-! ## Histories -/

/-- What a call does to the tag of one observer at one query: the first observation stands until
it is stopped. -/
def Call.retag (query : QueryId) (identity : Nat) (tag? : Option (Option String)) :
    Call → Option (Option String)
  | .observe query' observer tag =>
    if query' = query ∧ observer.identity = identity then tag?.or (some tag) else tag?
  | .stop query' observer =>
    if query' = query ∧ observer.identity = identity then none else tag?
  | _ => tag?

/-- The tag of the registration of an observer at a query that stands after some calls. -/
def standing (calls : List Call) (query : QueryId) (identity : Nat) : Option (Option String) :=
  calls.foldl (Call.retag query identity) none

/-- A call is a registration that answers a query. -/
def Answers (q : Query) (d : Dispatch) (call : Call) : Prop :=
  ∃ collection method filter, call = .register collection method filter ∧
    (d.register collection method filter).1 = .ok q

/-- A query was answered to one of the registrations. -/
def Registered (settings : Settings) (calls : List Call) (q : Query) : Prop :=
  Happened (after settings) (Answers q) calls

theorem standing_concat (calls : List Call) (call : Call) (query : QueryId) (identity : Nat) :
    standing (calls ++ [call]) query identity =
      call.retag query identity (standing calls query identity) := by
  rw [standing, List.foldl_append]
  rfl

/-! ## The invariant of runs -/

/-- The state agrees with the history. -/
structure Traced (settings : Settings) (calls : List Call) (d : Dispatch) : Prop where
  unique : d.subscriptions.Unique
  numbered : d.queries.Numbered
  tags : ∀ query identity, d.subscriptions.tagOf query identity = standing calls query identity
  registered : ∀ q, q ∈ d.queries.queries ↔ Registered settings calls q

theorem traced_create (settings : Settings) : Traced settings [] (create settings) where
  unique := List.Pairwise.nil
  numbered := QueryTable.numbered_empty
  tags := fun _ _ => rfl
  registered := fun _ => iff_of_false List.not_mem_nil not_happened_nil

/-- A call that is no registration and leaves queries and tags alone keeps the agreement. -/
theorem Traced.of_same {settings : Settings} {calls : List Call} {d d' : Dispatch}
    (h : Traced settings calls d) {call : Call} (hqueries : d'.queries = d.queries)
    (hcall : ∀ collection method filter, call ≠ .register collection method filter)
    (hunique : d'.subscriptions.Unique)
    (htags : ∀ query identity, d'.subscriptions.tagOf query identity =
      call.retag query identity (d.subscriptions.tagOf query identity)) :
    Traced settings (calls ++ [call]) d' where
  unique := hunique
  numbered := by
    rw [hqueries]
    exact h.numbered
  tags := fun query identity => by rw [htags, h.tags, standing_concat]
  registered := fun q => by
    rw [hqueries, h.registered, Registered, Registered, happened_concat]
    refine ⟨Or.inl, fun hor => hor.resolve_right ?_⟩
    rintro ⟨collection, method, filter, he, -⟩
    exact hcall collection method filter he

/-- One call keeps the agreement. -/
theorem Traced.run {settings : Settings} {calls : List Call}
    (h : Traced settings calls (after settings calls)) (call : Call) :
    Traced settings (calls ++ [call]) (call.run (after settings calls)) := by
  cases call with
  | register collection method filter =>
    refine { unique := h.unique, numbered := ?_, tags := fun query identity => ?_,
             registered := fun q => ?_ }
    · exact QueryTable.numbered_register h.numbered collection method filter
    · rw [standing_concat]
      exact h.tags query identity
    · rw [Registered, happened_concat, ← Registered, ← h.registered]
      -- a registered query is an old one, or the one that is answered
      obtain ⟨more, hqueries, hmore⟩ := QueryTable.register_queries collection method filter
        (after settings calls).queries
      constructor
      · intro hq
        rcases List.mem_append.mp (hqueries ▸ hq) with hold | hnew
        · exact .inl hold
        · exact .inr ⟨collection, method, filter, rfl, hmore q hnew⟩
      · rintro (hold | ⟨collection', method', filter', he, hanswer⟩)
        · exact hqueries ▸ List.mem_append_left more hold
        · cases he
          exact QueryTable.mem_of_register hanswer
  | observe query observer tag =>
    refine h.of_same rfl (fun _ _ _ => Call.noConfusion)
      (Subscriptions.unique_observe h.unique query observer tag) fun query' identity => ?_
    exact Subscriptions.tagOf_observe _ query query' observer tag identity
  | stop query observer =>
    refine h.of_same rfl (fun _ _ _ => Call.noConfusion)
      (Subscriptions.unique_stop h.unique query observer) fun query' identity => ?_
    exact Subscriptions.tagOf_stop h.unique query query' observer identity
  | notify | settle | shutDown =>
    exact h.of_same rfl (fun _ _ _ => Call.noConfusion) h.unique fun _ _ => rfl

/-- After any calls, the state agrees with the history. -/
theorem traced_after (settings : Settings) (calls : List Call) :
    Traced settings calls (after settings calls) := by
  induction calls using List.reverseRecOn with
  | nil => exact traced_create settings
  | append_singleton calls call ih =>
    rw [after_concat]
    exact ih.run call

/-! ## Messages -/

/-- The messages for one observer among some deliveries. -/
def messagesTo (identity : Nat) (deliveries : List Delivery) : List Invalidation :=
  (deliveries.filter fun delivery => delivery.observer.identity == identity).map
    Delivery.invalidation

/-- What an observer has been told when all deliveries that were accepted have been made. -/
def messages (d : Dispatch) (identity : Nat) : List Invalidation :=
  messagesTo identity (d.settle fun _ => false).delivered

theorem messages_eq (d : Dispatch) (identity : Nat) :
    d.messages identity = messagesTo identity (d.queue.accepted.map Task.work) := by
  rw [messages, delivered, settle, DeliveryQueue.settle_ended]

/-- A change adds the messages of its deliveries, wherever its tasks are run. -/
theorem messages_notify (d : Dispatch) (collection : String) (before after : Option Json)
    (identity : Nat) : ((d.notify collection before after).2.messages identity).Perm
      (messagesTo identity (d.deliveries collection before after) ++ d.messages identity) := by
  rw [messages_eq, messages_eq]
  have hwork : ((d.deliveries collection before after).map task).map Task.work =
      d.deliveries collection before after := by
    rw [List.map_map]
    exact List.map_id' _
  have haccepted := (DeliveryQueue.submitAll_accepted
    ((d.deliveries collection before after).map task) d.queue).map Task.work
  rw [List.map_append, hwork] at haccepted
  have hmessages := (haccepted.filter fun delivery =>
    delivery.observer.identity == identity).map Delivery.invalidation
  rw [List.filter_append, List.map_append] at hmessages
  exact hmessages.trans List.perm_append_comm

/-- With unique subscriptions, a change adds one message for an observer with hits. -/
theorem messages_notify_of_unique {d : Dispatch} (h : d.subscriptions.Unique)
    (collection : String) (before after : Option Json) (identity : Nat) :
    ((d.notify collection before after).2.messages identity).Perm
      ((if d.subscriptions.hitsOf (d.queries.affected collection before after) identity = [] then []
        else [⟨collection, d.subscriptions.hitsOf
          (d.queries.affected collection before after) identity⟩]) ++ d.messages identity) := by
  rw [← Subscriptions.messages_invalidations h]
  exact messages_notify d collection before after identity

/-- When no query is affected, nothing happens. -/
theorem notify_of_affected_nil {d : Dispatch} {collection : String} {before after : Option Json}
    (h : d.queries.affected collection before after = []) :
    (d.notify collection before after).2 = d := by
  have hnone : d.deliveries collection before after = [] := by
    rw [deliveries, h]
    rfl
  rw [notify, hnone]
  rfl

/-- The observers that are told are counted. -/
theorem observers_notify {d : Dispatch} (h : d.subscriptions.Unique) (collection : String)
    (before after : Option Json) : (d.notify collection before after).1.observers =
      {identity | ∃ query ∈ d.queries.affected collection before after,
        (d.subscriptions.tagOf query identity).isSome = true}.ncard := by
  have hset : {identity | ∃ query ∈ d.queries.affected collection before after,
        (d.subscriptions.tagOf query identity).isSome = true} =
      ((d.subscriptions.hits (d.queries.affected collection before after)).map
        Subscriptions.groupIdentity).toFinset := by
    ext identity
    rw [List.coe_toFinset, Set.mem_ofPred_eq, Set.mem_ofPred_eq, Subscriptions.mem_hits_iff h,
      Subscriptions.hitsOf_ne_nil_iff]
  have hdistinct := (Subscriptions.grouped_hits d.subscriptions
    (d.queries.affected collection before after)).distinct
  rw [hset, Set.ncard_coe_finset, List.toFinset_card_of_nodup hdistinct, List.length_map]
  exact List.length_map _

/-! ## Exact delivery -/

/-- A snapshot belongs to the result of a query: it is there, is not marked as deleted, and the
filter of the query selects it. -/
def Shows (q : Query) (snapshot : Option Json) : Prop :=
  ∃ doc, snapshot = some doc ∧ Document.isDeleted doc = false ∧ q.filter.selects doc = true

/-- What the dispatch of a change after some calls has to do: it tells exactly those who have
subscribed to an affected query. -/
structure NotifiesExactly (settings : Settings) (calls : List Call) (collection : String)
    (before after : Option Json) (outcome : Notice × Dispatch) : Prop where
  increasing : outcome.1.affected.Pairwise (· < ·)
  affected_iff : ∀ id, id ∈ outcome.1.affected ↔ ∃ q, Registered settings calls q ∧ q.id = id ∧
    q.collection = collection ∧ (Shows q before ∨ Shows q after)
  told : ∀ identity, (∃ id ∈ outcome.1.affected, (standing calls id identity).isSome = true) →
    (outcome.2.messages identity).Perm
      (⟨collection, outcome.1.affected.filterMap fun id =>
        (standing calls id identity).map fun tag => ⟨id, tag⟩⟩ ::
          (Dispatch.after settings calls).messages identity)
  untold : ∀ identity, (∀ id ∈ outcome.1.affected, standing calls id identity = none) →
    (outcome.2.messages identity).Perm ((Dispatch.after settings calls).messages identity)
  counted : outcome.1.observers = {identity | ∃ id ∈ outcome.1.affected,
    (standing calls id identity).isSome = true}.ncard

/-- **Exact delivery.** After any calls, the dispatch of a change affects, in increasing order, the
queries registered for the collection to whose results the document belonged or belongs; each
observer with a subscription that stands to one of them gets one message, with a hit for each such
query in increasing order and the tag that stands there; any other observer gets none; and the
observers that get one are counted. -/
theorem notify_exact (settings : Settings) (calls : List Call) (collection : String)
    (before after : Option Json) :
    NotifiesExactly settings calls collection before after
      ((Dispatch.after settings calls).notify collection before after) := by
  have htraced := traced_after settings calls
  let affected := (Dispatch.after settings calls).queries.affected collection before after
  -- the hits, with the tags read off the history
  let hits (identity : Nat) : List Hit :=
    affected.filterMap fun id => (standing calls id identity).map fun tag => ⟨id, tag⟩
  have hnew : ∀ identity,
      (((Dispatch.after settings calls).notify collection before after).2.messages identity).Perm
        ((if hits identity = [] then [] else [⟨collection, hits identity⟩]) ++
          (Dispatch.after settings calls).messages identity) := by
    intro identity
    have hmessages := messages_notify_of_unique htraced.unique collection before after identity
    simp only [Subscriptions.hitsOf, htraced.tags] at hmessages
    exact hmessages
  refine { increasing := ?_, affected_iff := fun id => ?_, told := fun identity hsome => ?_,
           untold := fun identity hnone => ?_, counted := ?_ }
  · exact QueryTable.affected_pairwise htraced.numbered collection before after
  · show id ∈ affected ↔ _
    rw [QueryTable.mem_affected_iff]
    refine exists_congr fun q => ?_
    rw [htraced.registered, Query.admits_iff, Query.admits_iff]
    rfl
  · obtain ⟨id, hid, hstands⟩ := hsome
    obtain ⟨tag, htag⟩ := Option.isSome_iff_exists.mp hstands
    have hne : hits identity ≠ [] :=
      List.ne_nil_of_mem (List.mem_filterMap.mpr ⟨id, hid, by rw [htag]; rfl⟩)
    have hperm := hnew identity
    rw [if_neg hne] at hperm
    exact hperm
  · have hnil : hits identity = [] :=
      List.filterMap_eq_nil_iff.mpr fun id hid => by rw [hnone id hid]; rfl
    have hperm := hnew identity
    rw [if_pos hnil] at hperm
    exact hperm
  · have hcount := observers_notify htraced.unique collection before after
    simp only [htraced.tags] at hcount
    exact hcount

end DocWatch.Dispatch
