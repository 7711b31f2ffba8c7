import DocWatch.Query

/-!
# Subscriptions

An observer is subscribed to a query at most once; the tag of the first subscription stands.

- `Subscriptions.observe`, `Subscriptions.stop`: subscribing and its end.
- `Subscriptions.ofQuery`: the subscriptions to a query in the order in which they were made.
- `Subscriptions.invalidations`: what each observer is told when queries are affected: one message
  with all hits.
-/

namespace DocWatch

/-- Someone who wants to hear about changes. Two observers are the same if their identity is. -/
structure Observer where
  identity : Nat
  /-- Does the observer fail when it is told something? -/
  panics : Bool
deriving DecidableEq, Repr

/-- An observer's subscription to a query. -/
structure Subscription where
  query : QueryId
  observer : Observer
  tag : Option String
deriving DecidableEq, Repr

/-- An affected query, with the tag of the subscription to it. -/
structure Hit where
  query : QueryId
  tag : Option String
deriving DecidableEq, Repr

/-- What an observer is told: the collection that changed, and its queries that are affected. -/
structure Invalidation where
  collection : String
  hits : List Hit
deriving DecidableEq, Repr

/-- A message and the observer that gets it. -/
structure Delivery where
  observer : Observer
  invalidation : Invalidation
deriving DecidableEq, Repr

/-- The subscriptions that stand, in the order in which they were made. -/
abbrev Subscriptions := List Subscription

namespace Subscriptions

/-- Is this the subscription of an observer to a query? -/
def concerns (query : QueryId) (observer : Observer) (s : Subscription) : Bool :=
  s.query == query && s.observer.identity == observer.identity

/-- Subscribes an observer to a query unless it is. -/
def observe (query : QueryId) (observer : Observer) (tag : Option String) (ss : Subscriptions) :
    Bool × Subscriptions :=
  if ss.any (concerns query observer) then (false, ss)
  else (true, ss ++ [⟨query, observer, tag⟩])

/-- Ends the subscription of an observer to a query, if there is one. -/
def stop (query : QueryId) (observer : Observer) (ss : Subscriptions) : Bool × Subscriptions :=
  (ss.any (concerns query observer), ss.eraseP (concerns query observer))

/-- The subscriptions to a query. -/
def ofQuery (ss : Subscriptions) (query : QueryId) : Subscriptions :=
  List.filter (fun s => s.query == query) ss

/-- Adds a hit to what an observer is told. -/
def addHit (observer : Observer) (hit : Hit) :
    List (Observer × List Hit) → List (Observer × List Hit)
  | [] => [(observer, [hit])]
  | (o, hits) :: rest =>
    if o.identity = observer.identity then (o, hits ++ [hit]) :: rest
    else (o, hits) :: addHit observer hit rest

/-- What the observers of queries are told, in the order in which they are met. -/
def hits (ss : Subscriptions) (queries : List QueryId) : List (Observer × List Hit) :=
  queries.foldl (fun told query =>
    (ss.ofQuery query).foldl (fun told s => addHit s.observer ⟨query, s.tag⟩ told) told) []

/-- One message for each observer of affected queries. -/
def invalidations (ss : Subscriptions) (collection : String) (affected : List QueryId) :
    List Delivery :=
  (ss.hits affected).map fun (observer, hits) => ⟨observer, ⟨collection, hits⟩⟩

end Subscriptions
end DocWatch
