import DocWatch.DeliveryQueue
import DocWatch.Settings
import DocWatch.Subscription

/-!
# Dispatch of changes

- `Dispatch`: registered queries, subscriptions and the delivery queue of one service.
- `Dispatch.notify`: what follows from one write: the queries whose results a document belonged to
  before or belongs to now are affected, and each of their observers gets one delivery.
-/

namespace DocWatch

/-- Registered queries, subscriptions and deliveries. -/
structure Dispatch where
  settings : Settings
  queries : QueryTable
  subscriptions : Subscriptions
  queue : DeliveryQueue Delivery

/-- What a write led to. -/
structure Notice where
  affected : List QueryId
  observers : Nat
deriving DecidableEq, Repr

namespace Dispatch

/-- Nothing registered yet. -/
def create (settings : Settings) : Dispatch :=
  ⟨settings, .empty, [], .create settings.workers⟩

/-- The query of a collection, a method and a filter, registered if it is new. -/
def register (collection method : String) (filter : Json) (d : Dispatch) :
    Except Error Query × Dispatch :=
  let (r, queries) := d.queries.register collection method filter
  (r, { d with queries })

/-- Subscribes an observer to a query unless it is. -/
def observe (query : QueryId) (observer : Observer) (tag : Option String) (d : Dispatch) :
    Bool × Dispatch :=
  let (new, subscriptions) := d.subscriptions.observe query observer tag
  (new, { d with subscriptions })

/-- Ends a subscription. -/
def stop (query : QueryId) (observer : Observer) (d : Dispatch) : Bool × Dispatch :=
  let (ended, subscriptions) := d.subscriptions.stop query observer
  (ended, { d with subscriptions })

/-- The deliveries that a write leads to. -/
def deliveries (d : Dispatch) (collection : String) (before after : Option Json) :
    List Delivery :=
  d.subscriptions.invalidations collection (d.queries.affected collection before after)

/-- The task of a delivery. It fails if its observer does. -/
def task (delivery : Delivery) : Task Delivery := ⟨delivery, delivery.observer.panics⟩

/-- Tells observers about a write, given the document before and after it. -/
def notify (collection : String) (before after : Option Json) (d : Dispatch) : Notice × Dispatch :=
  let deliveries := d.deliveries collection before after
  (⟨d.queries.affected collection before after, deliveries.length⟩,
    { d with queue := (d.queue.submitAll (deliveries.map task)).2 })

/-- All deliveries are made that can be, given the observers that block. -/
def settle (blocks : Observer → Bool) (d : Dispatch) : Dispatch :=
  { d with queue := d.queue.settle fun delivery => blocks delivery.observer }

/-- The deliveries that have been made, in the order in which they ended. -/
def delivered (d : Dispatch) : List Delivery := d.queue.ended.map Task.work

/-- The workers leave. Later deliveries are still made. -/
def shutDown (d : Dispatch) : Dispatch := { d with queue := d.queue.shutDown }

end Dispatch
end DocWatch
