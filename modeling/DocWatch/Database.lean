import DocWatch.Action
import DocWatch.Batch
import DocWatch.Dispatch
import DocWatch.Mutation.Apply
import DocWatch.Store
import DocWatch.Update.Attribution
import DocWatch.Update.Parse

/-!
# The watched database

Writes go to the store and are then dispatched with the document before and after them; reads
register their query. Fresh identities and the time come from a supply, so that a run is determined
by its calls.

- `Database.insert`, `Database.update`, `Database.delete`, `Database.push`: single writes.
- `Database.execute`, `Database.call`: the writes of a batch, up to the first that fails.
- `Database.read`: one read.
-/

namespace DocWatch

/-- Fresh identities and readings of the clock, and how many of them have been drawn. -/
structure Supply where
  identity : Nat → String
  clock : Nat → Timestamp
  drawn : Nat

/-- A store and the dispatch of its changes, which has to be connected before it is used. -/
structure Database where
  store : Store
  dispatch : Option Dispatch
  supply : Supply

/-- On whose behalf a call is made. -/
structure SessionOptions where
  tag : Option String
  client : Option String
  user : Option String
  /-- Shall reads answer the provenance of fields too? -/
  withProvenance : Bool
deriving DecidableEq, Repr

/-- Nobody in particular. -/
def SessionOptions.anonymous : SessionOptions := ⟨none, none, none, false⟩

/-- The two ways to read. -/
inductive ReadMethod where
  | find
  | findOne
deriving DecidableEq, Repr

namespace ReadMethod

/-- The name in signatures. -/
def name : ReadMethod → String
  | .find => "find"
  | .findOne => "findOne"

/-- Is one document asked for? -/
def isSingle : ReadMethod → Bool
  | .find => false
  | .findOne => true

end ReadMethod

/-- The answer of a read. -/
structure ReadResponse where
  query : QueryId
  result : Json
  /-- Provenance of the fields of the documents, if asked for. -/
  provenance : Option (Members Json)

/-- The wire form: query and result, the result with its provenance if asked for. -/
def ReadResponse.toJson (r : ReadResponse) : Json :=
  match r.provenance with
  | none => .arr [.nat r.query, r.result]
  | some entries => .arr [.nat r.query, .arr [r.result, .obj entries]]

namespace Database

/-- An empty store without dispatch. -/
def create (supply : Supply) : Database := ⟨[], none, supply⟩

/-- Connects the dispatch, once. -/
def connect (settings : Settings) : Action Database Unit := Action.attempt fun db =>
  match db.dispatch with
  | some _ => (.error (.config .alreadyInitialised), db)
  | none => (.ok (), { db with dispatch := some (.create settings) })

/-- The dispatch, if it is connected. -/
def connected : Action Database Dispatch := Action.attempt fun db =>
  match db.dispatch with
  | some d => (.ok d, db)
  | none => (.error (.config .usedBeforeInit), db)

/-- A fresh identity. -/
def freshIdentity : Action Database String := Action.attempt fun db =>
  (.ok (db.supply.identity db.supply.drawn),
    { db with supply := { db.supply with drawn := db.supply.drawn + 1 } })

/-- The present time. -/
def now : Action Database Timestamp := Action.view fun db => db.supply.clock db.supply.drawn

/-- A call of the store. -/
def onStore {α : Type} (f : Store → Except Error α × Store) : Action Database α :=
  Action.attempt fun db =>
    let (r, store) := f db.store
    (r, { db with store })

/-- The first document that a filter selects. -/
def findOne (collection : String) (f : Filter) : Action Database (Option Json) :=
  Action.view fun db => db.store.findOne collection f

/-- The record of a write by a client, if writes are attributed. -/
def attribution (client : Option String) : Action Database (Option Provenance) := do
  if (← connected).settings.provenance then return some ⟨client, ← now⟩ else return none

/-- Dispatches a change. -/
def notify (collection : String) (before after : Option Json) : Action Database Unit :=
  Action.attempt fun db =>
    (.ok (), { db with dispatch := db.dispatch.map fun d => (d.notify collection before after).2 })

/-- Adds a document and answers its identity. -/
def insert (collection : String) (client : Option String) (doc : Json) : Action Database Json := do
  let doc := match ← attribution client with
    | some p => Document.attribute doc p
    | none => doc
  let id ← onStore (Store.insert collection (← freshIdentity) doc)
  notify collection none (← findOne collection (.byId id))
  return id

/-- Updates the first document that a filter selects, or makes one if that is asked for, and
answers the identity of the document that was touched. -/
def update (collection : String) (client : Option String) (f : Filter) (u : Update)
    (upsert : Bool) : Action Database (Option Json) := do
  let attributed ← attribution client
  let before ← findOne collection f
  let u := match attributed with
    | some p => u.attribute p
    | none => u
  let outcome ← onStore (Store.update collection (← freshIdentity) f u upsert)
  let after ← match outcome.touched with
    | some id => findOne collection (.byId id)
    | none => pure none
  notify collection before after
  return outcome.touched

/-- Takes out the first document that a filter selects and answers it. -/
def delete (collection : String) (f : Filter) : Action Database (Option Json) := do
  let _ ← connected
  let removed ← onStore fun store =>
    let (removed, store) := store.delete collection f
    (.ok removed, store)
  if removed.isSome then notify collection removed none
  return removed

/-- Access to a collection for applying mutations. -/
def writer (collection : String) (client : Option String) : Writer Database where
  find id := findOne collection (.byId id)
  update f u upsert := do let _ ← update collection client f u upsert
  insert doc := insert collection client doc
  freshIdentity := freshIdentity
  now := now

/-- Applies a payload. -/
def push (options : SessionOptions) (p : Payload) : Action Database Unit :=
  p.apply (writer p.collection options.client) options.user

/-- The filter that a document spells. -/
def compileFilter (source : Json) : Action Database Filter :=
  Action.lift <| match Filter.compile source with
    | .ok f => .ok f
    | .error e => .error (.compilation e)

/-- The update that a document spells. -/
def parseUpdate (source : Json) : Action Database Update :=
  Action.lift <| match Update.parse source with
    | .ok u => .ok u
    | .error e => .error (.invalidUpdate e)

/-- One write of a batch. The filter is looked at before the update. -/
def execute (options : SessionOptions) : WriteOp → Action Database Json
  | .insertOne collection doc => insert collection options.client doc
  | .updateOne collection filter source upsert => do
    let f ← compileFilter filter
    let u ← parseUpdate source
    return (← update collection options.client f u upsert).getD .null
  | .deleteOne collection filter => do
    let f ← compileFilter filter
    return .bool (← delete collection f).isSome
  | .push payload => do
    push options payload
    return .bool true

/-- The writes of a batch in order, up to the first that fails. -/
def call (options : SessionOptions) : List WriteOp → Action Database (List Json)
  | [] => pure []
  | op :: rest => do
    let answer ← execute options op
    let answers ← call options rest
    return answer :: answers

/-- The query of a read, registered if it is new. -/
def registerQuery (collection : String) (method : ReadMethod) (filter : Json) :
    Action Database Query := do
  let d ← connected
  let (r, d) := d.register collection method.name filter
  Action.attempt fun db => (r, { db with dispatch := some d })

/-- Reads the documents that a filter selects and that are not marked as deleted. -/
def read (options : SessionOptions) (collection : String) (method : ReadMethod) (filter : Json) :
    Action Database ReadResponse := do
  let query ← registerQuery collection method filter
  let docs ← Action.view fun db => db.store.find collection query.filter.live
  let docs := if method.isSingle then docs.take 1 else docs
  let result := if method.isSingle then docs.head?.getD .null else .arr docs
  let provenance := if options.withProvenance then some (Document.fieldProvenance docs) else none
  return ⟨query.id, result, provenance⟩

end Database
end DocWatch
