import DocWatch.Database

/-!
# Sessions

A session is a handle on a database with the options of its owner. A session that records reads
remembers the queries that were read through it, each once, in the order of the first reads.

- `Session.tagged`, `Session.recording`: handles derived from a handle.
- `Session.read`: a read, and the session after it.
- `Session.observe`, `Session.push`, `Session.batch`: calls on behalf of the session.
-/

namespace DocWatch

/-- A handle on a database. -/
structure Session where
  options : SessionOptions
  /-- The queries read so far, if reads are recorded. -/
  reads : Option (List QueryId)
deriving DecidableEq, Repr

namespace Session

/-- The handle of nobody in particular. -/
def root : Session := ⟨.anonymous, none⟩

/-- A handle with other options. It records no reads. -/
def tagged (options : SessionOptions) : Session := ⟨options, none⟩

/-- A handle that records its own reads. Options that are not given are taken over. -/
def recording (s : Session) (options : SessionOptions) : Session :=
  ⟨⟨options.tag.or s.options.tag, options.client.or s.options.client,
    options.user.or s.options.user, options.withProvenance || s.options.withProvenance⟩, some []⟩

/-- Remembers a read. -/
def visit (s : Session) (query : QueryId) : Session :=
  { s with reads := s.reads.map fun ids => if query ∈ ids then ids else ids ++ [query] }

/-- A read, and the session after it. -/
def read (s : Session) (collection : String) (method : ReadMethod) (filter : Json) :
    Action Database (ReadResponse × Session) := do
  let response ← Database.read s.options collection method filter
  return (response, s.visit response.query)

/-- Subscribes an observer to a query. Without a tag the session's is used. -/
def observe (s : Session) (query : QueryId) (observer : Observer) (tag : Option String) :
    Action Database Bool := do
  let d ← Database.connected
  let (new, d) := d.observe query observer (tag.or s.options.tag)
  Action.attempt fun db => (.ok new, { db with dispatch := some d })

/-- Ends a subscription. -/
def stop (query : QueryId) (observer : Observer) : Action Database Bool := do
  let d ← Database.connected
  let (ended, d) := d.stop query observer
  Action.attempt fun db => (.ok ended, { db with dispatch := some d })

/-- Applies the payload that a value describes. -/
def push (s : Session) (payload : Json) : Action Database Unit := do
  let p ← Action.lift (Payload.ofJson payload)
  let _ ← Database.call s.options [.push p]

/-- Executes the batch that a value describes. Nothing is executed if one entry is bad. -/
def batch (s : Session) (operations : Json) : Action Database (List Json) := do
  let ops ← Action.lift (Batch.ofJson operations)
  Database.call s.options ops

/-- Executes one write. -/
def single (s : Session) (op : WriteOp) : Action Database Json := do
  return (← Database.call s.options [op]).head?.getD .null

end Session
end DocWatch
