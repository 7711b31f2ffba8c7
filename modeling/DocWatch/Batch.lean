import DocWatch.Mutation.Wire

/-!
# Batches

- `WriteOp`: one write of a batch.
- `WriteOp.ofJson`: a write from a triple of collection, method and arguments.
- `Batch.ofJson`: a batch; one bad triple spoils it.
-/

namespace DocWatch

/-- One write. Filters and updates are not yet checked. -/
inductive WriteOp where
  | insertOne (collection : String) (document : Json)
  | updateOne (collection : String) (filter update : Json) (upsert : Bool)
  | deleteOne (collection : String) (filter : Json)
  | push (payload : Payload)
deriving DecidableEq

namespace WriteOp

/-- The arguments of a method: several in an array, none for null, or a single one. -/
def arguments : Json → List Json
  | .arr args => args
  | .null => []
  | v => [v]

/-- Is an upsert asked for? Only a boolean says so. -/
def upsertOption (options : Option Json) : Bool :=
  match options.bind (·.field? "upsert") with
  | some (.bool b) => b
  | _ => false

/-- The write that a method and its arguments describe. -/
def ofCall (collection method : String) (args : List Json) : Except Error WriteOp :=
  let arg (i : Nat) := args[i]?.getD .null
  match method with
  | "insertOne" => .ok (.insertOne collection (arg 0))
  | "updateOne" => .ok (.updateOne collection (arg 0) (arg 1) (upsertOption args[2]?))
  | "deleteOne" => .ok (.deleteOne collection (arg 0))
  | "push" => .push <$> Payload.ofJson (arg 0)
  | _ => .error (.unknownBatchMethod method)

/-- The write that a triple describes. -/
def ofJson : Json → Except Error WriteOp
  | .arr [collection, method, args] =>
    match collection, method with
    | .str collection, .str method => ofCall collection method (arguments args)
    | .str _, _ => .error (.invalidPayload .batchMethodNotString)
    | _, _ => .error (.invalidPayload .batchCollectionNotString)
  | _ => .error (.invalidPayload .badBatchEntry)

end WriteOp

/-- The writes that triples describe. -/
def Batch.ofItems : List Json → Except Error (List WriteOp)
  | [] => .ok []
  | v :: rest => do
    let op ← WriteOp.ofJson v
    let ops ← ofItems rest
    return op :: ops

/-- The writes of a batch. -/
def Batch.ofJson : Json → Except Error (List WriteOp)
  | .arr items => ofItems items
  | _ => .error (.invalidPayload .batchNotArray)

end DocWatch
