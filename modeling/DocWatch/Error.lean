import DocWatch.Mutation.Path
import DocWatch.Update.Basic

/-!
# Errors

- `PayloadFault`: what is wrong with a document, a batch, a payload or one of its records.
- `StorageFault`, `ConfigFault`: what the store and the configuration refuse.
- `Error`: all errors of reads and writes. `Error.message` is the wording, `Error.root` the error
  below the context of a failed payload.
-/

namespace DocWatch

/-- What is wrong with something that was to be written. -/
inductive PayloadFault where
  | undecodable (error : Wire.DecodeError)
  | pathRequired (kind : String)
  | indexNotCount (kind : String) (got : Segment)
  | elementRequired
  | documentRequired
  | payloadNotObject
  | collectionRequired
  | mutationsRequired
  | batchNotArray
  | badBatchEntry
  | batchCollectionNotString
  | batchMethodNotString
  | documentNotObject (found : String)
  /-- An update would give a document another identity. -/
  | identityChanged (key : String) (collection : String)
  | wholeDocument (path : MutationPath)
  | positionRequired (path : MutationPath)
  | positionOutOfRange (position : Nat) (array : FieldPath) (length : Nat)
  | notInArray (path : MutationPath)
deriving DecidableEq

/-- The wording of a payload fault. -/
def PayloadFault.message : PayloadFault → String
  | .undecodable e => e.message
  | .pathRequired kind => s!"{kind} mutation requires a path"
  | .indexNotCount kind got =>
    s!"{kind} mutation index must be a non-negative integer, got " ++ got.text
  | .elementRequired => "insert mutation requires el"
  | .documentRequired => "create mutation requires a document object"
  | .payloadNotObject => "push payload must be an object"
  | .collectionRequired => "push payload requires a collection"
  | .mutationsRequired => "push payload requires mutation or mutations"
  | .batchNotArray => "batch must be an array"
  | .badBatchEntry => "batch entries are [collection, method, args]"
  | .batchCollectionNotString => "batch collection must be a string"
  | .batchMethodNotString => "batch method must be a string"
  | .documentNotObject found => s!"document must be an object, found {found}"
  | .identityChanged key collection =>
    s!"update would change _id of document {key} in collection {collection}"
  | .wholeDocument path => "mutation path " ++ path.text ++ " addresses the whole document"
  | .positionRequired path =>
    "remove at " ++ path.text ++ " needs a key, an index or a trailing index segment"
  | .positionOutOfRange position array length =>
    s!"remove index {position} is out of range for " ++ array.text ++ s!" of length {length}"
  | .notInArray path => "remove at " ++ path.text ++ " does not address an array"

/-- What a store refuses. -/
inductive StorageFault where
  /-- A new document has the identity of a stored one. -/
  | duplicateKey (key : String) (collection : String)
  /-- The document that an upsert would make has the identity of a stored one. -/
  | upsertCollision (key : String) (collection : String)
deriving DecidableEq

/-- The wording of a storage fault. -/
def StorageFault.message : StorageFault → String
  | .duplicateKey key collection => s!"duplicate key {key} in collection {collection}"
  | .upsertCollision key collection =>
    s!"upsert collides with existing key {key} in collection {collection}"

/-- What is wrong with the configuration. -/
inductive ConfigFault where
  | usedBeforeInit
  | alreadyInitialised
  | unreadable
  | unparsable
  | unwritable
  | defaultUnwritable
  | unserializable
deriving DecidableEq, Repr

/-- The wording of a configuration fault. -/
def ConfigFault.message : ConfigFault → String
  | .usedBeforeInit => "driver used before init"
  | .alreadyInitialised => "driver already initialised"
  | .unreadable => "Failed to read config file"
  | .unparsable => "Failed to parse config file"
  | .unwritable => "Failed to write config file"
  | .defaultUnwritable => "Failed to write default config file"
  | .unserializable => "Failed to serialize config"

/-- An error of a read or a write. -/
inductive Error where
  | compilation (error : CompileError)
  /-- A reference names no element. The path is the one that was asked for. -/
  | pathResolution (path : MutationPath)
  | unknownMutationType (type : String)
  | unknownBatchMethod (method : String)
  | invalidPayload (fault : PayloadFault)
  | invalidUpdate (error : UpdateError)
  | storage (fault : StorageFault)
  /-- A record of a payload failed. The records before it stay applied. -/
  | mutationFailed (index : Nat) (mutation : Json) (source : Error)
  | config (fault : ConfigFault)
deriving DecidableEq

namespace Error

/-- The message of an error. -/
def message : Error → String
  | .compilation e => "Compilation error: " ++ e.message
  | .pathResolution path => "Can't resolve path " ++ path.text
  | .unknownMutationType type => s!"Unknown mutation type: {type}"
  | .unknownBatchMethod method => s!"Unknown method {method}"
  | .invalidPayload fault => "Invalid payload: " ++ fault.message
  | .invalidUpdate e => "Invalid update: " ++ e.message
  | .storage fault => "Storage error: " ++ fault.message
  | .mutationFailed index mutation source =>
    s!"Mutation {index} failed (" ++ mutation.text ++ "): " ++ source.message
  | .config fault => "Config error: " ++ fault.message

/-- The error below the context of a failed payload. -/
def root : Error → Error
  | .mutationFailed _ _ source => source.root
  | e => e

end Error
end DocWatch
