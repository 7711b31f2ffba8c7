/-!
# Settings

- `Settings`: how deliveries are run, and whether writes are attributed.
- `Settings.standard`: the settings when nothing is said.
-/

namespace DocWatch

/-- How deliveries are run, and whether writes are attributed. -/
structure Settings where
  /-- Workers that stay. Without any, deliveries are run by the writer. -/
  workers : Nat
  /-- How long an extra worker waits for more to do, in milliseconds. -/
  idleTimeout : Nat
  /-- Are writes attributed to clients? -/
  provenance : Bool
deriving DecidableEq, Repr

/-- The settings when nothing is said. -/
def Settings.standard : Settings := ⟨2, 5000, true⟩

end DocWatch
