import DocWatch.Error
import DocWatch.Settings
import DocWatch.Toml.Reader

/-!
# The settings file

- `Settings.ofText`: settings from the text of a file. What is not said is standard, what is said
  beyond that is ignored.
- `Settings.text?`: the text of settings.
- `Place`: a place for a file, and what is there. `Settings.read`, `Settings.write` and
  `Settings.writeStandard` work on it.
-/

namespace DocWatch

-- Powers are those of the core library whatever else is imported, so exponents have their type.
attribute [local instance (high)] instPowNat

namespace Settings

/-- The name of the file. -/
def fileName : String := "livedoc.toml"

/-- The file that states and explains the standard settings. -/
def standardText : String :=
  "# livedoc engine configuration\n" ++
  "#\n" ++
  "# Worker threads delivering invalidations to observers (default: 2).\n" ++
  "# 0 delivers on the writing thread; observers are still isolated.\n" ++
  "dispatch_workers = 2\n" ++
  "\n" ++
  "# When every worker is busy, for example inside an observer that blocks,\n" ++
  "# an extra worker is started for the next delivery. Extra workers exit\n" ++
  "# after this many idle milliseconds (default: 5000).\n" ++
  "dispatch_idle_timeout_ms = 5000\n" ++
  "\n" ++
  "# Record which client last touched each top-level field in `_meta`.\n" ++
  "provenance = true\n"

/-- Standard settings on the thread of the writer. -/
def withoutWorkers : Settings := { standard with workers := 0 }

/-- A number under a key, the standard one if there is none. -/
def count? (table : Toml.Table) (key : String) (standard : Nat) : Option Nat :=
  match Members.get? table key with
  | none => some standard
  | some (.integer n) => n.toNat?
  | some _ => none

/-- A truth value under a key, the standard one if there is none. -/
def switch? (table : Toml.Table) (key : String) (standard : Bool) : Option Bool :=
  match Members.get? table key with
  | none => some standard
  | some (.boolean b) => some b
  | some _ => none

/-- The settings that a text states. -/
def ofText? (text : String) : Option Settings := do
  let table ← Toml.parse? text
  let workers ← count? table "dispatch_workers" standard.workers
  let idleTimeout ← count? table "dispatch_idle_timeout_ms" standard.idleTimeout
  let provenance ← switch? table "provenance" standard.provenance
  return ⟨workers, idleTimeout, provenance⟩

/-- The largest number that can be written. -/
def countLimit : Nat := 2 ^ (63 : Nat) - 1

/-- The text that states settings, if their numbers can be written. -/
def text? (s : Settings) : Option String :=
  if s.workers ≤ countLimit ∧ s.idleTimeout ≤ countLimit then
    some <| String.ofList <|
      "dispatch_workers = ".toList ++ Decimal.natChars s.workers ++
      "\ndispatch_idle_timeout_ms = ".toList ++ Decimal.natChars s.idleTimeout ++
      "\nprovenance = ".toList ++ (if s.provenance then "true" else "false").toList ++ ['\n']
  else none

end Settings

/-- A place for a file. -/
inductive Place where
  /-- There is not even a folder. -/
  | nowhere
  | vacant
  | file (text : String)
deriving DecidableEq, Repr

namespace Place

/-- Puts a text into the file. It fails only if there is no folder. -/
def put (text : String) : Place → Option Place
  | .nowhere => none
  | .vacant | .file _ => some (.file text)

end Place

namespace Settings

/-- The settings in a file. -/
def read : Place → Except Error Settings
  | .nowhere | .vacant => .error (.config .unreadable)
  | .file text =>
    match ofText? text with
    | some s => .ok s
    | none => .error (.config .unparsable)

/-- Writes settings over what is at a place. -/
def write (s : Settings) (place : Place) : Except Error Place :=
  match s.text? with
  | none => .error (.config .unserializable)
  | some text =>
    match place.put text with
    | none => .error (.config .unwritable)
    | some place => .ok place

/-- Writes the standard file unless there is a file. -/
def writeStandard (place : Place) : Except Error Place :=
  match place with
  | .file text => .ok (.file text)
  | place =>
    match place.put standardText with
    | none => .error (.config .defaultUnwritable)
    | some place => .ok place

end Settings
end DocWatch
