import DocWatch.Members

/-!
# TOML tables

A document is a sequence of statements: headers open tables, pairs write values into the open one.
Nothing is written twice. A table may come up on the way to others before its own header does, but
tables of dotted keys and tables of headers stay apart.

- `Toml.Item`: what stands under a key. Only what settings can hold keeps its content.
- `Toml.put`: a pair with a dotted key.
- `Toml.openTable`, `Toml.openElement`: headers.
- `Toml.run`: the table of a whole document.
-/

namespace DocWatch.Toml

/-- How a table came up. -/
inductive Origin where
  /-- By its own header. -/
  | header
  /-- On the way to the table of a header. -/
  | passage
  /-- By a dotted key. -/
  | dotted
deriving DecidableEq, Repr

/-- What stands under a key. -/
inductive Item where
  | integer (n : Int)
  | boolean (b : Bool)
  | string (s : String)
  /-- A fraction, a date or time, an array or an inline table. -/
  | other
  | table (origin : Origin) (fields : List (String × Item))
  /-- The elements of an array whose elements have headers, the last first. -/
  | elements (all : List (List (String × Item)))

/-- Items under their keys. -/
abbrev Table := Members Item

/-- Changes the table at the end of a path. Tables on the way are made if they are missing; by a
dotted key none is entered that has a header. -/
def within (isDotted : Bool) (change : Origin → Table → Option Table) :
    List String → Origin → Table → Option Table
  | [], origin, fields => change origin fields
  | key :: path, _, fields =>
    match Members.get? fields key with
    | none => do
      let origin := if isDotted then Origin.dotted else Origin.passage
      return Members.insert fields key (.table origin (← within isDotted change path origin []))
    | some (.table origin inner) =>
      if isDotted && origin == .header then none
      else do
        let inner ← within isDotted change path origin inner
        return Members.insert fields key (.table origin inner)
    | some (.elements (inner :: earlier)) => do
      let inner ← within isDotted change path .header inner
      return Members.insert fields key (.elements (inner :: earlier))
    | some _ => none

/-- Writes a new key. -/
def add (key : String) (item : Item) (fields : Table) : Option Table :=
  if Members.contains fields key then none else some (Members.insert fields key item)

/-- Writes a value under a dotted key: a path and the last key. -/
def put (path : List String) (key : String) (item : Item) (fields : Table) : Option Table :=
  within true (fun origin inner =>
    if path.isEmpty || origin == .dotted then add key item inner else none) path .header fields

/-- The header of a table. -/
def openTable (path : List String) (key : String) (fields : Table) : Option Table :=
  within false (fun _ inner =>
    match Members.get? inner key with
    | none => some (Members.insert inner key (.table .header []))
    | some (.table .passage known) => some (Members.insert inner key (.table .header known))
    | some _ => none) path .header fields

/-- The header of one more element of an array. -/
def openElement (path : List String) (key : String) (fields : Table) : Option Table :=
  within false (fun _ inner =>
    match Members.get? inner key with
    | none => some (Members.insert inner key (.elements [[]]))
    | some (.elements all) => some (Members.insert inner key (.elements ([] :: all)))
    | some _ => none) path .header fields

/-- A statement. A dotted key is a path and the last key. -/
inductive Statement where
  | pair (path : List String) (key : String) (item : Item)
  | table (path : List String) (key : String)
  | element (path : List String) (key : String)

/-- Executes statements, given the path of the open table. -/
def runFrom (opened : List String) (fields : Table) : List Statement → Option Table
  | [] => some fields
  | .pair path key item :: rest => do
    let fields ← within false (fun _ inner => put path key item inner) opened .header fields
    runFrom opened fields rest
  | .table path key :: rest => do runFrom (path ++ [key]) (← openTable path key fields) rest
  | .element path key :: rest => do runFrom (path ++ [key]) (← openElement path key fields) rest

/-- The table of a document. -/
def run (statements : List Statement) : Option Table := runFrom [] [] statements

/-- The values of an inline table, each under a dotted key. Answers whether they go together. -/
def fitInline (pairs : List (List String × String)) : Bool :=
  (pairs.foldlM (fun fields (path, key) => put path key .other fields) ([] : Table)).isSome

end DocWatch.Toml
