import Nullness.Toml.Item

/-!
# Configuration documents

The items of a file fill a tree of tables.  A key may not be given twice, but a
table that only came about as the parent of another, or as the first part of a
dotted key, is not given yet: it may still be given its own header, which leaves
its content as it is, or an array, which takes its place.

Beside the tree, a document keeps the keys in the order of the file.
-/

namespace Nullness
namespace Toml

/-- What a key of a document holds. -/
inductive Node where
  | string (s : Text)
  | bool (b : Bool)
  /-- A number, a date or an array of values. -/
  | other
  | table (entries : List (Text × Node))
  /-- An array of tables, the newest first. -/
  | tables (elements : List (List (Text × Node)))

/-- The content of a table, in the order of the file. -/
abbrev Entries := List (Text × Node)

namespace Entries

/-- Gives a key of a table a new content. -/
def set (name : Text) (node : Node) : Entries → Entries
  | [] => [(name, node)]
  | (other, old) :: rest =>
    if other = name then (name, node) :: rest
    else (other, old) :: set name node rest

/-- The table at a path, if the path leads to one.  An array of tables stands
for its newest element. -/
def table? : Key → Entries → Option Entries
  | [], entries => some entries
  | name :: path, entries =>
    match entries.lookup name with
    | some (.table inner) => table? path inner
    | some (.tables (newest :: _)) => table? path newest
    | _ => none

/-- Gives a key of the table at a path a new content, if the path leads to a
table. -/
def setAt (name : Text) (node : Node) : Key → Entries → Option Entries
  | [], entries => some (set name node entries)
  | next :: path, entries =>
    match entries.lookup next with
    | some (.table inner) => do
      let inner ← setAt name node path inner
      return set next (.table inner) entries
    | some (.tables (newest :: older)) => do
      let newest ← setAt name node path newest
      return set next (.tables (newest :: older)) entries
    | _ => none

/-- Puts a value under a dotted key, creating the tables on the way. -/
def put (node : Node) : Key → Entries → Option Entries
  | [], _ => none
  | [name], entries => some (set name node entries)
  | name :: path, entries =>
    match entries.lookup name with
    | none => do
      let inner ← put node path []
      return set name (.table inner) entries
    | some (.table inner) => do
      let inner ← put node path inner
      return set name (.table inner) entries
    | some _ => none

end Entries

/-- A document in the making. -/
structure Draft where
  root : Entries := []
  /-- The tables that have no header of their own yet. -/
  implicit : List Key := []
  /-- The keys whose latest value is an array. -/
  arrays : List Key := []
  /-- The keys, the latest first. -/
  keys : List Key := []

namespace Draft

/-- Notes that a table has no header of its own. -/
def markImplicit (d : Draft) (key : Key) : Draft :=
  { d with implicit := key :: d.implicit }

/-- Notes that a table has a header of its own. -/
def clearImplicit (d : Draft) (key : Key) : Draft :=
  { d with implicit := d.implicit.filter (· ≠ key) }

/-- Notes whether the value of a key is an array.  An empty name stands for the
table itself. -/
def noteKind (d : Draft) (path : Key) (name : Text) (isArray : Bool) : Draft :=
  let key := if !name.isEmpty then path ++ [name]
    else if path.isEmpty then [[]] else path
  let others := d.arrays.filter (· ≠ key)
  { d with arrays := if isArray then key :: others else others }

/-- Notes a key. -/
def noteKey (d : Draft) (key : Key) : Draft := { d with keys := key :: d.keys }

/-- Gives a key of the table at a path its content.  A key that has a content
can only be given another while it is a table without a header of its own, and
such a table keeps its content unless the key is noted as an array. -/
def assign (d : Draft) (path : Key) (name : Text) (node : Node) :
    Option Draft := do
  let key := path ++ [name]
  let entries ← Entries.table? path d.root
  let root ← Entries.setAt name node path d.root
  if (entries.lookup name).isNone then return { d with root := root }
  else if !d.implicit.contains key then none
  else if d.arrays.contains key then
    return { d.clearImplicit key with root := root }
  else return d.clearImplicit key

/-- Makes sure that there is a table at each step of a path that starts at
`base`. -/
def openParents (base : Key) : Key → Draft → Option Draft
  | [], d => some d
  | name :: path, d => do
    let key := base ++ [name]
    let entries ← Entries.table? base d.root
    match entries.lookup name with
    | none =>
      let root ← Entries.setAt name (.table []) base d.root
      openParents key path { d.markImplicit key with root := root }
    | some (.table _) | some (.tables _) => openParents key path d
    | some _ => none

/-- Opens the table at a key. -/
def openTable (d : Draft) (key : Key) : Option Draft := do
  let name ← key.getLast?
  let d ← d.openParents [] key.dropLast
  d.assign key.dropLast name (.table [])

/-- Adds an empty table to the array of tables at a key. -/
def openElement (d : Draft) (key : Key) : Option Draft := do
  let name ← key.getLast?
  let path := key.dropLast
  let d ← d.openParents [] path
  let entries ← Entries.table? path d.root
  let elements ← match entries.lookup name with
    | none => some []
    | some (.tables elements) => some elements
    | some _ => none
  let root ← Entries.setAt name (.tables ([] :: elements)) path d.root
  return { d with root := root }

/-- Opens the tables that the first parts of a dotted key name, below the table
at a path. -/
def openPrefixes (path : Key) : Key → Draft → Option Draft
  | [], d => some d
  | name :: names, d => do
    let key := path ++ [name]
    let d ← (d.markImplicit key).openTable key
    openPrefixes key names d

/-- Whether a value is an array. -/
def isArray : Value → Bool
  | .array _ => true
  | _ => false

mutual

/-- Enters what the value of a key holds, and gives the content for the key. -/
def addValue (path : Key) (name : Text) (inArray : Bool) :
    Value → Draft → Option (Draft × Node)
  | .string s, d => some (d, .string s)
  | .bool b, d => some (d, .bool b)
  | .other, d => some (d, .other)
  | .array elements, d => do
    let d ← addElements path name elements (d.noteKind path name true)
    return (d, .other)
  | .table pairs, d => do
    let key := path ++ [name]
    let d := d.markImplicit key
    let d ← if inArray then d.openElement key else d.openTable key
    let (d, entries) ← addPairs key pairs [] d
    return (d, .table entries)

/-- Enters what the elements of an array hold. -/
def addElements (path : Key) (name : Text) :
    List Value → Draft → Option Draft
  | [], d => some d
  | v :: vs, d => do
    let (d, _) ← addValue path name true v d
    addElements path name vs d

/-- Enters the pairs of a table between braces at a path, and collects them. -/
def addPairs (path : Key) :
    List (Key × Value) → Entries → Draft → Option (Draft × Entries)
  | [], entries, d => some (d, entries)
  | (key, v) :: pairs, entries, d => do
    let name ← key.getLast?
    let inner := path ++ key.dropLast
    let d ← openPrefixes path key.dropLast d
    let (d, node) ← addValue inner name false v (d.noteKey (inner ++ [name]))
    let d ← d.assign inner name node
    let entries ← Entries.put node key entries
    addPairs path pairs entries (d.noteKind inner name (isArray v))

end

/-- Enters a pair below the table at a path. -/
def addPair (path : Key) (key : Key) (v : Value) (d : Draft) :
    Option Draft := do
  let (d, _) ← addPairs path [(key, v)] [] d
  return d

end Draft

/-- Enters an item below the latest header, and gives the latest header after
it. -/
def addItem (state : Key × Draft) (item : Item) : Option (Key × Draft) :=
  let (path, d) := state
  match item with
  | .table key => do
    let d ← d.openTable key
    return (key, (d.noteKind key [] false).noteKey key)
  | .element key => do
    let d ← d.openElement key
    return (key, (d.noteKind key [] false).noteKey key)
  | .pair key v => do
    let d ← d.addPair path key v
    return (path, d)

/-- A document: its top-level table, and its keys in the order of the file. -/
structure Document where
  entries : Entries
  keys : List Key

/-- The document that a file holds, if the file is well formed. -/
def Document.read? (file : Text) : Option Document := do
  let items ← items? file
  let (_, d) ← items.foldlM addItem ([], {})
  return ⟨d.root, d.keys.reverse⟩

end Toml
end Nullness
