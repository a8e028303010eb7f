import FleetHealth.Settings.Tree

/-!
# TOML documents

The tables of a document while it is read. A table remembers how it came to be, which decides
whether a later header or dotted key can add to it; nothing can be said twice.
-/
namespace FleetHealth.Toml

open FleetHealth.Settings (Tree)

/-- How a table came to be: by its header, by the header of a table in it, or by a dotted key. -/
inductive Origin where
  | header
  | implied
  | dotted
  deriving DecidableEq, Repr

inductive Node where
  | value (tree : Tree)
  | table (origin : Origin) (entries : List (String × Node))
  | tables (items : List (List (String × Node)))

abbrev Entries := List (String × Node)

namespace Node

mutual

def toTree : Node → Tree
  | value tree => tree
  | table _ entries => .table (ofEntries entries)
  | tables items => .list (ofTables items)

def ofEntries : Entries → List (String × Tree)
  | [] => []
  | (name, node) :: rest => (name, toTree node) :: ofEntries rest

def ofTables : List Entries → List Tree
  | [] => []
  | entries :: rest => .table (ofEntries entries) :: ofTables rest

end

end Node

namespace Entries

def get? (entries : Entries) (name : String) : Option Node :=
  (entries.find? (·.1 == name)).map (·.2)

def put (entries : Entries) (name : String) (node : Node) : Entries :=
  if entries.any (·.1 == name) then entries.map fun e => if e.1 == name then (name, node) else e
  else entries ++ [(name, node)]

/-- Acts on the table at the end of a path. Tables on the way come to be where there are none; of
several tables of a name it is the last. A dotted key does not lead into a table with a header. -/
def within (origin : Origin) (act : Origin → Entries → Option Entries) :
    (path : List String) → (found : Origin) → Entries → Option Entries
  | [], found, entries => act found entries
  | name :: path, _, entries =>
    match entries.get? name with
    | none => do
      return entries.put name (.table origin (← within origin act path origin []))
    | some (.value _) => none
    | some (.table found inner) =>
      if origin = .dotted ∧ found = .header then none
      else do return entries.put name (.table found (← within origin act path found inner))
    | some (.tables items) => do
      let last ← items.getLast?
      return entries.put name (.tables (items.dropLast ++ [← within origin act path .header last]))

/-- Sets the value of a new name. -/
def add? (entries : Entries) (name : String) (tree : Tree) : Option Entries :=
  match entries.get? name with
  | none => some (entries.put name (.value tree))
  | some _ => none

/-- Sets the value of a dotted key. Names on the way lead only into tables that came to be by dotted
keys. -/
def assign? (entries : Entries) (key : List String) (tree : Tree) : Option Entries := do
  let name ← key.getLast?
  let path := key.dropLast
  within .dotted (fun found entries =>
    if path ≠ [] ∧ found ≠ .dotted then none else entries.add? name tree) path .header entries

/-- Opens the table of a header, which may only have come to be by the header of a table in it. -/
def openTable? (entries : Entries) (key : List String) : Option Entries := do
  let name ← key.getLast?
  within .implied (fun _ entries =>
    match entries.get? name with
    | none => some (entries.put name (.table .header []))
    | some (.table .implied inner) => some (entries.put name (.table .header inner))
    | some _ => none) key.dropLast .header entries

def openItem? (entries : Entries) (key : List String) : Option Entries := do
  let name ← key.getLast?
  within .implied (fun _ entries =>
    match entries.get? name with
    | none => some (entries.put name (.tables [[]]))
    | some (.tables items) => some (entries.put name (.tables (items ++ [[]])))
    | some _ => none) key.dropLast .header entries

/-- Sets the value of a dotted key in the table opened last. -/
def assignIn? (entries : Entries) (table key : List String) (tree : Tree) : Option Entries :=
  within .implied (fun _ entries => entries.assign? key tree) table .header entries

end Entries

end FleetHealth.Toml
