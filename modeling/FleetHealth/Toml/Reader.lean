import FleetHealth.Toml.Document
import FleetHealth.Toml.Scalar

/-!
# Reading TOML

A reader of TOML 1.0 texts. Every step takes fuel; no character needs more than three steps, so
`read?` starts with enough.
-/
namespace FleetHealth.Toml.Reader

open FleetHealth.Settings (Tree)

mutual

def value? : (fuel : Nat) → List Char → Option (Tree × List Char)
  | 0, _ => none
  | fuel + 1, cs =>
    match cs with
    | '"' :: _ => (string? cs).map fun (s, rest) => (.text s, rest)
    | '\'' :: _ => (string? cs).map fun (s, rest) => (.text s, rest)
    | '[' :: rest =>
      (items? fuel [] (skipFill false rest)).map fun (items, rest) => (.list items, rest)
    | '\x7b' :: rest =>
      match skipBlanks rest with
      | '\x7d' :: rest => some (.table [], rest)
      | rest =>
        (pairs? fuel [] rest).map fun (entries, rest) => (.table (Node.ofEntries entries), rest)
    | cs => scalarValue? cs

/-- The rest of an array, where a value or the end comes next; `done` holds its items in reverse. A
comma may follow the last item. -/
def items? : (fuel : Nat) → (done : List Tree) → List Char → Option (List Tree × List Char)
  | 0, _, _ => none
  | fuel + 1, done, cs =>
    match cs with
    | ']' :: rest => some (done.reverse, rest)
    | cs => do
      let (item, rest) ← value? fuel cs
      match skipFill false rest with
      | ',' :: rest => items? fuel (item :: done) (skipFill false rest)
      | ']' :: rest => some ((item :: done).reverse, rest)
      | _ => none

/-- The rest of a table on one line that is not empty. -/
def pairs? : (fuel : Nat) → (done : Entries) → List Char → Option (Entries × List Char)
  | 0, _, _ => none
  | fuel + 1, done, cs => do
    let (key, tree, rest) ← pair? fuel cs
    let done ← done.assign? key tree
    match skipBlanks rest with
    | ',' :: rest => pairs? fuel done rest
    | '\x7d' :: rest => some (done, rest)
    | _ => none

def pair? : (fuel : Nat) → List Char → Option (List String × Tree × List Char)
  | 0, _ => none
  | fuel + 1, cs => do
    let (key, rest) ← key? (cs.length + 1) cs
    match rest with
    | '=' :: rest => do
      let (tree, rest) ← value? fuel (skipBlanks rest)
      return (key, tree, rest)
    | _ => none

end

/-- A document as far as it is read: its tables, and the one opened last. -/
structure State where
  root : Entries
  table : List String

/-- What the statement on a line does, and what follows the line. -/
def statement? (fuel : Nat) (s : State) (cs : List Char) : Option (State × List Char) :=
  match cs with
  | '[' :: '[' :: rest => do
    let (key, rest) ← key? fuel rest
    match rest with
    | ']' :: ']' :: rest => do
      return (⟨← s.root.openItem? key, key⟩, ← afterLine? rest)
    | _ => none
  | '[' :: rest => do
    let (key, rest) ← key? fuel rest
    match rest with
    | ']' :: rest => do
      return (⟨← s.root.openTable? key, key⟩, ← afterLine? rest)
    | _ => none
  | cs => do
    let (key, tree, rest) ← pair? fuel cs
    return ({ s with root := ← s.root.assignIn? s.table key tree }, ← afterLine? rest)

/-- The tables of a document after the statements that are left. -/
def statements? : (fuel : Nat) → State → List Char → Option Entries
  | 0, _, _ => none
  | fuel + 1, s, cs =>
    match skipFill false cs with
    | [] => some s.root
    | cs => do
      let (s, rest) ← statement? (3 * cs.length + 3) s cs
      statements? fuel s rest

/-- The values of a document by their names. -/
def read? (text : String) : Option (List (String × Tree)) :=
  (statements? (text.length + 1) ⟨[], []⟩ text.toList).map Node.ofEntries

end FleetHealth.Toml.Reader
