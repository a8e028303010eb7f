import FleetHealth.Json
import FleetHealth.Settings.Format
import FleetHealth.Decimal.Reading

/-!
# Settings trees

What a settings file or the environment says, before it is decoded: tables of named values. The
names of a table are told apart without regard to case. Decoding is lenient: numbers, flags and
their texts stand in for each other.
-/
namespace FleetHealth.Settings

inductive Tree where
  | empty
  | flag (value : Bool)
  | integer (value : Int)
  | real (value : Float)
  | text (value : String)
  | list (items : List Tree)
  | table (entries : List (String × Tree))

namespace Tree

instance : Inhabited Tree := ⟨empty⟩

def entries : Tree → List (String × Tree)
  | table entries => entries
  | _ => []

def get? (t : Tree) (name : String) : Option Tree :=
  (t.entries.find? (·.1 == name.toLower)).map (·.2)

/-- Entries with one of them replaced, or added. -/
def replace (name : String) (value : Tree) : List (String × Tree) → List (String × Tree)
  | [] => [(name, value)]
  | (n, v) :: rest => if n == name then (n, value) :: rest else (n, v) :: replace name value rest

/-- A table with one value replaced, or added. What is no table becomes one. -/
def put (t : Tree) (name : String) (value : Tree) : Tree :=
  table (replace name.toLower value t.entries)

mutual

/-- Sets one value of a table. A table is merged into what is there; any other value takes its
place. -/
def set (t : Tree) (name : String) : Tree → Tree
  | table entries => t.put name (merge ((t.get? name).getD (table [])) entries)
  | value => t.put name value

def merge (t : Tree) : List (String × Tree) → Tree
  | [] => t
  | (name, value) :: rest => merge (set t name value) rest

end

/-- Sets the value at the end of a path of tables, which come to be where there are none. -/
def setAt (t : Tree) (value : Tree) : List String → Tree
  | [] => t
  | [name] => t.set name value
  | name :: rest => t.put name (setAt ((t.get? name).getD empty) value rest)

mutual

/-- The tree of a JSON value. An integer beyond 64 signed bits is a real. -/
def ofJson : Json → Tree
  | .null => empty
  | .bool b => flag b
  | .natural n => if n < 0x8000000000000000 then integer n else real (Float.ofNat n)
  | .negative n => integer (-(n : Int))
  | .real x => real x
  | .string s => text s
  | .array items => list (ofItems items)
  | .object members => table (ofMembers members)

def ofItems : List Json → List Tree
  | [] => []
  | j :: rest => ofJson j :: ofItems rest

def ofMembers : List (String × Json) → List (String × Tree)
  | [] => []
  | (name, j) :: rest => (name, ofJson j) :: ofMembers rest

end

def flagWord? (s : String) : Option Bool :=
  if s.toLower ∈ ["true", "on", "yes"] then some true
  else if s.toLower ∈ ["false", "off", "no"] then some false
  else none

def real? : Tree → Option Float
  | real x => some x
  | integer n => some (Float.ofInt n)
  | flag b => some (if b then 1.0 else 0.0)
  | text s =>
    match flagWord? s with
    | some b => some (if b then 1.0 else 0.0)
    | none => Decimal.double? s
  | _ => none

/-- The word nearest to a real, a half going up; 0 for NaN. -/
def wordOfReal (x : Float) : UInt64 := (Binary64.roundHalfAway x).toUInt64

def word? : Tree → Option UInt64
  | real x => some (wordOfReal x)
  | integer n => if 0 ≤ n then some (UInt64.ofNat n.toNat) else none
  | flag b => some (if b then 1 else 0)
  | text s =>
    match flagWord? s with
    | some b => some (if b then 1 else 0)
    | none => (Decimal.unsigned? s).map UInt64.ofNat
  | _ => none

/-- A metric by its name, which may also stand alone in a table. -/
def metric? : Tree → Option Metric
  | text s => Metric.ofName? s.toLower
  | table [(name, _)] => Metric.ofName? name.toLower
  | _ => none

def metrics? : Tree → Option (List Metric)
  | list items => items.mapM metric?
  | _ => none

/-- The fields of a record: a table by their names, a list by their order. Whatever else is there is
passed over. -/
def fields? (names : List String) : Tree → Option (List (Field Tree))
  | t@(table _) => some (names.map fun name => (t.get? name).elim .omitted .given)
  | list items => some (Field.ofList names items).1
  | _ => none

end Tree

/-- Settings as read from trees. -/
def Tree.format : Format Tree where
  fields? := Tree.fields?
  real? := Tree.real?
  word? := Tree.word?
  metrics? := Tree.metrics?

end FleetHealth.Settings
