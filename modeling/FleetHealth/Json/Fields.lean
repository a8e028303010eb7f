import FleetHealth.Json

/-!
# Written records

A record in a tree of values is written as a table of its fields, or as the list of their values in
order. A field can be left out of a table, or lie beyond the end of a list. In JSON the table is an
object and the list an array. Names that the record does not have are passed over; a field named twice,
or an array longer than the record, is refused.
-/
namespace FleetHealth

/-- What a written record says about one field. -/
inductive Field (τ : Type) where
  | given (value : τ)
  | omitted
  | beyondEnd

namespace Field

variable {τ α : Type}

/-- The value of a field that has to be there. -/
def required (decode : τ → Option α) : Field τ → Option α
  | given v => decode v
  | _ => none

/-- The value of a field that can be left out, or lie beyond the end. -/
def defaulting (fallback : α) (decode : τ → Option α) : Field τ → Option α
  | given v => decode v
  | _ => some fallback

/-- The fields written as a list, in the order of their names; items past the last field
are left. -/
def ofList : (names : List String) → List τ → List (Field τ) × List τ
  | [], rest => ([], rest)
  | _ :: names, [] => (.beyondEnd :: (ofList names []).1, [])
  | _ :: names, v :: rest => (.given v :: (ofList names rest).1, (ofList names rest).2)

end Field

/-! ### Records in JSON -/

namespace Json

def nullable? {α : Type} (decode : Json → Option α) : Json → Option (Option α)
  | .null => some none
  | j => (decode j).map some

/-- A value that can be left out of an object or be `null`, but has to be in an array. -/
def omissible {α : Type} (decode : Json → Option α) : Field Json → Option (Option α)
  | .given j => nullable? decode j
  | .omitted => some none
  | .beyondEnd => none

def fieldsOfObject (names : List String) (members : List (String × Json)) :
    Option (List (Field Json)) :=
  names.mapM fun name =>
    match members.filter (·.1 == name) with
    | [] => some .omitted
    | [(_, j)] => some (.given j)
    | _ => none

/-- The fields of a record, in the order of their names. -/
def fields? (names : List String) : Json → Option (List (Field Json))
  | object members => fieldsOfObject names members
  | array items =>
    let (fields, rest) := Field.ofList names items
    if rest.isEmpty then some fields else none
  | _ => none

def double? : Json → Option Float
  | real x => if x.isFinite then some x else none
  | natural n => some (Float.ofNat n)
  | negative n => some (-Float.ofNat n)
  | _ => none

def word? : Json → Option UInt64
  | natural n => if n < UInt64.size then some (UInt64.ofNat n) else none
  | _ => none

def text? : Json → Option String
  | string s => some s
  | _ => none

def flag? : Json → Option Bool
  | bool b => some b
  | _ => none

def list? {α : Type} (decode : Json → Option α) : Json → Option (List α)
  | array items => items.mapM decode
  | _ => none

/-- A name out of a fixed set, written as text, or as an object whose only member has that name and
the value `null`. -/
def label? {α : Type} (ofName? : String → Option α) : Json → Option α
  | string s => ofName? s
  | object [(name, null)] => ofName? name
  | _ => none

/-- The members of an object under decoded names, in order. -/
def entries? {κ α : Type} (ofName? : String → Option κ) (decode : Json → Option α) :
    Json → Option (List (κ × α))
  | object members => members.mapM fun (name, j) => do return (← ofName? name, ← decode j)
  | _ => none

end Json

end FleetHealth
