import FleetHealth.Binary64

/-!
# JSON values

Numbers keep the form in which they are written: a natural number of 64 bits, a negative integer of
64 bits, or a real. A real too large for a double is infinite and has no place in a value that is
decoded further. The members of an object are in the order of the text, repeated names included.
-/
namespace FleetHealth

inductive Json where
  | null
  | bool (value : Bool)
  | natural (value : Nat)
  | negative (magnitude : Nat)
  | real (value : Float)
  | string (value : String)
  | array (items : List Json)
  | object (members : List (String × Json))

namespace Json

instance : Inhabited Json := ⟨null⟩

/-- The member of a name in an object; of several the last. -/
def member? (name : String) : Json → Option Json
  | object members => (members.reverse.find? (·.1 == name)).map (·.2)
  | _ => none

mutual

/-- Whether arrays and objects are nested at most this deep. -/
def nestedWithin : (limit : Nat) → Json → Bool
  | 0, array _ => false
  | 0, object _ => false
  | limit + 1, array items => itemsWithin limit items
  | limit + 1, object members => membersWithin limit members
  | _, _ => true

def itemsWithin (limit : Nat) : List Json → Bool
  | [] => true
  | j :: rest => nestedWithin limit j && itemsWithin limit rest

def membersWithin (limit : Nat) : List (String × Json) → Bool
  | [] => true
  | (_, j) :: rest => nestedWithin limit j && membersWithin limit rest

end

mutual

/-- Whether no number is too large for a double. -/
def inRange : Json → Bool
  | real x => x.isFinite
  | array items => itemsInRange items
  | object members => membersInRange members
  | _ => true

def itemsInRange : List Json → Bool
  | [] => true
  | j :: rest => inRange j && itemsInRange rest

def membersInRange : List (String × Json) → Bool
  | [] => true
  | (_, j) :: rest => inRange j && membersInRange rest

end

end Json

end FleetHealth
