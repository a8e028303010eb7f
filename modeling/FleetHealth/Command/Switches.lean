/-!
# Switches and operands

The words after a program's name, read left to right: switches with two dashes and a name or one
dash and a letter, their values, and operands. Two dashes alone end the switches.
-/
namespace FleetHealth.Command

structure Switch where
  name : String
  letter : Option Char
  takesValue : Bool
  repeats : Bool
  accepts : String → Bool

/-- Why reading stops before the last word. -/
inductive Stop where
  | usage
  | help
  | version
  deriving DecidableEq, Repr

/-- What can stand at one level of the words. -/
structure Level where
  switches : List Switch
  operands : Nat
  /-- The commands, one of which ends the level. -/
  commands : List String
  tellsVersion : Bool

/-- What was found at one level: switches with their values, flags with an empty one,
and operands. -/
structure Found where
  given : List (String × String)
  operands : List String

namespace Found

def empty : Found := ⟨[], []⟩

def values (f : Found) (name : String) : List String :=
  (f.given.filter (·.1 == name)).map (·.2)

def value? (f : Found) (name : String) : Option String := (f.values name).head?

def has (f : Found) (name : String) : Bool := f.given.any (·.1 == name)

end Found

/-- A level that was read, and the command that ended it with the words after it. -/
structure Reading where
  found : Found
  command : Option (String × List String)

namespace Level

def give (f : Found) (s : Switch) (value : String) : Except Stop Found :=
  if (f.has s.name && !s.repeats) || !s.accepts value then .error .usage
  else .ok { f with given := f.given ++ [(s.name, value)] }

def operand (l : Level) (f : Found) (word : String) : Except Stop Found :=
  if f.operands.length < l.operands then .ok { f with operands := f.operands ++ [word] }
  else .error .usage

/-- A word that is read as switches where it is not given to one as part of its own word. -/
def isSwitch (word : String) : Bool := word.startsWith "-" && word != "-"

/-- Letters after one dash. Those of flags are taken in turn; the first that takes a value has the
rest as its value, or awaits the next word where there is no rest. -/
def letters (l : Level) : Found → List Char → Except Stop (Found × Option Switch)
  | f, [] => .ok (f, none)
  | f, c :: rest =>
    match l.switches.find? fun s => s.letter == some c with
    | some s =>
      if s.takesValue then
        match rest with
        | [] => .ok (f, some s)
        | '=' :: value => do return (← give f s (String.ofList value), none)
        | value => do return (← give f s (String.ofList value), none)
      else do letters l (← give f s "") rest
    | none =>
      if c = 'h' then .error .help
      else if c = 'V' ∧ l.tellsVersion then .error .version
      else .error .usage

/-- The word after two dashes, and the value after an equals sign in it. -/
def splitValue (word : String) : String × Option String :=
  match word.splitOn "=" with
  | name :: part :: parts => (name, some ("=".intercalate (part :: parts)))
  | _ => (word, none)

/-- A name after two dashes, perhaps with a value. A switch without its value awaits the
next word. -/
def named (l : Level) (f : Found) (word : String) : Except Stop (Found × Option Switch) :=
  let (name, value?) := splitValue word
  match l.switches.find? fun s => s.name == name, value? with
  | some s, some value => do
    if s.takesValue then return (← give f s value, none) else throw .usage
  | some s, none => do
    if s.takesValue then return (f, some s) else return (← give f s "", none)
  | none, none =>
    if name = "help" then .error .help
    else if name = "version" ∧ l.tellsVersion then .error .version
    else .error .usage
  | none, some _ => .error .usage

/-- The words after a request for help, which have to name a command. -/
def helpOn (l : Level) : List String → Stop
  | [] => .help
  | [command] => if command ∈ "help" :: l.commands then .help else .usage
  | _ => .usage

/-- Reads a level. `awaiting` is a switch that has no value yet. -/
def read (l : Level) (awaiting : Option Switch) (f : Found) : List String → Except Stop Reading
  | [] => if awaiting.isSome then .error .usage else .ok ⟨f, none⟩
  | word :: rest =>
    match awaiting with
    | some s => if isSwitch word then .error .usage else do l.read none (← give f s word) rest
    | none =>
      if word = "--" then do return ⟨← rest.foldlM l.operand f, none⟩
      else if word.startsWith "--" then do
        let (f, awaiting) ← l.named f (word.drop 2).toString
        l.read awaiting f rest
      else if isSwitch word then do
        let (f, awaiting) ← l.letters f (word.toList.drop 1)
        l.read awaiting f rest
      else if word ∈ l.commands then .ok ⟨f, some (word, rest)⟩
      else if word = "help" ∧ l.commands ≠ [] then .error (l.helpOn rest)
      else do l.read none (← l.operand f word) rest

end Level

end FleetHealth.Command
