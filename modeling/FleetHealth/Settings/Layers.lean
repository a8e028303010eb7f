import FleetHealth.Settings.Tree

/-!
# Layers of settings

Settings are put together from layers, each of which overrides the ones before it: a settings file,
then the environment. A layer is a list of values under dotted names.
-/
namespace FleetHealth.Settings

abbrev Layer := List (String × Tree)

def isNameChar (c : Char) : Bool := c.isAlphanum || c == ' ' || c == '_' || c == '-'

/-- A dotted name as a path of names; a text that is none stands for itself. -/
def pathOf (name : String) : List String :=
  let names := name.splitOn "."
  if names.all fun n => !n.isEmpty && n.all isNameChar then names else [name]

def Tree.ofLayers (layers : List Layer) : Tree :=
  layers.flatten.foldl (fun t (name, value) => t.setAt value (pathOf name)) (.table [])

/-- The text of a variable: a flag, an integer or a real where it reads as one. -/
def Tree.ofText (s : String) : Tree :=
  if s.toLower = "true" then .flag true
  else if s.toLower = "false" then .flag false
  else match Decimal.signed? s with
    | some n => .integer n
    | none =>
      match Decimal.double? s with
      | some x => .real x
      | none => .text s

/-- What the names of variables with settings start with. -/
def variableStart : String := "insight__"

/-- The dotted name of the setting that a variable overrides, if there is one. -/
def settingOf? (name : String) : Option String :=
  let name := name.toLower
  if variableStart.isPrefixOf name then
    some (".".intercalate ((name.drop variableStart.length).toString.splitOn "__"))
  else none

/-- The variables that can say something of settings, as they are usually written. -/
def variableNames : List String :=
  sections.flatMap fun (part, fields) =>
    (variableStart ++ part).toUpper ::
      fields.map fun field => (variableStart ++ part ++ "__" ++ field).toUpper

def environmentLayer (env : List (String × String)) : Layer :=
  env.filterMap fun (name, value) =>
    (settingOf? name).map fun setting => (setting, Tree.ofText value)

def ofLayers? (layers : List Layer) : Option Settings :=
  Tree.format.settings? (Tree.ofLayers layers)

end FleetHealth.Settings
