import FleetHealth.Command.Switches
import FleetHealth.Decimal.Reading
import FleetHealth.Metric

/-!
# Requests

What a user asks the program to do: one command, the files it works on, and the form of its answer.
The files can also be named by the environment. Switches of every command stand before or after the
name of the command; the later place wins.
-/
namespace FleetHealth.Command

inductive Action where
  | detect (entity : String) (metrics : List Metric) (threshold : Option Float)
  | composite (entity : Option String) (minScore : Option Float)
  | correlate (metrics : List Metric) (threshold : Option Float) (lookbackHours : Option UInt64)
  | forecast (entity : Option String) (limit : Nat) (threshold : Option Float)
  | scan (limit : Nat)

structure Request where
  snapshot : Option String
  config : Option String
  asJson : Bool
  action : Action

def snapshotVariable : String := "FLEET_INSIGHT_SNAPSHOT"

def configVariable : String := "FLEET_INSIGHT_CONFIG"

/-- A switch with a value that is given at most once. -/
def valued (name : String) (letter : Option Char) (accepts : String → Bool) : Switch :=
  ⟨name, letter, true, false, accepts⟩

def realSwitch (name : String) : Switch := valued name none fun v => (Decimal.double? v).isSome

def wordSwitch (name : String) (letter : Option Char) : Switch :=
  valued name letter fun v => (Decimal.unsigned? v).isSome

def metricSwitch : Switch := ⟨"metric", some 'm', true, true, fun v => (Metric.ofName? v).isSome⟩

def sharedSwitches : List Switch :=
  [valued "snapshot" (some 's') (· != ""), valued "config" (some 'c') (· != ""),
    valued "format" (some 'f') (["table", "json"].contains ·),
    ⟨"verbose", some 'v', false, false, fun _ => true⟩]

def commands : List String := ["detect", "composite", "correlate", "forecast", "scan"]

/-- The words in front of the command. -/
def topLevel : Level := ⟨sharedSwitches, 0, commands, true⟩

/-- The words after a command. -/
def levelOf (command : String) : Level :=
  let (operands, switches) := match command with
    | "detect" => (1, [metricSwitch, realSwitch "threshold"])
    | "composite" => (1, [realSwitch "min-score"])
    | "correlate" => (0, [metricSwitch, realSwitch "threshold", wordSwitch "lookback-hours" none])
    | "forecast" => (1, [wordSwitch "limit" (some 'l'), realSwitch "threshold"])
    | _ => (0, [wordSwitch "limit" (some 'l')])
  ⟨switches ++ sharedSwitches, operands, [], false⟩

def defaultLimit : Nat := 10

/-- The action of a command by the words after it. -/
def actionOf (command : String) (f : Found) : Except Stop Action :=
  let real? (name : String) := (f.value? name).bind Decimal.double?
  let metrics := (f.values "metric").filterMap Metric.ofName?
  let limit := ((f.value? "limit").bind Decimal.unsigned?).getD defaultLimit
  match command, f.operands.head? with
  | "detect", some entity => .ok (.detect entity metrics (real? "threshold"))
  | "composite", entity => .ok (.composite entity (real? "min-score"))
  | "correlate", _ =>
    .ok (.correlate metrics (real? "threshold")
      (((f.value? "lookback-hours").bind Decimal.unsigned?).map UInt64.ofNat))
  | "forecast", entity => .ok (.forecast entity limit (real? "threshold"))
  | "scan", _ => .ok (.scan limit)
  | _, _ => .error .usage

/-- A file named by a switch, after the command or before it, or else by a variable. A variable
without text counts as an error wherever the switch is not given. -/
def fileOf (lookup : String → Option String) (switch fallback : String) (outer inner : Found) :
    Except Stop (Option String) :=
  match inner.value? switch, outer.value? switch, lookup fallback with
  | some path, some _, _ => .ok (some path)
  | _, _, some "" => .error .usage
  | some path, none, _ => .ok (some path)
  | none, some path, _ => .ok (some path)
  | none, none, path => .ok path

def requestOf (lookup : String → Option String) (words : List String) : Except Stop Request := do
  let outer ← topLevel.read none .empty words
  match outer.command with
  | none => .error .usage
  | some (command, rest) => do
    let inner ← (levelOf command).read none .empty rest
    let action ← actionOf command inner.found
    let snapshot ← fileOf lookup "snapshot" snapshotVariable outer.found inner.found
    let config ← fileOf lookup "config" configVariable outer.found inner.found
    let format := (inner.found.value? "format").or (outer.found.value? "format")
    return ⟨snapshot, config, format == some "json", action⟩

end FleetHealth.Command
