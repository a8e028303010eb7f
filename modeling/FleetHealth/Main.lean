import FleetHealth.Command.Run
import Std.Time.DateTime.Timestamp

/-!
# The program

Reads the words after its name, the variables and files they lead to, and the clock; prints the
answer of the request, or why there is none.
-/
namespace FleetHealth.Command

/-- What the program says when asked for help, and after words that make no request. -/
def usage : String :=
  "Usage: fleet-insight [--snapshot FILE] [--config FILE] [--format table|json] [--verbose] " ++
    "COMMAND\n\n" ++
  "Commands:\n" ++
  "  detect ENTITY [--metric METRIC]... [--threshold Z]\n" ++
  "  composite [ENTITY] [--min-score SCORE]\n" ++
  "  correlate [--metric METRIC]... [--threshold R] [--lookback-hours HOURS]\n" ++
  "  forecast [ENTITY] [--limit N] [--threshold CEILING]\n" ++
  "  scan [--limit N]"

def knownVariables : List String :=
  [snapshotVariable, configVariable, "CLICOLOR_FORCE", "NO_COLOR", "CLICOLOR"] ++
    Settings.variableNames

def readEnvironment : IO (List (String × String)) := do
  let found ← knownVariables.mapM fun name => do
    return (← IO.getEnv name).map fun value => (name, value)
  return found.filterMap id

def readFile (path : String) : IO (Option ByteArray) := do
  try return some (← IO.FS.readBinFile path)
  catch _ => return none

/-- The instant on the clock. -/
def readClock : IO Instant := do
  let now ← Std.Time.Timestamp.now
  return (Instant.ofLinear? now.toNanosecondsSinceUnixEpoch.val).getD .epoch

/-- The machine as far as a request needs it. -/
def readMachine (env : List (String × String)) (r : Request) : IO Machine := do
  let homeConfig := (← IO.getEnv "HOME").map (· ++ "/.config/fleet-insight/config.toml")
  let files ← (r.snapshot.toList ++ r.config.toList ++ homeConfig.toList).mapM fun path => do
    return (path, ← readFile path)
  let onTerminal ← (← IO.getStdout).isTty
  return ⟨env, fun path => (files.find? (·.1 == path)).bind (·.2), homeConfig, ← readClock,
    onTerminal⟩

def report (f : Failure) : IO UInt32 := do
  IO.eprintln ("Error: " ++ f.message)
  match f.cause? with
  | some cause => IO.eprintln ("\nCaused by:\n    " ++ cause)
  | none => pure ()
  return 1

def serve (words : List String) : IO UInt32 := do
  let env ← readEnvironment
  match requestOf (fun name => (env.find? (·.1 == name)).map (·.2)) words with
  | .error .usage => do
    IO.eprintln ("error: the arguments make no request\n\n" ++ usage)
    return 2
  | .error .help => do
    IO.println usage
    return 0
  | .error .version => do
    IO.println versionLine
    return 0
  | .ok r => do
    match r.run (← readMachine env r) with
    | .ok answer => do
      IO.println answer.text
      return 0
    | .error f => report f

end FleetHealth.Command

def main (words : List String) : IO UInt32 := FleetHealth.Command.serve words
