import EngineHost.CommandLine.Run
import EngineHost.Scripted.Engine

/-!
The command line program. It gathers what lies around it, hands the words of the command line over and
prints the outcome.
-/
namespace EngineHost.Main

/-- The engines that need no module from outside: one that knows no program. -/
def builtIn : Catalog Scripted.State :=
  [⟨"scripted", [("create_engine", .factory (.engine "ScriptedEngine" (.initial [])))]⟩]

def usageText : String :=
  "usage: corvus [-h] [--engine ENGINE] [--config CONFIG] [-v] eval|typeof SOURCE [--input NAME=VALUE]"

def variableNames : List String :=
  ["HOME", "APPDATA", "CORVUS_CONFIG", "CORVUS_ENGINE"]

def readVariable (name : String) : IO (Option (String × String)) := do
  return (← IO.getEnv name).map (name, ·)

def readEntry (p : Path) : IO (Option (Path × FileEntry)) := do
  try
    return some (p, .file (← IO.FS.readBinFile p.text))
  catch
    | .noFileOrDirectory _ _ _ => return none
    | _ => return some (p, .directory)

/-- The files that matter for a command line are read in advance. -/
def surroundings (args : List String) : IO Surroundings := do
  let environment ← variableNames.filterMapM readVariable
  let isWindows := (← IO.getEnv "OS") == some "Windows_NT"
  let bare : Surroundings := ⟨fun _ => none, environment, isWindows⟩
  let config := match CommandLine.Request.ofArgs args with
    | .ok r => r.config
    | .error _ => none
  let found ← (Settings.possibleFiles bare config).filterMapM readEntry
  return { bare with files := fun p => found.lookup p }

end EngineHost.Main

open EngineHost in
def main (args : List String) : IO UInt32 := do
  match CommandLine.run Scripted.engine Main.builtIn (← Main.surroundings args) args with
  | .ok (.finished exit output errors) => do
    (← IO.getStdout).putStr output
    (← IO.getStderr).putStr errors
    return exit.toUInt32
  | .ok (.stopped .help) => do
    IO.println Main.usageText
    return 0
  | .ok (.stopped .usage) => do
    IO.eprintln Main.usageText
    return 2
  | .error f => do
    IO.eprintln (f.family ++ ": " ++ CommandLine.messageText f)
    return 1
