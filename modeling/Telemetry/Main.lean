import Telemetry.Agent.Factories
import Telemetry.Agent.Running
import Telemetry.Configuration.Sources
import Telemetry.Text.Split

/-!
# The command line

The one argument is the path of the configuration file; environment variables are laid over what it
says. The pipelines it describes are built, started and shut down again, and whatever is wrong with
them is reported.
-/

namespace Telemetry.CommandLine

/-- The path of the configuration file if none is given. -/
def defaultPath : String := "/etc/otel-agent/config.toml"

/-- The environment variables of a process, from the text in which each ends with a zero. -/
def varsOf (text : String) : List (String × String) :=
  (text.splitOn "\x00").filterMap fun entry =>
    match Text.splitOnce '=' entry.toList with
    | (name, some value) => some (String.ofList name, String.ofList value)
    | (_, none) => none

/-- What is reported: nothing if all went well. -/
def report (path : String) (file : Option String) (environment : String) : Option String :=
  match ServiceConfig.load? file (varsOf environment) with
  | none => some ("failed to load configuration from " ++ path)
  | some config =>
    match Agent.run ⟨config, Agent.factories⟩ none 0 with
    | (.ok (), _) => none
    | (.error e, _) => some ("agent runtime failed: " ++ e.message)

/-- The text of a file, if it can be read. -/
def readText? (path : String) : IO (Option String) := do
  try
    return some (← IO.FS.readFile path)
  catch _ => return none

end Telemetry.CommandLine

open Telemetry.CommandLine in
/-- Reports what is wrong with a configuration. -/
def main (args : List String) : IO UInt32 := do
  let path := args.head?.getD defaultPath
  let file ← readText? path
  let environment ← readText? "/proc/self/environ"
  match report path file (environment.getD "") with
  | none => return 0
  | some message =>
    IO.eprintln message
    return 1
