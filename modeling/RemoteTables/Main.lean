import RemoteTables.CommandLine.Run

/-!
# The program

Takes the arguments and the environment from the system, and gives the system what the run ends
with. What the run is, is `CommandLine.run`. Since it connects to no server, names outside ASCII are
taken as they are written.
-/

set_option autoImplicit false

namespace RemoteTables
namespace CommandLine

/-- The names of all settings. -/
def settingNames : List String :=
  ["GITHUB_TOKEN", "GITHUB_API_URL", "REST_MIN_SPLITS", "REST_MIN_SPLIT_TABLES",
   "REST_CONNECT_TIMEOUT_SECS", "REST_READ_TIMEOUT_SECS"]

/-- The part of the system's environment that is looked at. -/
def systemEnvironment : IO Environment := do
  let pairs ← settingNames.filterMapM fun name => do
    return (← IO.getEnv name).map fun value => (name, value)
  return fun name => pairs.lookup name

/-- Runs the program, and gives its exit code. -/
def runInSystem (arguments : List String) : IO UInt32 := do
  let ending := run some (← systemEnvironment) arguments
  IO.print ending.output
  match ending with
  | .misused => IO.eprintln "The arguments are not understood; --help shows how to use them."
  | _ => IO.eprint (ending.complaint?.getD "")
  return ending.code.toUInt32

end CommandLine
end RemoteTables

/-- The program. -/
def main (arguments : List String) : IO UInt32 :=
  RemoteTables.CommandLine.runInSystem arguments
