import RemoteTables.CommandLine.HelpPage
import RemoteTables.Github.Access
import RemoteTables.Text.Blank

/-!
# Running a command line

What the program answers to its arguments in an environment, as a value: nothing of it needs a
network. The arguments come first, so that help is there for someone who has set nothing; then the
settings, then the connection, then the command.

Nothing is connected to either, so it does not matter here which form a name outside ASCII has, only
whether it is taken for a name (`DomainName.Forms`).

A complaint stands on a line of its own, with its cause, if it has one, below it and further in.
Running a query takes a query engine, which this library is not; a query is read and then refused.
-/

set_option autoImplicit false

namespace RemoteTables
namespace CommandLine

/-- How a run ends. -/
inductive Ending where
  | printed (output : String)
  | failed (message : String) (cause : Option String)
  /-- The arguments are not understood. -/
  | misused
  deriving DecidableEq

namespace Ending

/-- The number that the system is told. -/
def code : Ending → Nat
  | printed _ => 0
  | failed _ _ => 1
  | misused => 2

/-- What is printed as the result. -/
def output : Ending → String
  | printed output => output
  | failed _ _ | misused => ""

/-- A text with every line moved to the right. -/
def indented (text : String) : String :=
  String.intercalate "\n"
    ((Text.splitOn '\n' text.toList).map fun line => "    " ++ String.ofList line)

/-- What is printed besides the result: the failure, with its cause below it. -/
def complaint? : Ending → Option String
  | failed message none => some ("Error: " ++ message ++ "\n")
  | failed message (some cause) =>
    some ("Error: " ++ message ++ "\n\nCaused by:\n" ++ indented cause ++ "\n")
  | printed _ | misused => none

def ofLines (lines : List String) : Ending := printed (String.join (lines.map (· ++ "\n")))

def ofSettingsFault (fault : SettingsFault) : Ending := failed fault.message fault.cause?

/-- The ending of a command that a failure stopped. -/
def ofFailure (failure : Failure) : Ending := failed (failure.message.getD "") none

end Ending

/-- The columns of a table, one on a line, with the types they are stored as. -/
def columnLines (columns : List Column) : List String :=
  let width := widest (columns.map Column.name)
  columns.map fun c =>
    padded width c.name ++ "  " ++ c.type.storage.describe ++
      (if c.nullable then "" else " NOT NULL")

/-- Carries a command out. Queries need an engine, which is not part of this library. -/
def Command.run (connector : Connector Request Reply) : Command → Ending
  | tables =>
    .ofLines ((connector.listTables (some Github.schemaName)).map TableName.display)
  | describe table =>
    match connector.columnsOf ⟨Github.schemaName, table⟩ with
    | .ok columns => .ofLines (columnLines columns)
    | .error failure => .ofFailure failure
  | query _ _ => .failed "queries need a query engine" none

/-- Runs a command with the access that an environment gives. -/
def Command.runIn (forms : DomainName.Forms) (env : Environment) (command : Command) : Ending :=
  match Github.Access.read env with
  | .error fault => .ofSettingsFault fault
  | .ok access =>
    match access.connect forms with
    | .error failure => .failed "Failed to create GitHub connector" failure.message
    | .ok connection => command.run connection.connector

/-- How the program ends when it is given arguments. -/
def run (forms : DomainName.Forms) (env : Environment) (arguments : List String) : Ending :=
  match Invocation.ofArguments? arguments with
  | none => .misused
  | some .version => .ofLines ["tabrest 0.1.0"]
  | some (.help level) => .printed level.helpPage.render
  | some (.run command) => command.runIn forms env

end CommandLine
end RemoteTables
