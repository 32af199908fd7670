import RemoteTables.Text.Blank
import RemoteTables.Text.Integer
import RemoteTables.Text.Quoted

/-!
# Settings

What can be set from outside: into how many page windows the splits of which tables are cut, and how
long a connection may take. Settings are read from an environment, a function from names to texts,
in a fixed order, and the first variable that is wrong is the one complained about.

A complaint has a cause of its own when it comes from reading a text. A single line shows both; the
command line shows the cause below.
-/

set_option autoImplicit false

namespace RemoteTables

/-- The variables that are set. -/
abbrev Environment := String → Option String

/-- Why settings are refused. -/
inductive SettingsFault where
  /-- A variable does not hold a number that fits. -/
  | invalid (name : String) (fault : IntegerFault)
  | noSplits
  | tokenNotSet
  | tokenEmpty
  deriving DecidableEq

namespace SettingsFault

/-- The wording of a fault, without its cause. -/
def message : SettingsFault → String
  | invalid name _ => "Invalid " ++ name
  | noSplits => "REST_MIN_SPLITS must be at least 1"
  | tokenNotSet => "GITHUB_TOKEN is not set"
  | tokenEmpty => "GITHUB_TOKEN is empty"

/-- Why it is wrong, where that is a matter of its own. -/
def cause? : SettingsFault → Option String
  | invalid _ fault => some fault.message
  | tokenNotSet => some "environment variable not found"
  | noSplits | tokenEmpty => none

/-- The wording of a fault with its cause, in one line. -/
def line (f : SettingsFault) : String :=
  match f.cause? with
  | some cause => f.message ++ ": " ++ cause
  | none => f.message

end SettingsFault

/-- The settings of a connector. -/
structure Settings where
  /-- The page windows that a split of a listed table is cut into. -/
  minSplits : UInt32
  /-- The tables whose splits are cut. -/
  minSplitTables : List String
  connectSeconds : UInt64
  readSeconds : UInt64
  deriving DecidableEq

namespace Settings

/-- The settings where the environment says nothing. -/
def standard : Settings := ⟨1, [], 10, 60⟩

/-- Into how many windows a table is cut. -/
def splitsFor (s : Settings) (table : String) : UInt32 :=
  if s.minSplitTables.contains table then max s.minSplits 1 else 1

/-- The names in a list with commas, without blanks around them and without empty ones. -/
def readNames (text : String) : List String :=
  (((Text.splitOn ',' text.toList).map Text.trim).filter fun name => !name.isEmpty).map
    String.ofList

/-- The number below `bound` that a variable holds, or else the one of the standard settings. -/
def readNumber (env : Environment) (name : String) (bound standard : Nat) :
    Except SettingsFault Nat :=
  match env name with
  | none => .ok standard
  | some text => (Text.natural? bound text.toList).mapError (.invalid name)

/-- The settings of an environment. The first variable that does not read is the fault. -/
def read (env : Environment) : Except SettingsFault Settings := do
  let splits ← readNumber env "REST_MIN_SPLITS" UInt32.size standard.minSplits.toNat
  if splits = 0 then throw .noSplits
  let tables := ((env "REST_MIN_SPLIT_TABLES").map readNames).getD standard.minSplitTables
  let connect ← readNumber env "REST_CONNECT_TIMEOUT_SECS" UInt64.size standard.connectSeconds.toNat
  let read ← readNumber env "REST_READ_TIMEOUT_SECS" UInt64.size standard.readSeconds.toNat
  return ⟨.ofNat splits, tables, .ofNat connect, .ofNat read⟩

/-- A number of seconds in messages; none at all is shown in the smallest unit. -/
def showSeconds (seconds : UInt64) : String :=
  if seconds = 0 then "0ns" else toString seconds.toNat ++ "s"

/-- The settings as messages show them. -/
def describe (s : Settings) : String :=
  Text.record "RestConfig"
    [("min_splits", toString s.minSplits.toNat),
     ("min_split_tables", Text.bracketed (s.minSplitTables.map Text.quoted)),
     ("connect_timeout", showSeconds s.connectSeconds),
     ("read_timeout", showSeconds s.readSeconds)]

end Settings
end RemoteTables
