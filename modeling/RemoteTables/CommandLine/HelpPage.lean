import RemoteTables.CommandLine.Invocation

/-!
# Help pages

The page that is printed when help is asked for: what the program or command does, how it is used,
and then sections of terms with explanations. Within a section all explanations start in the same
place, two blanks after the longest term, and so does the place of one that is missing.
-/

set_option autoImplicit false

namespace RemoteTables
namespace CommandLine

/-- A term of a help page with its explanation. -/
structure HelpEntry where
  term : String
  explanation : String

/-- A section of a help page. -/
structure HelpSection where
  title : String
  entries : List HelpEntry

/-- A help page. -/
structure HelpPage where
  summary : String
  usage : String
  sections : List HelpSection

/-- A text filled up with blanks from the right. -/
def padded (width : Nat) (text : String) : String :=
  text ++ String.ofList (List.replicate (width - text.length) ' ')

def widest (texts : List String) : Nat := texts.foldl (fun width text => max width text.length) 0

/-- The lines of a section: its title, and its entries with the explanations below one another. -/
def HelpSection.lines (s : HelpSection) : List String :=
  let width := widest (s.entries.map HelpEntry.term)
  "" :: (s.title ++ ":") ::
    s.entries.map fun e => "  " ++ padded width e.term ++ "  " ++ e.explanation

/-- A page as it is printed. -/
def HelpPage.render (p : HelpPage) : String :=
  let lines := [p.summary, "", "Usage: " ++ p.usage] ++ p.sections.flatMap HelpSection.lines
  String.join (lines.map (· ++ "\n"))

def Flag.explanation : Flag → String
  | verbose => "Enable verbose logging"
  | help => "Print help"
  | version => "Print version"
  | explain => "Print the physical plan instead of running the query"

/-- A flag as a term; the place of a letter is kept free. -/
def Flag.term (f : Flag) : String :=
  match f.letter? with
  | some letter => "-" ++ letter.toString ++ ", --" ++ f.name
  | none => "    --" ++ f.name

/-- The section of the options that a level takes, if it takes any. -/
def Level.options (level : Level) : List HelpSection :=
  if level.flags.isEmpty then []
  else [⟨"Options", level.flags.map fun f => ⟨f.term, f.explanation⟩⟩]

/-- What a level is for, in one line. -/
def Level.summary : Level → String
  | program => "Query REST APIs as SQL tables"
  | tables => "List the tables of the github schema"
  | describe => "Show the columns of a table"
  | query =>
    "Run a SQL query, e.g. \"SELECT title FROM github.issues WHERE owner = 'o' AND repo = 'r'\""
  | help => "Print this message or the help of the given subcommand(s)"

/-- The help of a level: what it is for, how it is called, and what it takes. -/
def Level.helpPage (level : Level) : HelpPage :=
  match level with
  | program =>
    ⟨level.summary, "tabrest [OPTIONS] <COMMAND>",
      ⟨"Commands", [⟨"tables", tables.summary⟩, ⟨"describe", describe.summary⟩,
        ⟨"query", query.summary⟩, ⟨"help", help.summary⟩]⟩ :: level.options⟩
  | tables => ⟨level.summary, "tabrest tables [OPTIONS]", level.options⟩
  | describe =>
    ⟨level.summary, "tabrest describe [OPTIONS] <TABLE>",
      ⟨"Arguments", [⟨"<TABLE>", "Table name, e.g. `issues`"⟩]⟩ :: level.options⟩
  | query =>
    ⟨level.summary, "tabrest query [OPTIONS] <SQL>",
      ⟨"Arguments", [⟨"<SQL>", ""⟩]⟩ :: level.options⟩
  | help =>
    ⟨level.summary, "tabrest help [COMMAND]...",
      [⟨"Arguments", [⟨"[COMMAND]...", "Print help for the subcommand(s)"⟩]⟩]⟩

end CommandLine
end RemoteTables
