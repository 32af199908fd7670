/-!
# Invocations

What the arguments on a command line ask for. They are read from left to right, first the flags of
the program, then the name of a command, then the flags and words of the command. A flag that asks
for help or for the version settles the matter at once, whatever is still to come; anything not
understood settles it too, but as a misuse. So of two mistakes, or a mistake and a cry for help, the
first one counts.

Short flags can stand together behind one dash, and after two dashes alone everything is a word. For
that reason arguments are first cut into tokens, which does not depend on the command.
-/

set_option autoImplicit false

namespace RemoteTables
namespace CommandLine

/-! ## Tokens -/

/-- What an argument is made of. -/
inductive Token where
  | short (letter : Char)
  | long (name : String)
  /-- Two dashes alone. Only words come after. -/
  | escape
  | word (text : String)
  deriving DecidableEq

/-- The tokens of one argument in front of the escape. A dash alone is a word. -/
def Token.ofArgument (argument : String) : List Token :=
  match argument.toList with
  | ['-'] => [.word argument]
  | ['-', '-'] => [.escape]
  | '-' :: '-' :: name => [.long (String.ofList name)]
  | '-' :: letters => letters.map .short
  | _ => [.word argument]

/-- The tokens of all arguments. Behind the escape everything is a word. -/
def Token.ofArguments : List String → List Token
  | [] => []
  | argument :: rest =>
    if argument = "--" then .escape :: rest.map .word
    else ofArgument argument ++ ofArguments rest

/-! ## Commands and flags -/

/-- What the program can do. -/
inductive Command where
  /-- List the tables. -/
  | tables
  /-- Show the columns of a table. -/
  | describe (table : String)
  /-- Run a query, or only show how it would be run. -/
  | query (text : String) (explain : Bool)
  deriving DecidableEq

/-- The levels of the command line, each with flags, words and a help page of its own. -/
inductive Level where
  | program
  | tables
  | describe
  | query
  | help
  deriving DecidableEq

/-- The flags. -/
inductive Flag where
  | verbose
  | help
  | version
  | explain
  deriving DecidableEq

namespace Level

/-- The command of a name. -/
def named? : String → Option Level
  | "tables" => some tables
  | "describe" => some describe
  | "query" => some query
  | "help" => some help
  | _ => none

/-- The options that a level takes, in the order of its help. -/
def flags : Level → List Flag
  | program => [.verbose, .help, .version]
  | tables | describe => [.verbose, .help]
  | query => [.explain, .verbose, .help]
  | help => []

/-- How many words a level takes. -/
def capacity : Level → Nat
  | program | tables => 0
  | describe | query | help => 1

end Level

namespace Flag

/-- The short form of an option, if it has one. -/
def letter? : Flag → Option Char
  | verbose => some 'v'
  | help => some 'h'
  | version => some 'V'
  | explain => none

def name : Flag → String
  | verbose => "verbose"
  | help => "help"
  | version => "version"
  | explain => "explain"

/-- Whether a token is an option, in either form. -/
def isToken (f : Flag) : Token → Bool
  | .short letter => f.letter? == some letter
  | .long name => name == f.name
  | .escape | .word _ => false

end Flag

/-! ## Reading -/

/-- What the arguments ask for. -/
inductive Invocation where
  | run (command : Command)
  | help (level : Level)
  | version
  deriving DecidableEq

/-- The flags and the words of a level that have been read. -/
structure Given where
  flags : List Flag
  words : List String
  deriving DecidableEq

/-- What is asked for when all tokens of a level have been read. -/
def Given.invocation? (given : Given) : Level → Option Invocation
  | .program => none
  | .tables => some (.run .tables)
  | .describe => given.words.head?.map fun table => .run (.describe table)
  | .query => given.words.head?.map fun text => .run (.query text (given.flags.contains .explain))
  | .help =>
    match given.words with
    | [] => some (.help .program)
    | name :: _ => (Level.named? name).map .help

/-- Reads the tokens of a level, and of the level of the command that they name. A flag that only
switches something on is not to be given twice at one level. -/
def readTokens (level : Level) (given : Given) : List Token → Option Invocation
  | [] => given.invocation? level
  | .escape :: rest =>
    if level = .program ∨ level = .help then none else readTokens level given rest
  | .word text :: rest =>
    if level = .program then
      match Level.named? text with
      | some command => readTokens command ⟨[], []⟩ rest
      | none => none
    else if given.words.length < level.capacity then
      readTokens level { given with words := given.words ++ [text] } rest
    else none
  | token :: rest =>
    match level.flags.find? fun f => f.isToken token with
    | none => none
    | some .help => some (.help level)
    | some .version => some .version
    | some f =>
      if f ∈ given.flags then none
      else readTokens level { given with flags := f :: given.flags } rest

/-- What the arguments ask for, unless they are misused. -/
def Invocation.ofArguments? (arguments : List String) : Option Invocation :=
  readTokens .program ⟨[], []⟩ (Token.ofArguments arguments)

end CommandLine
end RemoteTables
