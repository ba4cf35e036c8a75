import Dhcp.Config.File
import Dhcp.Journal

/-!
# Dhcp.CommandLine

The command line: `-c FILE`, `-l LEVEL` and `-V` before one of the commands `run` and
`show-config`.  An option may be given its value in the next argument or in the same
one, with or without an equals sign, and may come once.
-/

namespace Dhcp.CommandLine

/-- What the program is to do with its configuration. -/
inductive Command where
  /-- Serve until stopped. -/
  | run
  /-- Print the configuration. -/
  | showConfig
deriving DecidableEq

/-- The command of a name. -/
def Command.ofName? (name : String) : Option Command :=
  if name = "run" then some .run else if name = "show-config" then some .showConfig else none

/-- An option with a value. -/
inductive Flag where
  | config
  | logLevel
deriving DecidableEq

/-- What a command line asks for. -/
inductive Request where
  | execute (config logLevel : String) (command : Command)
  | version
  | help
  /-- It cannot be understood. -/
  | misuse
deriving DecidableEq

/-- What an argument is, before the command. -/
inductive Argument where
  /-- An option with its value. -/
  | valued (flag : Flag) (value : String)
  /-- An option whose value is the next argument. -/
  | flag (flag : Flag)
  | version
  | help
  /-- The mark after which no option comes. -/
  | separator
  | command (command : Command)
  /-- The command that tells of the others. -/
  | helpCommand
  | unknown
deriving DecidableEq

/-- What a letter after a single hyphen is, when `rest` follows it in the argument. -/
def classifyShort (letter : Char) (rest : List Char) : Argument :=
  let option (flag : Flag) : Argument :=
    match rest with
    | [] => .flag flag
    | '=' :: value => .valued flag (String.ofList value)
    | value => .valued flag (String.ofList value)
  if letter = 'c' then option .config
  else if letter = 'l' then option .logLevel
  else if letter = 'V' then .version
  else if letter = 'h' then .help
  else .unknown

/-- What an argument after two hyphens is: its name, and its value after an equals sign. -/
def classifyLong (name : List Char) (value : Option (List Char)) : Argument :=
  match String.ofList name, value with
  | "config", none => .flag .config
  | "config", some value => .valued .config (String.ofList value)
  | "log-level", none => .flag .logLevel
  | "log-level", some value => .valued .logLevel (String.ofList value)
  | "version", none => .version
  | "help", none => .help
  | _, _ => .unknown

/-- What an argument is. -/
def classify (arg : String) : Argument :=
  match arg.toList with
  | ['-', '-'] => .separator
  | '-' :: '-' :: rest =>
    classifyLong (rest.takeWhile (· ≠ '=')) (rest.dropWhile (· ≠ '=')).tail?
  | '-' :: letter :: rest => classifyShort letter rest
  | _ =>
    match Command.ofName? arg with
    | some command => .command command
    | none => if arg = "help" then .helpCommand else .unknown

/-- Whether an argument cannot be the value of the option before it: it begins with a hyphen
and is longer than that. -/
def isHyphenated (arg : String) : Bool :=
  match arg.toList with
  | '-' :: _ :: _ => true
  | _ => false

/-- The values that options have been given. -/
structure Given where
  config : Option String := none
  logLevel : Option String := none

/-- Gives an option its value.  It must not have one, and the name of a file must not be empty. -/
def Given.assign? (g : Given) (flag : Flag) (value : String) : Option Given :=
  match flag with
  | .config =>
    if g.config.isSome ∨ value = "" then none else some { g with config := some value }
  | .logLevel => if g.logLevel.isSome then none else some { g with logLevel := some value }

/-- What is asked for once the command is known. -/
def Given.execute (g : Given) (command : Command) : Request :=
  .execute (g.config.getD "config.json") (g.logLevel.getD "info") command

/-- What the arguments after a command ask for: nothing more than the command, or help. -/
def afterCommand (g : Given) (command : Command) : List String → Request
  | [] | ["--"] => g.execute command
  | arg :: _ => if classify arg = .help then .help else .misuse

/-- What the arguments after the help command ask for. -/
def afterHelp : List String → Request
  | [] => .help
  | [name] => if (Command.ofName? name).isSome ∨ name = "help" then .help else .misuse
  | _ => .misuse

/-- What a list of arguments asks for, when some options have been given.  The first argument
that cannot be understood decides. -/
def parseFrom (g : Given) : List String → Request
  | [] => g.execute .run
  | arg :: rest =>
    match classify arg with
    | .valued flag value =>
      match g.assign? flag value with
      | some g => parseFrom g rest
      | none => .misuse
    | .flag flag =>
      match rest with
      | [] => .misuse
      | value :: rest =>
        if isHyphenated value then .misuse
        else
          match g.assign? flag value with
          | some g => parseFrom g rest
          | none => .misuse
    | .version => .version
    | .help => .help
    | .separator => if rest = [] then g.execute .run else .misuse
    | .command command => afterCommand g command rest
    | .helpCommand => afterHelp rest
    | .unknown => .misuse

/-- What a command line asks for. -/
def parse (args : List String) : Request := parseFrom {} args

/-- The least level of the log that is asked for.  What is no level's name counts as the usual
one. -/
def Request.leastLevel : Request → Level
  | .execute _ "trace" _ => .trace
  | .execute _ "debug" _ => .debug
  | .execute _ "warn" _ => .warn
  | .execute _ "error" _ => .error
  | _ => .info

/-! ## Carrying out -/

/-- What the version is printed as. -/
def versionText : String := "tinydhcp 0.1.0\n"

/-- What is printed for help. -/
def helpText : String :=
  "A small DHCP server for a single /24

Usage: tinydhcp [OPTIONS] [COMMAND]

Commands:
  run
  show-config
  help         Print this message or the help of the given subcommand(s)

Options:
  -c, --config <CONFIG>        [default: config.json]
  -l, --log-level <LOG_LEVEL>  [default: info]
  -h, --help                   Print help
  -V, --version                Print version
"

/-- What comes of a command line. -/
inductive Outcome where
  /-- What was asked for is printed. -/
  | printed (text : String)
  /-- The configuration cannot be loaded. -/
  | failed (e : Error)
  /-- The command line cannot be understood. -/
  | misused
  /-- The configuration is to be served. -/
  | serve (config : Config)
deriving DecidableEq

namespace Outcome

/-- The exit code of the program. -/
def exitCode : Outcome → Nat
  | printed _ | serve _ => 0
  | failed _ => 1
  | misused => 2

/-- What is printed. -/
def stdout : Outcome → String
  | printed text => text
  | _ => ""

/-- What is complained of. -/
def stderr : Outcome → String
  | failed e => s!"Error: {e.text}\n"
  | misused => "error: the command line cannot be understood\n\nFor more information, try '--help'.\n"
  | _ => ""

end Outcome

/-- Carries out a request on what the path of the configuration leads to.  Yields what it leads
to afterwards. -/
def Request.carryOut (place : String → Place) : Request → Outcome × Option (String × Place)
  | version => (.printed versionText, none)
  | help => (.printed helpText, none)
  | misuse => (.misused, none)
  | execute path _ command =>
    match Config.load (place path) with
    | .error e => (.failed e, none)
    | .ok (c, after) =>
      match command with
      | .run => (.serve c, some (path, after))
      | .showConfig => (.printed (c.render ++ "\n"), some (path, after))

/-- Runs a command line in a directory. -/
def run (args : List String) (d : Disk) : Outcome × Disk :=
  match (parse args).carryOut d.place with
  | (outcome, some (path, after)) => (outcome, d.put path after)
  | (outcome, none) => (outcome, d)

end Dhcp.CommandLine
