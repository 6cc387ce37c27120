import BuildRunner.CommandLine.Request
import BuildRunner.Jobs

/-!
# Running a command line

A command line ends with an exit code.  A command line that is misused changes nothing, except that
`--verbose` before a known command lasts.
-/

namespace BuildRunner

/-- How a command line ends. -/
inductive Exit
  | code (code : Int)
  | misuse
deriving DecidableEq, Repr, Inhabited

def versionText : String := "0.1.0"

/-- What `--help` shows. -/
def helpText : String :=
  "Usage: buildos (--verbose) (--version) COMMAND ARGUMENTS\n" ++
    "Commands: " ++ String.intercalate ", " (CommandLine.Command.all.map CommandLine.Command.name)

namespace Act

open BuildRunner.CommandLine

variable {κ : Type}

/-- The exit code for a report; a refusal is printed. -/
def exitReport : Report → Act κ Exit
  | .success => return .code 0
  | .refused message => do
    let text := if message.isEmpty then "unknown error" else message
    printErr ("[red]Error:[/red] " ++ Console.escape text)
    return .code 1

/-- Removes paths one after the other, up to the first that is refused. -/
def rmEach (prune : Bool) : List String → Act κ Report
  | [] => return .success
  | path :: rest => do
    match ← rm path prune with
    | .success => rmEach prune rest
    | refused => return refused

variable [Program κ]

def perform : Request → Act κ Exit
  | .help => do
    writeLine helpText
    return .code 0
  | .listMatches pattern mode => do
    let paths ← listMatches pattern mode
    return .code (if paths.isEmpty then 1 else 0)
  | .run line => do return .code (← runQuietly line)
  | .iorun line => do return .code (if ← runAndShow line then 0 else 1)
  | .jobs lines limit => do
    let tally ← runCommands lines limit
    return .code (if tally.failed = 0 then 0 else 1)
  | .cp paths => do exitReport (← cp paths)
  | .mv source target => do exitReport (← mv source target)
  | .rm paths prune => do exitReport (← rmEach prune paths)
  | .diagnose => do
    diagnose neededPrograms
    return .code 0

/-- Runs a command line. -/
def commandLine (line : List String) : Act κ Exit := do
  match Invocation.read? line with
  | none => return .misuse
  | some .version => do
    print versionText
    return .code 0
  | some .help => perform .help
  | some (.command verbose request) => do
    if verbose then setVariable verboseVariable (some "1")
    match request with
    | some request => perform request
    | none => return .misuse

end Act

end BuildRunner
