import BuildRunner.CommandLine.Arguments
import BuildRunner.Glob.Mode
import BuildRunner.Number.Reading

/-!
# Requests on the command line

A command line names a command, with options of its own before the name.  `Invocation.read?` takes
the command line apart; what it means to the command is a `Request`.
-/

namespace BuildRunner.CommandLine

/-- What a command is asked to do. -/
inductive Request
  | help
  | listMatches (pattern : String) (mode : Glob.Mode)
  | run (line : String)
  | iorun (line : String)
  | jobs (lines : List String) (limit : Option Int)
  | cp (paths : List String)
  | mv (source target : String)
  | rm (paths : List String) (prune : Bool)
  | diagnose
deriving DecidableEq, Repr

inductive Command
  | listMatches
  | run
  | iorun
  | jobs
  | cp
  | mv
  | rm
  | diagnose
deriving DecidableEq, Repr

namespace Command

def name : Command → String
  | .listMatches => "match"
  | .run => "run"
  | .iorun => "iorun"
  | .jobs => "jobs"
  | .cp => "cp"
  | .mv => "mv"
  | .rm => "rm"
  | .diagnose => "diagnose"

def all : List Command := [.listMatches, .run, .iorun, .jobs, .cp, .mv, .rm, .diagnose]

def ofName? (name : String) : Option Command := all.find? fun command => command.name == name

def helpSwitch : Switch := { name := "help" }

/-- The options of a command. -/
def switches : Command → List Switch
  | .listMatches => [{ name := "mode", letter := some 'm', takesValue := true }, helpSwitch]
  | .jobs => [{ name := "jobs", letter := some 'j', takesValue := true }, helpSwitch]
  | .rm => [{ name := "prune-empty" }, helpSwitch]
  | _ => [helpSwitch]

/-- The limit that `jobs` is given: a number that is not negative, where zero is no limit. -/
def limit? (arguments : Arguments) : Option (Option Int) := do
  let limit ← Number.integer? ((arguments.value? "jobs").getD "0")
  if limit < 0 then none
  else some (if limit = 0 then none else some limit)

/-- The request that a command and its arguments make; none if they are misused. -/
def request? (command : Command) (arguments : Arguments) : Option Request :=
  if arguments.has "help" then some .help
  else
    match command, arguments.operands with
    | .listMatches, [pattern] =>
      (Glob.Mode.ofLetter? ((arguments.value? "mode").getD "f")).map (.listMatches pattern)
    | .run, [line] => some (.run line)
    | .iorun, [line] => some (.iorun line)
    | .jobs, line :: lines => (limit? arguments).map (.jobs (line :: lines))
    | .cp, path :: paths => some (.cp (path :: paths))
    | .mv, [source, target] => some (.mv source target)
    | .rm, path :: paths => some (.rm (path :: paths) (arguments.has "prune-empty"))
    | .diagnose, [] => some .diagnose
    | _, _ => none

/-- The request that the arguments behind the name of a command make. -/
def read? (command : Command) (arguments : List String) : Option Request := do
  command.request? (← Arguments.read? command.switches true arguments)

end Command

/-- A command line that names a known command, or asks for something instead. -/
inductive Invocation
  | version
  | help
  /-- The request is missing if the command is misused. -/
  | command (verbose : Bool) (request : Option Request)
deriving DecidableEq, Repr

namespace Invocation

/-- The options before the name of the command. -/
def switches : List Switch :=
  [{ name := "verbose", letter := some 'v' }, { name := "version" }, Command.helpSwitch]

/-- The first option that asks for something instead of a command. -/
def instead? (arguments : Arguments) : Option Invocation :=
  arguments.options.firstM fun (name, _) =>
    if name = "version" then some .version
    else if name = "help" then some .help
    else none

/-- Takes a command line apart; none if it names no known command. -/
def read? (line : List String) : Option Invocation := do
  let arguments ← Arguments.read? switches false line
  match instead? arguments, arguments.operands with
  | some invocation, _ => some invocation
  | none, [] => none
  | none, name :: rest => do
    let found ← Command.ofName? name
    some (.command (arguments.has "verbose") (found.read? rest))

end Invocation

end BuildRunner.CommandLine
