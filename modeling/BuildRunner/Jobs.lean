import BuildRunner.Execution.Blocking
import BuildRunner.Task

/-!
# Reports on the console

Listing matches, running one command line or several of them at a time, and looking for the
programs that builds need.  Each action writes its report to the console; a command that fails never
keeps the others from running.
-/

namespace BuildRunner

/-- The programs that `diagnose` looks for. -/
def neededPrograms : List String := ["cc", "gcc", "clang", "ar", "make", "ninja", "windres"]

/-- How many commands have succeeded, and how many have failed. -/
structure Tally where
  succeeded : Nat := 0
  failed : Nat := 0
deriving DecidableEq, Repr, Inhabited

/-- The combined output of a failed run; none for a run that has succeeded. -/
def JobResult.failure? : JobResult → Option String
  | .status code => if code = successCode then none else some ""
  | .output code text => if code = successCode then none else some text
  | .verdict errors => errors
  | .streams ok _ err => if ok then none else some err

/-- The failure of a task, as far as it is a run. -/
def TaskResult.failure? : TaskResult → Option String
  | .run result => result.failure?
  | _ => none

/-- The tally of runs by their failures. -/
def Tally.ofFailures (failures : List (Option String)) : Tally :=
  { succeeded := failures.countP Option.isNone
    failed := failures.countP Option.isSome }

namespace Act

variable {κ : Type}

/-- Writes a text and ends its line. -/
def writeLine (text : String) : Act κ Unit := write (text ++ "\n")

/-- Lists the paths that a pattern describes, one a line. -/
def listMatches (pattern : String) (mode : Glob.Mode) : Act κ (List String) := do
  let paths ← matchPaths pattern mode
  paths.forM writeLine
  return paths

/-- Reports a failed command, with its output if there is any. -/
def reportFailure (command errors : String) : Act κ Unit := do
  print ("[red]FAILED:[/red] " ++ Console.escape command)
  if !errors.isEmpty then writeLine (String.ofList (Text.dropTrailing errors.toList))

/-- Reports whether a command has failed. -/
def printVerdict (command : String) (failure : Option String) : Act κ Unit := do
  match failure with
  | none => print ("[green]OK:[/green] " ++ Console.escape command)
  | some errors => reportFailure command errors

def reportTally (tally : Tally) : Act κ Unit := do
  writeLine ""
  print "[bold]Summary[/bold]"
  print ("Succeeded: " ++ toString tally.succeeded)
  print ("Failed:    " ++ toString tally.failed)

/-- Reports where each program is found. -/
def diagnose (programs : List String) : Act κ Unit := do
  print "[bold]buildos diagnose[/bold]"
  programs.forM fun name => do
    let m ← get
    let found := m.disk.locateProgram m.environment name []
    let place := match found with
      | some path => if path.isEmpty then "missing" else Console.escape path
      | none => "missing"
    print (name ++ ": " ++ place)

variable [Program κ]

/-- Runs a command line and gives its exit code; its output is shown only if it fails. -/
def runQuietly (command : String) : Act κ Int := do
  match ← runBlocking { wanted := .output, target := .line command } with
  | .output code text => do
    if code ≠ successCode then reportFailure command text
    return code
  | _ => return failureCode

/-- Runs a command line and writes its two outputs; tells whether it has succeeded. -/
def runAndShow (command : String) : Act κ Bool := do
  match ← runBlocking { wanted := .streams, target := .line command } with
  | .streams ok out err => do
    if !out.isEmpty then write out
    if !err.isEmpty then writeErr err
    return ok
  | _ => return false

/-- Runs command lines as tasks, at most `limit` at a time, and reports on each of them. -/
def runCommands (commands : List String) (limit : Option Int) : Act κ Tally := do
  let jobs := commands.map fun command =>
    Task.job { wanted := .verdict, target := .line command }
  let failures := (← runTogether jobs limit).map TaskResult.failure?
  (commands.zip failures).forM fun (command, failure) => printVerdict command failure
  let tally := Tally.ofFailures failures
  reportTally tally
  return tally

end Act

end BuildRunner
