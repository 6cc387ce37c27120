import BuildRunner.Failure
import BuildRunner.Number.Reading

/-!
# Settings

Settings are read from the environment whenever they are needed, so that a change of the
environment takes effect at once.
-/

namespace BuildRunner

open BuildRunner.Number

/-- The variables of the environment, each with its value. -/
abbrev Environment := List (String × String)

namespace Environment

/-- The environment with a variable set, or removed. -/
def update (environment : Environment) (name : String) (value : Option String) : Environment :=
  let rest := environment.filter fun e => e.1 != name
  match value with
  | some value => rest ++ [(name, value)]
  | none => rest

end Environment

def tmpdirVariable : String := "BUILDOS_TMPDIR"

def intervalVariable : String := "BUILDOS_POLL_INTERVAL"

def verboseVariable : String := "BUILDOS_VERBOSE"

/-- The interval between two polls of a program, in seconds: a hundredth. -/
def defaultInterval : Binary64 := Binary64.ofDecimal false 1 (-2)

/-- The poll interval that a variable asks for. -/
def pollInterval (raw : Option String) : Except Failure Binary64 :=
  match raw with
  | none => .ok defaultInterval
  | some raw =>
    if (Text.trim raw.toList).isEmpty then .ok defaultInterval
    else
      match Binary64.ofString? raw with
      | none => .error (.pollNotNumber raw)
      | some x => if x.isNegative then .error (.pollNegative raw) else .ok x

/-- The words that switch a setting on. -/
def trueWords : List String := ["1", "true", "yes", "on"]

/-- Whether matches and started programs are traced. -/
def asksForTrace (environment : Environment) : Bool :=
  let raw := (environment.lookup verboseVariable).getD ""
  trueWords.contains (String.ofList ((Text.trim raw.toList).map Char.toLower))

structure Settings where
  /-- The directory for scratch files, unless it is the system's. -/
  tmpdir : Option String
  pollInterval : Binary64
  verbose : Bool

def Settings.read (environment : Environment) : Except Failure Settings := do
  let interval ← BuildRunner.pollInterval (environment.lookup intervalVariable)
  let tmpdir := (environment.lookup tmpdirVariable).bind fun s => if s.isEmpty then none else some s
  .ok { tmpdir, pollInterval := interval, verbose := asksForTrace environment }

end BuildRunner
