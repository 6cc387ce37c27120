import BuildRunner.Execution.Job

/-!
# Blocking runs

A blocking run waits for its program without letting other tasks run.  Doing so within a cooperative
task is possible and draws a warning.
-/

namespace BuildRunner.Act

variable {κ : Type} [Program κ]

def warnBlocking (program : String) : Act κ Unit :=
  printErr ("[yellow]buildos: blocking wait for " ++ Console.escape program ++
    " inside a cooperative task; use executev_async to keep other tasks running[/yellow]")

/-- Runs a program to its end and gives its exit code. -/
def runToEnd (program : String) (argv : List String) (out err : Sink) : Act κ Int := do
  match ← startTraced program argv out err with
  | none => return failureCode
  | some id =>
    let result ← ensuring
      (do
        if (← get).inTask then warnBlocking program
        guardedWait id .forever)
      (close id)
    return result.exitCode

/-- Runs a job to its end. -/
def runBlocking (job : Job) : Act κ JobResult := do
  match ← prepare job with
  | .inl result => return result
  | .inr call =>
    ensuring
      (do
        let code ← runToEnd call.program call.argv call.out call.err
        collect call code)
      (cleanUp call)

end BuildRunner.Act
