import BuildRunner.Execution.Start

/-!
# Jobs

A job is a run of a program, given by its name and arguments or by a command line, together with
what is wanted of it: its exit code, its output, a verdict, or its two outputs apart.  Output is
captured in scratch files.  `prepare` says what a job has to start, `collect` makes the result of
its exit code, and `cleanUp` removes the scratch files.
-/

namespace BuildRunner

/-- What is wanted of a run. -/
inductive Wanted
  | status
  | output
  | verdict
  | streams
deriving DecidableEq, Repr, Inhabited

/-- What a run has given. -/
inductive JobResult
  | status (code : Int)
  | output (code : Int) (text : String)
  /-- The combined output, if the run has failed. -/
  | verdict (errors : Option String)
  | streams (ok : Bool) (out err : String)
deriving DecidableEq, Repr, Inhabited

/-- The program of a job. -/
inductive Target
  | line (command : String)
  | program (name : String) (argv : List String)
deriving DecidableEq, Repr, Inhabited

structure Job where
  wanted : Wanted
  target : Target
  /-- The sinks; captured outputs do not use them. -/
  out : Sink := .inherit
  err : Sink := .inherit
deriving DecidableEq, Repr, Inhabited

/-- The exit code of a run that succeeded. -/
def successCode : Int := 0

/-- The verdict on a run. -/
def JobResult.ofRun (code : Int) (output : String) : JobResult :=
  .verdict (if code = successCode then none else some output)

/-- The result of a command line that is not one. -/
def Wanted.invalid (wanted : Wanted) (command : String) : JobResult :=
  let message := "invalid command: " ++ command
  match wanted with
  | .status => .status failureCode
  | .output => .output failureCode message
  | .verdict => .verdict (some message)
  | .streams => .streams false "" message

/-- Where the output of a run is captured. -/
inductive Capture
  | nowhere
  | joined (log : String)
  | apart (out err : String)
deriving DecidableEq, Repr, Inhabited

/-- A job that is ready to be started. -/
structure Call where
  wanted : Wanted
  program : String
  argv : List String
  capture : Capture
  out : Sink
  err : Sink
deriving DecidableEq, Repr, Inhabited

/-- The program and the arguments of a job; none for a command line that is not one. -/
def Target.words? : Target → Option (String × List String)
  | .program name argv => some (name, argv)
  | .line command => (Command.parse command).map fun words => (words.headD "", words.drop 1)

/-- The exit code with what was captured of the output. -/
def Wanted.result (wanted : Wanted) (code : Int) (first second : String) : JobResult :=
  match wanted with
  | .status => .status code
  | .output => .output code first
  | .verdict => .ofRun code first
  | .streams => .streams (code = successCode) first second

namespace Act

variable {κ : Type}

/-- Names the scratch files of a run. -/
def prepareCapture (wanted : Wanted) : Act κ Capture := do
  match wanted with
  | .status => return .nowhere
  | .output | .verdict => return .joined (← scratchPath)
  | .streams => do
    let out ← scratchPath
    let err ← scratchPath
    return .apart out err

/-- What a job has to start, or its result where there is nothing to start. -/
def prepare (job : Job) : Act κ (JobResult ⊕ Call) := do
  match job.target.words? with
  | none =>
    match job.target with
    | .line command => return .inl (job.wanted.invalid command)
    | .program .. => return .inl (job.wanted.invalid "")
  | some (program, argv) =>
    let capture ← prepareCapture job.wanted
    let (out, err) := match capture with
      | .nowhere => (job.out, job.err)
      | .joined log => (.path log, .path log)
      | .apart out err => (.path out, .path err)
    return .inr { wanted := job.wanted, program, argv, capture, out, err }

/-- The text of a scratch file; a file that was never made is empty. -/
def readText (path : String) : Act κ String := do
  match (← get).disk.read path with
  | .ok bytes => return String.ofList (Text.decode bytes)
  | .error .notFound => return ""
  | .error code => throw (.system code (some path) none)

/-- The result of a run from its exit code and what was captured. -/
def collect (call : Call) (code : Int) : Act κ JobResult := do
  match call.capture with
  | .nowhere => return call.wanted.result code "" ""
  | .joined log => return call.wanted.result code (← readText log) ""
  | .apart out err => do
    let first ← readText out
    let second ← readText err
    return call.wanted.result code first second

/-- Removes the scratch files of a run. -/
def cleanUp (call : Call) : Act κ Unit := do
  match call.capture with
  | .nowhere => return
  | .joined log => discard (rm log false)
  | .apart out err => do
    discard (rm out false)
    discard (rm err false)

end Act

end BuildRunner
