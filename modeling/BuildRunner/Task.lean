import BuildRunner.Disk.Entry
import BuildRunner.Execution.Cooperative
import BuildRunner.Schedule.Loop

/-!
# Cooperative tasks

A task runs a job, reports the steps that it takes, or does some file operations after it has let
the other tasks go first.  Tasks take turns: one goes on where another one suspends.
-/

namespace BuildRunner

/-- A file operation of a task. -/
inductive Chore
  /-- Changes directory without remembering the one before. -/
  | enter (directory : String)
  | cd (directory : String)
  | rm (path : String) (prune : Bool)
  | make (base : String) (entry : Entry)
deriving Inhabited

inductive Task
  | job (job : Job)
  /-- Suspends a number of times and logs each time it goes on; at its end it may abort with a
  message. -/
  | steps (name : String) (count : Nat) (abort : Option String)
  /-- Suspends once and then does its chores. -/
  | after (chores : List Chore)
deriving Inhabited

inductive TaskResult
  | run (result : JobResult)
  | name (name : String)
  | nothing
deriving DecidableEq, Repr, Inhabited

/-- Where a task stands between two turns. -/
inductive TaskState
  | fresh (task : Task)
  | waiting (waiting : Waiting)
  /-- The number of steps that were logged, and of those to come. -/
  | stepping (name : String) (logged left : Nat) (abort : Option String)
  | choring (chores : List Chore)
deriving Inhabited

open BuildRunner.Schedule

/-- What a turn of a run is for its task. -/
def Polled.progress : Polled → Progress TaskState TaskResult
  | .finished result => .ended (.run result)
  | .suspended delay waiting => .paused delay (.waiting waiting)

namespace Act

variable {κ : Type}

def log (line : String) : Act κ Unit := modify fun m => { m with trace := m.trace ++ [line] }

def runChore : Chore → Act κ Unit
  | .enter directory => onDisk (DiskM.change directory fun d => d.changeDirectory directory)
  | .cd directory => discard (cd directory)
  | .rm path prune => discard (rm path prune)
  | .make base entry => onDisk (DiskM.makeEntries base [entry])

/-- Goes on with the steps of a task after its last line has been logged. -/
def goOnStepping (name : String) (logged left : Nat) (abort : Option String) :
    Act κ (Progress TaskState TaskResult) := do
  match left, abort with
  | _ + 1, _ => return .paused (← suspension) (.stepping name logged left abort)
  | 0, some message => throw (.aborted message)
  | 0, none => do
    log (name ++ ":end")
    return .ended (.name name)

variable [Program κ]

/-- A turn of a task. -/
def turn : TaskState → Act κ (Progress TaskState TaskResult)
  | .fresh (.job job) => Polled.progress <$> beginJob job
  | .fresh (.steps name count abort) => do
    log (name ++ ":start")
    goOnStepping name 0 count abort
  | .fresh (.after chores) => return .paused (← suspension) (.choring chores)
  | .waiting waiting => Polled.progress <$> poll waiting
  | .stepping name logged left abort => do
    log (name ++ ":" ++ toString (logged + 1))
    goOnStepping name (logged + 1) (left - 1) abort
  | .choring chores => do
    chores.forM runChore
    return .ended .nothing

/-- Ends a task that is suspended. -/
def cancel : TaskState → Act κ Unit
  | .waiting waiting => abandon waiting
  | _ => return

/-- Runs an action as part of a task. -/
def insideTask {α : Type} (action : Act κ α) : Act κ α := do
  let before := (← get).inTask
  modify fun m => { m with inTask := true }
  ensuring action (modify fun m => { m with inTask := before })

/-- How tasks run on a machine. -/
def coroutine : Coroutine (Machine κ) TaskState TaskResult Failure where
  resume state m := (insideTask (turn state)).run m
  cancel state m := ((insideTask (cancel state)).run m).2

/-- The clock of a machine. -/
def clock : Clock (Machine κ) where
  now m := m.clock
  elapse := Machine.elapse

/-- Runs tasks to their end, at most `limit` at a time.  The results come in the order of the
tasks. -/
def runTogether (tasks : List Task) (limit : Option Int) : Act κ (List TaskResult) := do
  let (result, m) := Schedule.runPool coroutine clock (tasks.map .fresh) limit (← get)
  set m
  match result with
  | .ok results => return results
  | .error (some failure) => throw failure
  | .error none => throw .stalled

/-- Runs a job as the only task. -/
def runCooperative (job : Job) : Act κ JobResult := do
  match ← runTogether [.job job] none with
  | [.run result] => return result
  | _ => throw .stalled

end Act

end BuildRunner
