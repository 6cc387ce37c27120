import BuildRunner.Execution.Job

/-!
# Cooperative runs

A cooperative run polls its program and suspends between two polls, so that other tasks can go on.
They may change the current directory meanwhile; it is put back once the program has finished.
Whichever way a run ends, its handle is closed and its scratch files are removed.
-/

namespace BuildRunner

/-- A run that waits for its program. -/
structure Waiting where
  call : Call
  handle : Nat
  /-- The current directory at the start. -/
  saved : String
deriving DecidableEq, Repr, Inhabited

/-- What a turn of a run leads to. -/
inductive Polled
  | finished (result : JobResult)
  /-- The next turn comes after a number of milliseconds, if there is one. -/
  | suspended (delay : Option Nat) (waiting : Waiting)
deriving DecidableEq, Repr, Inhabited

/-- The length of the poll interval in milliseconds; an infinite one has none. -/
def Settings.pollDelay (settings : Settings) : Option Nat := settings.pollInterval.ceilUnits? 1000

namespace Act

variable {κ : Type}

/-- Runs the second action if the first one fails. -/
def onFailure {α : Type} (action : Act κ α) (final : Act κ Unit) : Act κ α := do
  try action
  catch failure =>
    final
    throw failure

/-- The delay of a task that suspends now. -/
def suspension : Act κ (Option Nat) := do return (← settings).pollDelay

/-- Puts the current directory back, with a remark if that is not possible. -/
def putBack (saved : String) : Act κ Unit := do
  try restore saved
  catch failure =>
    if failure.isSystem then
      remark ("cannot restore directory " ++ Console.escape saved ++ ": " ++
        Console.escape failure.message)
    else throw failure

/-- Ends the wait of a run. -/
def endWait (waiting : Waiting) : Act κ Unit :=
  ensuring (putBack waiting.saved) (close waiting.handle)

/-- Ends a run that has no result. -/
def abandon (waiting : Waiting) : Act κ Unit :=
  ensuring (endWait waiting) (cleanUp waiting.call)

variable [Program κ]

/-- Polls the program of a run. -/
def poll (waiting : Waiting) : Act κ Polled := do
  let polled ← onFailure
    (do
      let result ← guardedWait waiting.handle .poll
      if result.outcome = .pending then return Sum.inl (← suspension)
      else return Sum.inr result.exitCode)
    (abandon waiting)
  match polled with
  | .inl delay => return .suspended delay waiting
  | .inr code =>
    let result ← ensuring
      (do
        endWait waiting
        collect waiting.call code)
      (cleanUp waiting.call)
    return .finished result

/-- Starts a call and polls its program for the first time. -/
def beginCall (call : Call) : Act κ Polled := do
  match ← onFailure (startTraced call.program call.argv call.out call.err) (cleanUp call) with
  | none =>
    let result ← ensuring (collect call failureCode) (cleanUp call)
    return .finished result
  | some handle =>
    let saved ← onFailure currentPath (ensuring (close handle) (cleanUp call))
    poll { call, handle, saved }

/-- Starts a job as a cooperative run. -/
def beginJob (job : Job) : Act κ Polled := do
  match ← prepare job with
  | .inl result => return .finished result
  | .inr call => beginCall call

end Act

end BuildRunner
