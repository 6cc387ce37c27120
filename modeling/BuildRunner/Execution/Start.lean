import BuildRunner.Command.Split
import BuildRunner.Files

/-!
# Starting programs and waiting for them

A program is started with a sink for each of its outputs.  A path is opened for it and belongs to
the handle, which closes it; a path that both outputs name is opened once.  A start that fails is
reported on the error output and releases what it had opened.
-/

namespace BuildRunner

/-- Where an output of a program goes. -/
inductive Sink
  | inherit
  | path (path : String)
  /-- An open file that belongs to the caller. -/
  | file (index : Nat)
deriving DecidableEq, Repr, Inhabited

namespace Act

variable {κ : Type} [Program κ]

/-- Opens a sink.  A path becomes an open file that is held until it is released. -/
def openOutput : Sink → Act κ (Option Nat)
  | .inherit => return none
  | .file index => return some index
  | .path path => do
    if Disk.hasNul path then throw .nullByte
    match (← get).disk.openFile false path with
    | .error code => throw (.system code (some path) none)
    | .ok (disk, index) =>
      modify fun m => { m with disk, held := m.held ++ [index] }
      return some index

/-- Opens a file for writing at its end.  It belongs to the caller, so no handle closes it. -/
def openAppending (path : String) : Act κ Sink := do
  match (← get).disk.openFile true path with
  | .error code => throw (.system code (some path) none)
  | .ok (disk, index) =>
    modify fun m => { m with disk }
    return .file index

/-- A new handle for a program that gives a fixed list of answers. -/
def openScripted (program : String) (answers : List Answer) : Act κ Nat := do
  let handle : Handle := { program, source := .script answers, owned := [] }
  let m ← get
  set { m with handles := m.handles ++ [handle] }
  return m.handles.length

/-- Loads a program and makes the handle that owns the given open files. -/
def launch (program : String) (argv : List String) (out err : Option Nat) (owned : List Nat) :
    Act κ Nat := do
  if (program :: argv).any Disk.hasNul then throw .nullByte
  let m ← get
  let loaded : Except Errno (Disk × κ) :=
    Program.load m.disk m.environment (program :: argv) out err
  match loaded with
  | .error code => throw (.system code (some program) none)
  | .ok (disk, loaded) =>
    let handle : Handle := { program, source := .program m.programs.length, owned }
    set { m with
      disk
      programs := m.programs ++ [loaded]
      handles := m.handles ++ [handle] }
    return m.handles.length

/-- Opens the outputs of a program and launches it on them. -/
def openAndLaunch (program : String) (argv : List String) (out err : Sink) : Act κ Nat := do
  let before := (← get).held
  let outFile ← openOutput out
  let shared := match err with
    | .path _ => err == out
    | _ => false
  let errFile ← if shared then pure outFile else openOutput err
  let owned := (← get).held.drop before.length
  launch program argv outFile errFile owned

/-- Starts a program; none where it cannot be started. -/
def start (program : String) (argv : List String) (out err : Sink) : Act κ (Option Nat) := do
  let before := (← get).held
  try some <$> openAndLaunch program argv out err
  catch failure =>
    if failure.isSystem || failure = .nullByte then
      modify fun m => { m with held := before }
      remark ("cannot start " ++ Console.escape program ++ ": " ++ Console.escape failure.message)
      pure none
    else throw failure

/-- Starts a program with its arguments expanded. -/
def startTraced (program : String) (argv : List String) (out err : Sink) : Act κ (Option Nat) := do
  let arguments ← expandArguments argv
  if ← verbose then
    remark ("exec " ++ Console.escape (Command.join (program :: arguments)))
  start program arguments out err

def handleAt (id : Nat) : Act κ Handle := do return ((← get).handles[id]?).getD default

def setHandle (id : Nat) (handle : Handle) : Act κ Unit :=
  modify fun m => { m with handles := m.handles.set id handle }

/-- Lets the machine run for as long as a wait for a program lasts. -/
def waitOnMachine (index : Nat) (patience : Patience) : Act κ Unit :=
  modify fun m =>
    match patience with
    | .poll => m
    | .forever => (m.awaitEnd index).getD m
    | .upTo n => m.await index n

def remarkWaitFailed (program text : String) : Act κ Unit :=
  remark ("wait failed for " ++ Console.escape program ++ ": " ++ Console.escape text)

/-- Takes an answer of the program of a handle for the next one. -/
def takeAnswer (id : Nat) (handle : Handle) (now : Answer) : Act κ WaitResult := do
  let (handle, answer) := handle.consume now
  setHandle id handle
  match answer with
  | .exited code => return .ofCode code
  | .running => return ⟨.pending, none⟩
  | .refused text =>
    remarkWaitFailed handle.program text
    return .unusable
  | .broken text => throw (.waitBroken text)

/-- Waits for the program of a handle. -/
def wait (id : Nat) (patience : Patience) : Act κ WaitResult := do
  let handle ← handleAt id
  if handle.closed then throw (.waitOnClosed handle.program)
  match handle.source with
  | .program index =>
    waitOnMachine index patience
    takeAnswer id handle ((← get).answerOf index)
  | .script _ => takeAnswer id handle .running

/-- Waits for the program of a handle; a failure of the wait counts as no usable status. -/
def guardedWait (id : Nat) (patience : Patience) : Act κ WaitResult := do
  try wait id patience
  catch failure =>
    remarkWaitFailed (← handleAt id).program failure.message
    pure .unusable

/-- Closes a handle and the open files that it owns. -/
def close (id : Nat) : Act κ Unit := do
  modify fun m => { m with closings := m.closings ++ [id] }
  match (← handleAt id).close with
  | .error failure => throw failure
  | .ok (handle, owned) =>
    setHandle id handle
    modify fun m => { m with held := m.held.filter (!owned.contains ·) }

end Act

end BuildRunner
