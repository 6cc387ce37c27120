import BuildRunner.Shell.Session

/-!
# Commands that direct the flow

These commands leave loops, functions, files and the shell.
-/

namespace BuildRunner.Shell

namespace Script

/-- Leaves loops, or goes on with the next round of one. -/
def leaveLoops (goesOn : Bool) (arguments : List String) : Script Nat := do
  let count ← arguments.head?.elim (pure 1) number
  if count = 0 then fault ["Illegal number: ", arguments.headD ""]
  let loops := (← get).loops
  if 0 < loops then
    modify fun s =>
      { s with skip := if goesOn then .continue else .break, skipCount := min count loops }
  return 0

def returnCommand (arguments : List String) : Script Nat := do
  let status ← arguments.head?.elim (do return (← get).status) number
  modify fun s => { s with skip := .return !arguments.isEmpty }
  return status

/-- Ends the shell; without a status of its own, a trap keeps the status before it. -/
def exitCommand (arguments : List String) : Script Nat := do
  let session ← get
  let status ← arguments.head?.elim (pure (session.interrupted.getD session.status)) number
  setStatus status
  throw .finish

end Script

end BuildRunner.Shell
