import BuildRunner.Shell.Dialogue
import BuildRunner.Shell.Narrow
import BuildRunner.Shell.ShownName

/-!
# Tools

A tool is a small program that scripts call.  It complains under the name by which it was called,
and it goes on after most complaints, but fails in the end.  What it puts out is written before the
next complaint, and when it ends.
-/

namespace BuildRunner.Shell

structure ToolState where
  name : String
  hasFailed : Bool := false
  /-- Whether a complaint could not be written. -/
  isMute : Bool := false
  output : String := ""
  /-- What was read from the input and not used yet. -/
  typed : List Char := []
  /-- Whether the input could not be read. -/
  hasLostInput : Bool := false

abbrev Tool := StateT ToolState Dialogue

namespace Tool

def ask (request : Request) : Tool request.Answer := StateT.lift (Dialogue.request request)

def out (text : String) : Tool Unit := modify fun s => { s with output := s.output ++ text }

/-- Writes a text to the error output. -/
def say (text : String) : Tool Unit := do
  match ← ask (.write 2 (bytesOf text)) with
  | .ok () => pure ()
  | .error _ => modify fun s => { s with isMute := true }

/-- Writes a text to the error output, behind the name of the tool. -/
def prompt (parts : List String) : Tool Unit := do
  let name := (← get).name
  say (String.join (name :: ": " :: parts))

/-- Writes what the tool has put out, which is kept if that is not possible. -/
def flush : Tool (Except Errno Unit) := do
  let text := (← get).output
  if text.isEmpty then return .ok ()
  match ← ask (.write 1 (bytesOf text)) with
  | .ok () =>
    modify fun s => { s with output := "" }
    return .ok ()
  | .error code => return .error code

/-- Writes a text to the error output, behind the name of the tool and after its output. -/
def remark (parts : List String) : Tool Unit := do
  discard flush
  prompt parts

/-- A remark after which the tool fails in the end. -/
def complain (parts : List String) : Tool Unit := do
  remark (parts ++ ["\n"])
  modify fun s => { s with hasFailed := true }

/-- What a complaint about an output says. -/
def unwritten (code : Errno) : List String := ["write error: ", code.wording]

/-- Ends the tool, which fails if a complaint could not be written. -/
def finish {α : Type} (status : Nat) : Tool α := do
  match ← flush with
  | .ok () =>
    let isMute := (← get).isMute
    StateT.lift (.exit (if isMute then 1 else status))
  | .error code =>
    prompt (unwritten code ++ ["\n"])
    StateT.lift (.exit 1)

/-- A complaint that ends the tool. -/
def fail {α : Type} (parts : List String) : Tool α := do
  complain parts
  finish 1

/-- Ends a tool that was called wrongly, with a hint. -/
def giveHint {α : Type} : Tool α := do
  let name := (← get).name
  say ("Try '" ++ name ++ " --help' for more information.\n")
  finish 1

/-- A complaint about the call of a tool. -/
def misused {α : Type} (parts : List String) : Tool α := do
  complain parts
  giveHint

/-- The dialogue of a tool that was called by a name. -/
def dialogue (name : String) (tool : Tool Unit) : Dialogue Nat := do
  let ((), _) ← StateT.run
    (do
      tool
      let failed := (← get).hasFailed
      finish (if failed then 1 else 0))
    { name }
  return 0

end Tool

end BuildRunner.Shell
