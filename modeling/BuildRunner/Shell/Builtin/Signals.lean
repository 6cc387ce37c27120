import BuildRunner.Shell.Builtin.Options
import BuildRunner.Shell.Children
import BuildRunner.Shell.Signal

/-!
# Commands about signals and children

These commands send signals and say what is done when one comes, and wait for children that were
left running.
-/

namespace BuildRunner.Shell

namespace Script

/-- The signal that a text names by its number or name. -/
def signal? (text : String) : Option Nat :=
  if !text.isEmpty && text.toList.all Char.isDigit then text.toNat?.filter (· ≤ Signal.greatest)
  else Signal.ofName? text

/-! ### Traps -/

def listTraps : Script Unit := do
  let traps := (← get).traps
  (List.range (Signal.greatest + 1)).forM fun number => do
    match traps.lookup number, Signal.name? number with
    | some text, some name => out ("trap -- " ++ quotedWord text ++ " " ++ name ++ "\n")
    | _, _ => return

/-- Says what is done when a signal comes; without an action, the usual thing. -/
def setTrap (number : Nat) (action : Option String) : Script Unit := do
  modify fun s =>
    let others := s.traps.filter fun trap => trap.1 != number
    { s with traps := action.toList.map (number, ·) ++ others }
  if number != 0 && !(← get).deafTo.contains number then
    let reaction : Reaction := match action with
      | none => .usual
      | some "" => .ignores
      | some _ => .notes
    ask (.react number reaction)

/-- Sets the traps of some signals, up to the first one that there is not. -/
def setTraps (action : Option String) : List String → Script Nat
  | [] => return 0
  | name :: rest => do
    match signal? name with
    | none =>
      say 2 ("trap: " ++ name ++ ": bad trap\n")
      return 1
    | some number =>
      setTrap number action
      setTraps action rest

def trapCommand (arguments : List String) : Script Nat := do
  match ← operands arguments with
  | [] =>
    listTraps
    return 0
  | [name] => setTraps none [name]
  | action :: names =>
    if !action.isEmpty && action.toList.all Char.isDigit && (signal? action).isSome then
      setTraps none (action :: names)
    else setTraps (if action = "-" then none else some action) names

/-! ### Sending signals -/

def killUsage : String :=
  "Usage: kill [-s sigspec | -signum | -sigspec] [pid | job]... or\nkill -l [exitstatus]"

/-- The children of a job that is named by its number or its place; none where it is not known. -/
def job? (name : String) : Script (Option (List Nat)) := do
  let batches := (← get).batches
  match name.toList.drop 1 with
  | [] | ['%'] | ['+'] => return batches.getLast?
  | ['-'] => return batches.dropLast.getLast?
  | digits =>
    match (String.ofList digits).toNat? with
    | some (n + 1) => return batches[n]?
    | _ => return none

/-- Sends a signal to a target that a text names; tells whether that was possible. -/
def sendSignal (signal : Nat) (target : String) : Script Bool := do
  let targets ← match target.toList with
    | '%' :: _ =>
      match ← job? target with
      | some ids => pure (ids.map (Int.ofNat ·))
      | none => fault ["No such job: ", target]
    | '-' :: rest => do
      let n ← number (String.ofList rest)
      pure [-(n : Int)]
    | _ => do
      let n ← number target
      pure [(n : Int)]
  targets.foldlM (fun ok id => do
    match ← ask (.signal id signal) with
    | .ok () => return ok
    | .error code =>
      complain [code.wording, "\n"]
      return false) true

/-- Writes the names of signals, or that of one number or status. -/
def listSignals : List String → Script Nat
  | [] => do
    out "0\n"
    Signal.names.forM fun name => out (name ++ "\n")
    return 0
  | text :: _ => do
    let n ← number text
    let n := if 128 < n then n - 128 else n
    match n, Signal.name? n with
    | 0, _ | _, none => fault ["invalid signal number or exit status: ", text]
    | _, some name =>
      out (name ++ "\n")
      return 0

/-- The signal, whether signals are to be listed, and the targets of `kill`. -/
def killOptions (arguments : List String) : Script (Option Nat × Bool × List String) := do
  match arguments with
  | [] => fault [killUsage]
  | first :: rest =>
    match first.toList with
    | '-' :: name =>
      match (signal? (String.ofList name)).filter fun n => n != 0 || name.all Char.isDigit with
      | some signal => return (some signal, false, rest)
      | none =>
        let (letters, rest) ← options "ls:" arguments
        let signal ← letters.foldlM (fun found (letter, value) => do
          if letter = 'l' then return found
          match (signal? value).filter fun n => n != 0 || value = "0" with
          | some signal => return some signal
          | none => fault ["invalid signal number or name: ", value]) none
        return (signal, letters.any fun l => l.1 == 'l', rest)
    | _ => return (none, false, arguments)

def killCommand (arguments : List String) : Script Nat := do
  let (signal, lists, targets) ← killOptions arguments
  if lists then
    if signal.isSome then fault [killUsage]
    listSignals targets
  else if targets.isEmpty then fault [killUsage]
  else
    let signal := signal.getD Signal.terminate
    targets.foldlM (fun status target => do
      return if ← sendSignal signal target then status else 1) 0

/-! ### Children -/

/-- The status of a wait that a signal has ended. -/
def interruptedStatus : Script Nat := do
  let noted ← ask .noted
  modify fun s => { s with noted := s.noted ++ noted }
  return 128 + ((← get).noted.foldl min Signal.greatest)

/-- Waits for children that are named, one after the other; the status is that of the last one. -/
def waitForEach (status : Nat) : List String → Script Nat
  | [] => return status
  | target :: rest => do
    let ids ← match target.toList with
      | '%' :: _ =>
        match ← job? target with
        | some ids => pure (some ids)
        | none => fault ["No such job: ", target]
      | _ => do
        let id ← number target
        pure ((← get).batches.find? fun ids => ids.getLast? == some id)
    match ids with
    | none => waitForEach status rest
    | some ids =>
      match ← await true true childLimit ids with
      | .interrupted => interruptedStatus
      | .ended => waitForEach (← batchStatus ids) rest

def waitCommand (arguments : List String) : Script Nat := do
  let targets ← operands arguments
  if targets.isEmpty then
    match ← await true false childLimit (← get).batches.flatten with
    | .interrupted => interruptedStatus
    | .ended => return 0
  else waitForEach 127 targets

/-- Jobs cannot be brought to the front or sent to the back here. -/
def jobControlCommand (arguments : List String) : Script Nat := do
  match arguments.head? with
  | some name => fault ["No such job: ", name]
  | none =>
    if (← get).batches.isEmpty then fault ["No current job"]
    else fault ["job not created under job control"]

def timesCommand : Script Nat := do
  out "0m0.000000s 0m0.000000s\n0m0.000000s 0m0.000000s\n"
  return 0

def ulimitCommand (arguments : List String) : Script Nat := do
  let (letters, rest) ← options "HSatfdscmlpnvwr" arguments
  let letter := ((letters.map Prod.fst).filter fun c => c != 'H' && c != 'S').getLast?.getD 'f'
  if rest.isEmpty && letter != 'a' then
    out ((if letter = 'c' || letter = 'r' then "0" else "unlimited") ++ "\n")
  return 0

end Script

end BuildRunner.Shell
