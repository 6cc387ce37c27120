import BuildRunner.Shell.Dialogue
import BuildRunner.Shell.Integer
import BuildRunner.Shell.Narrow
import BuildRunner.Shell.Reader

/-!
# Sessions

A session is what a shell knows while it runs scripts: variables, functions, aliases, options, the
arguments, and where it is in its work.  A `Script` is a part of that work; it may change the
session, ask the system for something, and be broken off by a complaint or by the end of the shell.
-/

namespace BuildRunner.Shell

structure Variable where
  value : Option String := none
  isExported : Bool := false
  isReadOnly : Bool := false
deriving DecidableEq, Repr, Inhabited

/-- What the commands up to some point are passed over for. -/
inductive Skip
  | nothing
  | break
  | continue
  /-- The end of a function or a file; without a status of its own, the status before is kept. -/
  | return (hasStatus : Bool)
deriving DecidableEq, Repr, Inhabited

/-- What can be switched on and off in a shell. -/
inductive Setting
  | errexit
  | noglob
  | ignoreeof
  | interactive
  | monitor
  | noexec
  | stdin
  | xtrace
  | verbose
  | vi
  | emacs
  | noclobber
  | allexport
  | notify
  | nounset
  | privileged
  | nolog
  | debug
deriving DecidableEq, Repr, Inhabited

namespace Setting

/-- All settings, with their names and the letters that some of them have. -/
def table : List (Setting × String × Option Char) :=
  [(errexit, "errexit", 'e'), (noglob, "noglob", 'f'), (ignoreeof, "ignoreeof", 'I'),
    (interactive, "interactive", 'i'), (monitor, "monitor", 'm'), (noexec, "noexec", 'n'),
    (stdin, "stdin", 's'), (xtrace, "xtrace", 'x'), (verbose, "verbose", 'v'), (vi, "vi", 'V'),
    (emacs, "emacs", 'E'), (noclobber, "noclobber", 'C'), (allexport, "allexport", 'a'),
    (notify, "notify", 'b'), (nounset, "nounset", 'u'), (privileged, "privileged", 'p'),
    (nolog, "nolog", none), (debug, "debug", none)]

def letter? (setting : Setting) : Option Char := (table.lookup setting).bind Prod.snd

def ofLetter? (letter : Char) : Option Setting :=
  (table.find? fun entry => entry.2.2 == some letter).map Prod.fst

def ofName? (name : String) : Option Setting :=
  (table.find? fun entry => entry.2.1 == name).map Prod.fst

end Setting

structure Session where
  name : String
  /-- Whether the shell was made by another one to run a part of its script. -/
  isChild : Bool := false
  arguments : List String := []
  bindings : List (String × Variable) := []
  functions : List (String × Command) := []
  aliases : List (String × String) := []
  /-- The settings that are switched on, the last one of the table first. -/
  options : List Setting := []
  status : Nat := 0
  /-- The status of the last command that was run for its output. -/
  substituted : Nat := 0
  /-- The status before a trap, while the trap is run. -/
  interrupted : Option Nat := none
  skip : Skip := .nothing
  /-- The loops that are still to be left. -/
  skipCount : Nat := 0
  /-- The loops around the command. -/
  loops : Nat := 0
  /-- The line of the command, and the one that complaints name. -/
  line : Nat := 0
  /-- The line that has been read. -/
  reached : Nat := 0
  /-- The command that complains. -/
  complainer : Option String := none
  /-- The programs that have been found on the search path, and whether the directory has changed
  since. -/
  found : List (String × Bool) := []
  mask : Nat := 0o022
  /-- What the local variables of the functions that are being run were before. -/
  hidden : List (List (String × Option Variable)) := []
  /-- The settings before those functions that have settings of their own. -/
  hiddenOptions : List (Option (List Setting)) := []
  /-- The current directory as it was reached, and as the system knows it. -/
  directory : String := ""
  physical : Option String := none
  /-- The children that were left running, those of each command together. -/
  batches : List (List Nat) := []
  results : List (Nat × Int) := []
  lastInBackground : Option Nat := none
  number : Nat := 0
  /-- The commands that are run when a signal comes, or at the end, which has the number zero. -/
  traps : List (Nat × String) := []
  /-- The signals that were ignored when the shell was started, and remain so. -/
  deafTo : List Nat := []
  /-- Signals that were noted and whose traps are still to be run. -/
  noted : List Nat := []
  /-- What a command of the shell has written, as long as it has not ended. -/
  output : String := ""
  /-- The streams that redirections have replaced, with the numbers under which they were put
  aside; none where there was no stream. -/
  aside : List (List (Nat × Option Nat)) := []
  /-- The argument that options are read from next, and the place within the one before. -/
  optionIndex : Nat := 1
  optionOffset : Option Nat := none
  /-- The texts that redirections take from scripts, and the number of the next one. -/
  documents : List (Nat × Word) := []
  nextDocument : Nat := 0
deriving Inhabited

/-- What breaks a script off. -/
inductive Interrupt
  | fault
  | finish
deriving DecidableEq, Repr, Inhabited

abbrev Script := ExceptT Interrupt (StateT Session Dialogue)

namespace Script

def ask (request : Request) : Script request.Answer :=
  ExceptT.lift (StateT.lift (Dialogue.request request))

/-- Writes a text to a stream, whatever becomes of it. -/
def say (stream : Nat) (text : String) : Script Unit := do
  discard (ask (.write stream (bytesOf text)))

/-- Writes a text to the output of a command of the shell. -/
def out (text : String) : Script Unit := modify fun s => { s with output := s.output ++ text }

/-- Complains on the error output. -/
def complain (parts : List String) : Script Unit := do
  let session ← get
  let place := [session.name, ": ", toString session.line, ": "] ++
    session.complainer.elim [] fun command => [command, ": "]
  say 2 (String.join (place ++ parts ++ ["\n"]))

/-- The status of a fault. -/
def faultStatus : Nat := 2

def setStatus (status : Nat) : Script Unit := modify fun s => { s with status }

/-- Breaks the script off with a complaint. -/
def fault {α : Type} (parts : List String) : Script α := do
  complain parts
  setStatus faultStatus
  throw .fault

def hasOption (setting : Setting) : Script Bool := do return (← get).options.contains setting

/-- Switches a setting on or off. -/
def setOption (setting : Setting) (value : Bool) : Script Unit :=
  modify fun s =>
    let isOn (other : Setting) : Bool := if other = setting then value else s.options.contains other
    { s with options := ((Setting.table.map Prod.fst).filter isOn).reverse }

/-- What a script leaves behind: it runs to its end or is broken off. -/
def attempt {α : Type} (script : Script α) : Script (Except Interrupt α) := do
  try Except.ok <$> script catch interrupt => pure (Except.error interrupt)

/-- Runs the second script whether or not the first one is broken off. -/
def ensuring {α : Type} (script : Script α) (final : Script Unit) : Script α := do
  let result ← attempt script
  final
  match result with
  | .ok a => pure a
  | .error interrupt => throw interrupt

end Script

/-! ### Variables -/

namespace Session

def variableOf? (s : Session) (name : String) : Option Variable := s.bindings.lookup name

def value? (s : Session) (name : String) : Option String := (s.variableOf? name).bind Variable.value

/-- The session with a variable, or without it. -/
def putVariable (name : String) (new : Option Variable) (s : Session) : Session :=
  let others := s.bindings.filter fun v => v.1 != name
  { s with bindings := others ++ new.toList.map (name, ·) }

/-- The exported variables with values. -/
def environment (s : Session) : List (String × String) :=
  s.bindings.filterMap fun (name, v) => if v.isExported then v.value.map (name, ·) else none

/-- The characters that values are split at. -/
def separators (s : Session) : String := (s.value? "IFS").getD " \t\n"

/-- Where programs are searched for. -/
def path (s : Session) : String := (s.value? "PATH").getD ""

end Session

namespace Script

/-- The greatest number in an argument. -/
def greatestNumber : Int := 0x7fffffff

/-- A number in an argument. -/
def number (text : String) : Script Nat := do
  match whole? decimal? text.toList with
  | some n =>
    if 0 ≤ n && n ≤ greatestNumber then return n.toNat else fault ["Illegal number: ", text]
  | none => fault ["Illegal number: ", text]

/-- Notes a value that says where options are read next, or where programs are searched for. -/
def noteValue (name value : String) : Script Unit := do
  if name = "OPTIND" then
    let index ← number value
    modify fun s => { s with optionIndex := max 1 index, optionOffset := none }
  else if name = "PATH" then modify fun s => { s with found := [] }

/-- Sets a variable. -/
def setVariable (name value : String) : Script Unit := do
  let session ← get
  let old := (session.variableOf? name).getD {}
  if old.isReadOnly then fault [name, ": is read only"]
  noteValue name value
  let isExported := old.isExported || session.options.contains .allexport
  modify fun s => s.putVariable name (some { value := some value, isExported })

/-- Marks a variable, which may have no value. -/
def markVariable (name : String) (f : Variable → Variable) : Script Unit :=
  modify fun s => s.putVariable name (some (f ((s.variableOf? name).getD {})))

def exportVariable (name : String) : Script Unit :=
  markVariable name fun v => { v with isExported := true }

def unsetVariable (name : String) : Script Unit := do
  if ((← get).variableOf? name).any Variable.isReadOnly then fault [name, ": is read only"]
  noteValue name ""
  modify fun s => s.putVariable name none

/-- The name and the value of an assignment. -/
def splitAssignment (text : String) : String × Option String :=
  let name := text.toList.takeWhile (· != '=')
  (String.ofList name, (text.toList.drop name.length).tail?.map String.ofList)

/-- Sets a variable as an assignment says. -/
def assign (text : String) : Script Unit := do
  let (name, value) := splitAssignment text
  setVariable name (value.getD "")

/-- Makes a variable local to the function that is being run. -/
def hide (name : String) : Script Unit :=
  modify fun s =>
    match s.hidden with
    | [] => s
    | inner :: outer =>
      if inner.any fun entry => entry.1 == name then s
      else { s with hidden := ((name, s.variableOf? name) :: inner) :: outer }

/-- Gives the local variables that were set last back to what they were before. -/
def unhide : Script Unit := do
  match (← get).hidden with
  | [] => pure ()
  | inner :: outer =>
    modify fun s =>
      let options := (s.hiddenOptions.head?.join).getD s.options
      { s with hidden := outer, hiddenOptions := s.hiddenOptions.drop 1, options }
    inner.forM fun (name, old) => do
      modify fun s => s.putVariable name old
      if let some value := old.bind Variable.value then noteValue name value

/-- Runs a script whose local variables end with it. -/
def withLocals {α : Type} (script : Script α) : Script α :=
  ensuring
    (do
      modify fun s =>
        { s with hidden := [] :: s.hidden, hiddenOptions := none :: s.hiddenOptions }
      script)
    unhide

end Script

end BuildRunner.Shell
