import BuildRunner.Shell.Evaluation
import BuildRunner.Shell.Tool.Table

/-!
# Calls of the shell

The shell is a program: it is called with settings, with a command or the name of a script, and with
arguments for that.  Without a script it runs what its input holds.
-/

namespace BuildRunner.Shell

/-- The greatest number of commands and rounds of loops within a script. -/
def endlessWork : Nat := 0x40000000

namespace Script

/-! ### The variables at the start -/

/-- Marks the path that the environment gives to the current directory, if it does name it. -/
def knownDirectory (path : Option String) : Script (Option String) := do
  let d ← ask .disk
  return path.filter fun path =>
    Path.isAbsolute path && (d.sameEntry (widen path) ".").toOption.getD false

/-- Takes over the environment. -/
def takeEnvironment (environment : List (String × String)) : Script Unit := do
  let inherited := environment.filter fun entry => isName entry.1.toList
  let given (name : String) : Bool := inherited.any fun entry => entry.1 == name
  let usual := [("PS1", "# "), ("PS2", "> "), ("PS4", "+ "), ("PATH", standardPath)].filter
    fun entry => !given entry.1
  let own := [("IFS", " \t\n"), ("OPTIND", "1"), ("PPID", "1")]
  let plain (entry : String × String) : String × Variable := (entry.1, { value := some entry.2 })
  modify fun s => { s with bindings := (usual ++ own).map plain }
  (inherited.filter fun entry => !(own.lookup entry.1).isSome).forM fun (name, value) =>
    modify fun s => s.putVariable name (some { value := some value, isExported := true })
  (inherited.filter fun entry => (own.lookup entry.1).isSome).forM fun (name, _) =>
    exportVariable name
  noteDirectory (← knownDirectory (inherited.lookup "PWD"))

/-! ### The arguments of the call -/

/-- Reads the settings at the start of the arguments; the answer tells whether a command follows,
and holds what is left. -/
def callSettings : (fuel : Nat) → (hasCommand : Bool) → List String → Script (Bool × List String)
  | 0, hasCommand, arguments => return (hasCommand, arguments)
  | _, hasCommand, [] => return (hasCommand, [])
  | fuel + 1, hasCommand, argument :: rest => do
    let switch (value : Bool) (letters : List Char) : Script (Bool × List String) := do
      let rest ← setLetters value (letters.filter fun c => c != 'c' && c != 'l') rest
      callSettings fuel (hasCommand || letters.contains 'c') rest
    match argument.toList with
    | ['-'] | ['-', '-'] => return (hasCommand, rest)
    | '-' :: letters => switch true letters
    | '+' :: letters => switch false letters
    | _ => return (hasCommand, argument :: rest)

/-- How often a shell asks for a proper end where the text has none. -/
def reminders : Nat := 50

/-- Runs the text of a whole script. -/
def runWhole (programs : Programs) (text : String) : Script Unit := do
  let reader : Reader := { layers := [{ rest := text.toList }] }
  discard (asReader (runLines programs endlessWork {} true reader 0))
  if (← hasOption .ignoreeof) && !(← isSkipping) then
    (List.range reminders).forM fun _ => say 2 "\nUse \"exit\" to leave shell.\n"

/-- Runs what the input holds. -/
def runInput (programs : Programs) : Script Unit := do
  let bytes ← readAll 0 childLimit []
  runWhole programs (String.ofList (ofBytes bytes))

/-- The work of a shell, as its arguments say. -/
def work (programs : Programs) (arguments : List String) : Script Unit := do
  let (hasCommand, rest) ← callSettings (arguments.length + 1) false arguments
  if rest.isEmpty then
    if hasCommand then fault ["-c requires an argument"]
    setOption .stdin true
  let readsInput ← hasOption .stdin
  let enter (name : String) (arguments : List String) : Script Unit :=
    modify fun s => { s with name, arguments }
  match hasCommand, rest with
  | true, command :: rest =>
    match rest with
    | [] => pure ()
    | name :: arguments => enter name arguments
    refuseControl
    discard (runText programs endlessWork { isLast := !readsInput } command)
    if readsInput then runInput programs
  | _, rest =>
    if readsInput then
      modify fun s => { s with arguments := rest }
      refuseControl
      runInput programs
    else
      let path := rest.headD ""
      let text ← scriptText path
      enter path (rest.drop 1)
      refuseControl
      runWhole programs text

/-- A shell from its start to its end. -/
def shell (programs : Programs) (environment : List (String × String)) (arguments : List String) :
    Script Unit := do
  let deafTo ← ask .ignored
  modify fun s => { s with deafTo }
  let identity ← ask .identity
  modify fun s => { s with number := identity }
  discard (attempt do
    takeEnvironment environment
    modify fun s => { s with name := arguments.headD s.name }
    work programs (arguments.drop 1))
  leave programs endlessWork

end Script

/-- The dialogue of a shell. -/
def shellDialogue (programs : Programs) (environment : List (String × String))
    (arguments : List String) : Dialogue Nat := do
  let script := ExceptT.run (Script.shell programs environment arguments)
  let (_, session) ← StateT.run script { name := "sh" }
  return session.status

/-- How many shells may start one another. -/
def shellLimit : Nat := 1000

/-- The programs of a host: the tools and the shell. -/
def programsWithin : (fuel : Nat) → Programs
  | 0, _, _ => .exit 126
  | fuel + 1, call, environment =>
    match toolDialogue? call environment with
    | some dialogue => dialogue
    | none => shellDialogue (programsWithin fuel) environment call.arguments

def programs : Programs := programsWithin shellLimit

end BuildRunner.Shell
