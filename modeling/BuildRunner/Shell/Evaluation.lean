import BuildRunner.Shell.Builtin.Table
import BuildRunner.Shell.Image
import BuildRunner.Shell.Redirection

/-!
# Evaluation of commands

Commands are run one within the other, and every one has a status.  A command that needs a process
of its own is run by a child, which is the shell once more.  What the programs of the machine do is
left open: `Programs` gives a dialogue for every call.
-/

namespace BuildRunner.Shell

/-- The dialogues of programs, by their calls and environments. -/
abbrev Programs := Call → List (String × String) → Dialogue Nat

/-- How a command is run. -/
structure Manner where
  /-- The shell ends with the command. -/
  isLast : Bool := false
  /-- The status is looked at, so that a failure does not end the shell. -/
  isTested : Bool := false
deriving DecidableEq, Repr, Inhabited

namespace Manner

/-- The manner of a command that others follow. -/
def inner (manner : Manner) : Manner := { manner with isLast := false }

def tested : Manner := { isTested := true }

end Manner

/-- The numbers under which a shell holds the ends of pipes for its children. -/
def heldInput : Nat := 100

def heldOutput : Nat := 101

def heldNext : Nat := 102

namespace Script

/-- Whether a signal or the end of the shell has commands of its own. -/
def hasTraps : Script Bool := do return (← get).traps.any fun trap => !trap.2.isEmpty

/-- Ends the thread. -/
def exit {α : Type} (status : Nat) : Script α := ExceptT.lift (StateT.lift (Dialogue.exit status))

/-- Writes what a command of the shell has put out; tells whether that was possible. -/
def flush : Script Bool := do
  let text := (← get).output
  modify fun s => { s with output := "" }
  if text.isEmpty then return true
  match ← ask (.write 1 (bytesOf text)) with
  | .ok () => return true
  | .error _ => return false

/-! ### Programs -/

/-- The status of a program that cannot be run. -/
def unrunnable (code : Errno) : Nat :=
  match code with
  | .notFound | .notDirectory | .linkLoop | .nameTooLong => 127
  | _ => 126

/-- The call of the first path that can be run; a file that is no program is a script. -/
def firstProgram (d : Disk) (arguments : List String) (code : Errno) :
    List String → Except Errno Call
  | [] => .error code
  | path :: rest =>
    match callOf d path arguments with
    | .ok call => .ok call
    | .error .execFormat =>
      .ok { tool := "sh", arguments := "/bin/sh" :: path :: arguments.drop 1 }
    | .error refusal => firstProgram d arguments (if isMissing refusal then code else refusal) rest

/-- Becomes a program. -/
def become {α : Type} (programs : Programs) (paths arguments : List String) : Script α := do
  match firstProgram (← ask .disk) arguments .notFound paths with
  | .ok call =>
    let environment := (← get).environment
    ask .replace
    exit (← ExceptT.lift (StateT.lift (programs call environment)))
  | .error code =>
    complain [arguments.headD "", ": ", if isMissing code then "not found" else code.wording]
    setStatus (unrunnable code)
    throw .finish

/-! ### Children -/

/-- Makes a child of the shell, which runs a script that ends it. -/
def fork (child : Script Unit) : Script Nat := do
  match ← ask .fork with
  | some id => return id
  | none =>
    child
    exit (← get).status

/-- What a shell forgets when it is a child. -/
def becomeChild : Script Unit := do
  let session ← get
  session.traps.forM fun (number, action) => do
    if number != 0 && !action.isEmpty && !session.deafTo.contains number then
      ask (.react number .usual)
  modify fun s =>
    { s with
      isChild := true
      traps := s.traps.filter fun trap => trap.1 != 0 && trap.2.isEmpty
      noted := []
      batches := []
      results := []
      loops := 0
      skip := .nothing
      interrupted := none }

/-- What a child that is left running does not hear and read. -/
def goToBackground (isFirst : Bool) : Script Unit := do
  ask (.react Signal.interrupt .ignores)
  ask (.react Signal.quit .ignores)
  if isFirst then ask (.connect 0 (some .null))

/-- Moves a stream from one number to another. -/
def move (source target : Nat) : Script Unit := do
  ask (.connect target (← ask (.stream source)))
  ask (.connect source none)

/-- Everything that can be read from a stream. -/
def readAll (number : Nat) : (fuel : Nat) → Text.Bytes → Script Text.Bytes
  | 0, bytes => return bytes
  | fuel + 1, bytes => do
    match ← ask (.read number 65536) with
    | .ok [] => return bytes
    | .ok more => readAll number fuel (bytes ++ more)
    | .error .interrupted => readAll number fuel bytes
    | .error _ => return bytes

/-- The text of an output, without the line ends at its end. -/
def outputText (bytes : Text.Bytes) : List Char :=
  ((ofBytes bytes).filter (· != '\x00')).reverse.dropWhile (· == '\n') |>.reverse

/-! ### Parts of simple commands -/

/-- Expands words until there is an argument. -/
def firstFields (by_ : Substitution) : List Word → Script (List String × List Word)
  | [] => return ([], [])
  | word :: rest => do
    match ← expandFields by_ word with
    | [] => firstFields by_ rest
    | fields => return (fields, rest)

/-- The words of a command that is being looked up. -/
structure Lookup where
  /-- The arguments before those that count now. -/
  before : List String := []
  arguments : List String
  rest : List Word
  meaning : Meaning
  /-- Whether the first command of the shell among the names was special. -/
  isSpecial : Option Bool := none
  /-- Whether assignments hold for the command only. -/
  hides : Bool := false
  noFunctions : Bool := false
  path? : Option String := none

/-- Whether `command` runs the command behind its options, which only the letter `p` may be among;
the answer holds that command. -/
def behindCommand (by_ : Substitution) : (fuel : Nat) → (path? : Option String) → List String →
    List Word → Script (Option (Option String × List String) × List String × List Word)
  | 0, _, arguments, rest => return (none, arguments, rest)
  | fuel + 1, path?, seen, rest => do
    let (more, rest) ← if 1 < seen.length then pure ([], rest) else firstFields by_ rest
    let arguments := seen ++ more
    match arguments.drop 1 with
    | [] => return (none, arguments, rest)
    | option :: behind =>
      match option.toList with
      | ['-', '-'] =>
        let (behind, rest) ← if behind.isEmpty then firstFields by_ rest else pure (behind, rest)
        if behind.isEmpty then return (none, arguments, rest)
        return (some (path?, behind), arguments, rest)
      | '-' :: c :: letters =>
        if (c :: letters).all (· == 'p') then
          let (found, _, rest) ← behindCommand by_ fuel (some standardPath) (option :: behind) rest
          return (found, arguments, rest)
        else return (none, arguments, rest)
      | _ => return (some (path?, option :: behind), arguments, rest)

/-- Finds out what the first argument stands for, through any number of `command` before it. -/
def lookUp (by_ : Substitution) : (fuel : Nat) → Lookup → Script Lookup
  | 0, found => return found
  | fuel + 1, found => do
    let name := found.arguments.headD ""
    let session ← get
    let functions := if found.noFunctions then [] else session.functions
    let meaning := match functions.lookup name with
      | some body => Meaning.function body
      | none => (shellCommand? name).getD (.nothing .notFound)
    match meaning with
    | .ofShell isSpecial =>
      let isSpecial := found.isSpecial.getD isSpecial
      let hides := found.isSpecial.isSome || !isSpecial
      let found := { found with meaning, isSpecial := some isSpecial, hides }
      if name != "command" then return found
      let (behind, arguments, rest) ←
        behindCommand by_ (found.arguments.length + found.rest.length + 2) found.path?
          found.arguments found.rest
      match behind with
      | none => return { found with arguments, rest }
      | some (path?, arguments) =>
        lookUp by_ fuel { found with arguments, rest, path?, noFunctions := true }
    | meaning => return { found with meaning, hides := true }

/-- Expands the words that are left. -/
def restFields (by_ : Substitution) (assigning : Bool) (words : List Word) :
    Script (List String) := do
  let fields ← words.mapM fun word => do
    if assigning && word.isAssignment then return [← expandText by_ { assigns := true } word]
    else expandFields by_ word
  return fields.flatten

/-- Shows a command before it is run, on the error output as it was before redirections. -/
def trace (assignments arguments : List String) : Script Unit := do
  if ← hasOption .xtrace then
    let session ← get
    let stream := match (session.aside.headD []).lookup 2 with
      | some (some place) => place
      | _ => 2
    let start := (session.value? "PS4").getD ""
    say stream (start ++ String.intercalate " " (assignments ++ arguments) ++ "\n")

/-- Sets the variables of the assignments before a command, and gives their texts. -/
def assignAll (by_ : Substitution) (hides exports : Bool) (words : List Word) :
    Script (List String) :=
  words.mapM fun word => do
    let text ← expandText by_ { assigns := true } word
    let (name, _) := splitAssignment text
    if hides then hide name
    assign text
    if hides || exports then exportVariable name
    return text

/-- Runs a script with redirections, which are then undone; without them, where one fails.  With
`keeps` they stay. -/
def withTargets (by_ : Substitution) (targets : List Target) (keeps : Bool)
    (refused : Script Nat) (script : Script Nat) : Script Nat := do
  if targets.isEmpty then return ← script
  modify fun s => { s with aside := [] :: s.aside }
  let result ← attempt do
    match ← attempt (targets.forM (redirect by_)) with
    | .ok () => script
    | .error .fault => refused
    | .error interrupt => throw interrupt
  match result with
  | .ok status =>
    if keeps then forgetAside else putBack
    return status
  | .error interrupt =>
    putBack
    throw interrupt

/-- The text of a file that is to be run; a directory holds nothing. -/
def scriptText (path : String) : Script String := do
  let d ← ask .disk
  match d.read (widen path) with
  | .ok bytes => return String.ofList (ofBytes bytes)
  | .error .isDirectory => return ""
  | .error code => fault ["cannot open ", path, ": ", refusal "No such file" code]

/-- The path of a file that is to be run within the shell. -/
def sourcePath (name : String) : Script String := do
  if name.toList.contains '/' then return name
  let d ← ask .disk
  let places := (pathParts (← get).path).map (inDirectory · name)
  match places.find? fun place => d.isFile (widen place) with
  | some place => return place
  | none => fault [name, ": not found"]

/-- The status of a command after which commands are passed over. -/
def isSkipping : Script Bool := do return (← get).skip != .nothing

/-- What a loop does after a command: whether it goes on, whether with the rest of the round, and
whether the end of a function was met. -/
def afterRound : Script (Bool × Bool) := do
  let session ← get
  match session.skip with
  | .nothing => return (true, true)
  | .break | .continue =>
    if session.skipCount ≤ 1 then
      modify fun s => { s with skip := .nothing, skipCount := 0 }
      return (session.skip = .continue, false)
    else
      modify fun s => { s with skipCount := s.skipCount - 1 }
      return (false, false)
  | .return _ => return (false, false)

/-- Runs a script as a loop. -/
def asLoop (script : Script Nat) : Script Nat := do
  let before := (← get).loops
  modify fun s => { s with loops := before + 1 }
  ensuring script (modify fun s => { s with loops := before })

/-- Looks for the program of a simple command before it is started. -/
def lookAhead (command : Command) : Script Unit := do
  match command with
  | .simple _ _ (word :: _) _ =>
    match Word.bare? word with
    | some name =>
      if isName name then discard (meaning false false (← get).path (String.ofList name))
    | none => pure ()
  | _ => pure ()

/-- Runs a script that reads a text of its own, with lines of its own. -/
def asReader (script : Script Nat) : Script Nat := do
  let before := (← get).reached
  ensuring script (modify fun s => { s with reached := before })

/-- Notes the line of a command. -/
def noteLine (line : Nat) : Script Unit := modify fun s => { s with line }

mutual

/-- Runs a command. -/
def run (programs : Programs) : (fuel : Nat) → Manner → Command → Script Nat
  | 0, _, _ => throw .finish
  | fuel + 1, manner, command => do
    if ← hasOption .noexec then return 0
    runTraps programs fuel
    let (status, isChecked) ← runPart programs fuel manner command
    runTraps programs fuel
    let failed := status != 0 && isChecked && !manner.isTested
    if (failed && (← hasOption .errexit)) || manner.isLast then throw .finish
    return status

/-- Runs a command, and tells whether its failure may end the shell. -/
def runPart (programs : Programs) :
    (fuel : Nat) → Manner → Command → Script (Nat × Bool)
  | 0, _, _ => throw .finish
  | fuel + 1, manner, command => do
    let ended (isChecked : Bool) (status : Nat) : Script (Nat × Bool) := do
      setStatus status
      return (status, isChecked)
    let by_ : Substitution := { output := substitute programs fuel }
    match command with
    | .simple line assignments words redirections =>
      ended true (← simple programs fuel manner line assignments words redirections)
    | .pipeline commands background =>
      ended true (← pipeline programs fuel manner commands background)
    | .apart line background body redirections =>
      ended true (← apart programs fuel manner line background body redirections)
    | .redirected line body redirections =>
      noteLine line
      let targets ← redirections.mapM (target by_)
      let status ← withTargets by_ targets false
        (do
          setStatus faultStatus
          return faultStatus)
        (run programs fuel manner.inner body)
      ended true status
    | .sequence first second =>
      let status ← run programs fuel manner.inner first
      if ← isSkipping then return (status, false)
      ended false (← run programs fuel manner second)
    | .conjunction first second =>
      let status ← run programs fuel .tested first
      if status != 0 || (← isSkipping) then return (status, false)
      ended false (← run programs fuel manner second)
    | .disjunction first second =>
      let status ← run programs fuel .tested first
      if status = 0 || (← isSkipping) then return (status, false)
      ended false (← run programs fuel manner second)
    | .negation body =>
      let status ← run programs fuel .tested body
      ended false (if status = 0 then 1 else 0)
    | .branch condition yes no =>
      let status ← run programs fuel .tested condition
      if ← isSkipping then return (status, false)
      if status = 0 then ended false (← run programs fuel manner yes)
      else
        match no with
        | some no => ended false (← run programs fuel manner no)
        | none => ended false 0
    | .loop untilSuccess condition body =>
      ended false (← asLoop (rounds programs fuel manner.inner untilSuccess condition body 0))
    | .each line name words body =>
      noteLine line
      let items ← restFields by_ false words
      ended false (← asLoop (eachItem programs fuel manner.inner name body 0 items))
    | .select line word choices =>
      noteLine line
      let text ← expandText by_ { tilde := true } word
      ended false (← choose programs fuel manner text.toList choices)
    | .define _ name body =>
      modify fun s =>
        { s with functions := (name, body) :: s.functions.filter fun f => f.1 != name }
      ended false 0

/-- The rounds of a loop; the status is that of the last one. -/
def rounds (programs : Programs) :
    (fuel : Nat) → Manner → (untilSuccess : Bool) → (condition body : Command) → (last : Nat) →
      Script Nat
  | 0, _, _, _, _, _ => throw .finish
  | fuel + 1, manner, untilSuccess, condition, body, last => do
    let status ← run programs fuel .tested condition
    let returns := match (← get).skip with
      | .return _ => true
      | _ => false
    let (goesOn, isWhole) ← afterRound
    if !goesOn then return if returns then status else last
    if !isWhole then return ← rounds programs fuel manner untilSuccess condition body last
    if (status = 0) = untilSuccess then return last
    let last ← run programs fuel manner body
    let (goesOn, _) ← afterRound
    if goesOn then rounds programs fuel manner untilSuccess condition body last else return last

/-- A loop over items. -/
def eachItem (programs : Programs) :
    (fuel : Nat) → Manner → String → Command → (last : Nat) → List String → Script Nat
  | 0, _, _, _, _, _ => throw .finish
  | _, _, _, _, last, [] => return last
  | fuel + 1, manner, name, body, _, item :: items => do
    setVariable name item
    let last ← run programs fuel manner body
    let (goesOn, _) ← afterRound
    if goesOn then eachItem programs fuel manner name body last items else return last

/-- Runs the first of some choices that a text belongs to. -/
def choose (programs : Programs) :
    (fuel : Nat) → Manner → List Char → List (List Word × Option Command) → Script Nat
  | 0, _, _, _ => throw .finish
  | _, _, _, [] => return 0
  | fuel + 1, manner, text, (patterns, body) :: rest => do
    let by_ : Substitution := { output := substitute programs fuel }
    let isMeant ← patterns.foldlM (fun found pattern => do
      if found then return true
      return matchesPattern (← expandPattern by_ pattern) text) false
    if ← isSkipping then return 0
    if isMeant then
      match body with
      | some body => run programs fuel manner body
      | none => return 0
    else choose programs fuel manner text rest

/-- Runs a command in a process of its own. -/
def apart (programs : Programs) :
    (fuel : Nat) → Manner → (line : Nat) → (background : Bool) → Command → List Redirection →
      Script Nat
  | 0, _, _, _, _, _ => throw .finish
  | fuel + 1, manner, line, background, body, redirections => do
    noteLine line
    let by_ : Substitution := { output := substitute programs fuel }
    let targets ← redirections.mapM (target by_)
    let inside : Script Unit := do
      becomeChild
      if background then goToBackground true
      discard (attempt do
        targets.forM (redirect by_)
        run programs fuel { isLast := true, isTested := manner.isTested && !background } body)
      leave programs fuel
    if !background && manner.isLast && !(← hasTraps) then
      inside
      return 0
    let id ← fork inside
    if background then
      addBatch [id]
      return 0
    else awaitBatch [id]

/-- Runs commands each of which reads what the one before writes. -/
def pipeline (programs : Programs) :
    (fuel : Nat) → Manner → List Command → (background : Bool) → Script Nat
  | 0, _, _, _ => throw .finish
  | fuel + 1, manner, commands, background => do
    let ids ← pipelineFrom programs fuel { manner with isLast := true } background true commands
    if background then
      addBatch ids
      return 0
    else awaitBatch ids

/-- Starts the commands of a pipeline; all but the first one read from the stream that is held. -/
def pipelineFrom (programs : Programs) :
    (fuel : Nat) → Manner → (background isFirst : Bool) → List Command → Script (List Nat)
  | 0, _, _, _, _ => throw .finish
  | _, _, _, _, [] => return []
  | fuel + 1, manner, background, isFirst, command :: rest => do
    let isFinal := rest.isEmpty
    lookAhead command
    if !isFinal then
      let pipe ← ask (.pipe [])
      ask (.connect heldNext (some (.pipe pipe false)))
      ask (.connect heldOutput (some (.pipe pipe true)))
    let id ← fork do
      becomeChild
      if background then goToBackground isFirst
      ask (.connect heldNext none)
      if !isFirst then move heldInput 0
      if !isFinal then move heldOutput 1
      discard (attempt (run programs fuel manner command))
      leave programs fuel
    if !isFirst then ask (.connect heldInput none)
    if !isFinal then
      ask (.connect heldOutput none)
      move heldNext heldInput
    return id :: (← pipelineFrom programs fuel manner background false rest)

/-- The output of a command. -/
def substitute (programs : Programs) : (fuel : Nat) → Option Command → Script (List Char)
  | 0, _ => throw .finish
  | _, none => return []
  | fuel + 1, some body => do
    let pipe ← ask (.pipe [])
    ask (.connect heldNext (some (.pipe pipe false)))
    ask (.connect heldOutput (some (.pipe pipe true)))
    let id ← fork do
      becomeChild
      ask (.connect heldNext none)
      move heldOutput 1
      discard (attempt (run programs fuel { isLast := true } body))
      leave programs fuel
    ask (.connect heldOutput none)
    let bytes ← readAll heldNext childLimit []
    ask (.connect heldNext none)
    let status ← awaitBatch [id]
    modify fun s => { s with substituted := status }
    return outputText bytes

/-- Runs a simple command. -/
def simple (programs : Programs) :
    (fuel : Nat) → Manner → (line : Nat) → (assignments words : List Word) → List Redirection →
      Script Nat
  | 0, _, _, _, _, _ => throw .finish
  | fuel + 1, manner, line, assignments, words, redirections => do
    noteLine line
    ask .pause
    modify fun s => { s with substituted := 0 }
    let by_ : Substitution := { output := substitute programs fuel }
    let (arguments, rest) ← firstFields by_ words
    let found : Lookup := { arguments, rest, meaning := .ofShell false }
    let found ← if arguments.isEmpty then pure found else
      lookUp by_ (words.length + arguments.length + 1) found
    let name := found.arguments.headD ""
    let more ← restFields by_ (assigningCommands.contains name) found.rest
    let arguments := found.arguments ++ more
    let isSpecial := found.isSpecial = some true
    let replaces := name = "exec" && (found.isSpecial.isSome)
    let body : Script Nat := do
      let targets ← redirections.mapM (target by_)
      let refused : Script Nat := do
        setStatus faultStatus
        if isSpecial then throw .fault
        return faultStatus
      withTargets by_ targets replaces refused do
        let texts ← assignAll by_ found.hides (replaces && 1 < arguments.length) assignments
        if !(texts.isEmpty && arguments.isEmpty) then trace texts arguments
        if arguments.isEmpty then return (← get).substituted
        dispatch programs fuel manner found arguments
    if found.hides then withLocals body else body

/-- Runs what the name of a simple command stands for. -/
def dispatch (programs : Programs) :
    (fuel : Nat) → Manner → Lookup → (arguments : List String) → Script Nat
  | 0, _, _, _ => throw .finish
  | fuel + 1, manner, found, arguments => do
    let name := arguments.headD ""
    match found.meaning with
    | .ofShell _ => builtin programs fuel manner (found.isSpecial = some true) arguments
    | .function body => call programs fuel manner body (arguments.drop 1)
    | _ =>
      let session ← get
      let path := found.path?.getD session.path
      match ← meaning true false path name with
      | .nothing code =>
        complain [name, ": ", if isMissing code then "not found" else code.wording]
        setStatus 127
        if found.isSpecial = some true then throw .fault
        return 127
      | .program paths =>
        if manner.isLast && !(← hasTraps) then become programs paths arguments
        else
          let id ← fork do
            discard (attempt (become programs paths arguments : Script Unit))
          awaitBatch [id]
      | _ => return 0

/-- Runs a function. -/
def call (programs : Programs) :
    (fuel : Nat) → Manner → Command → (arguments : List String) → Script Nat
  | 0, _, _, _ => throw .finish
  | fuel + 1, manner, body, arguments => do
    let before ← get
    modify fun s => { s with arguments, optionIndex := 1, optionOffset := none, loops := 0 }
    ensuring
      (do
        discard (run programs fuel manner.inner body)
        return (← get).status)
      (modify fun s =>
        { s with
          arguments := before.arguments
          optionIndex := before.optionIndex
          optionOffset := before.optionOffset
          loops := before.loops
          skip := match s.skip with | .return _ => .nothing | skip => skip })

/-- Runs a command of the shell.  Its complaints end a script if it is special. -/
def builtin (programs : Programs) :
    (fuel : Nat) → Manner → (isSpecial : Bool) → (arguments : List String) → Script Nat
  | 0, _, _, _ => throw .finish
  | fuel + 1, manner, isSpecial, arguments => do
    let name := arguments.headD ""
    let before := (← get).complainer
    modify fun s => { s with complainer := some name }
    let result ← attempt do
      match name with
      | "eval" => evalCommand programs fuel manner (arguments.drop 1)
      | "." => source programs fuel (← operands (arguments.drop 1))
      | "exec" =>
        match ← operands (arguments.drop 1) with
        | [] => return 0
        | arguments => replace programs fuel arguments
      | name => runCommand name (arguments.drop 1)
    let isWritten ← flush
    if !isWritten && result.isOk then complain [name, ": I/O error"]
    modify fun s => { s with complainer := before }
    match result with
    | .ok status =>
      let status := if isWritten then status else status ||| 1
      setStatus status
      return status
    | .error .fault =>
      if isSpecial then throw .fault
      return (← get).status
    | .error interrupt => throw interrupt

/-- Runs a text. -/
def evalCommand (programs : Programs) :
    (fuel : Nat) → Manner → (arguments : List String) → Script Nat
  | 0, _, _ => throw .finish
  | fuel + 1, manner, arguments => do
    if arguments.isEmpty then return 0
    runText programs fuel manner.inner (String.intercalate " " arguments)

/-- Becomes a program that is searched for. -/
def replace (programs : Programs) : (fuel : Nat) → (arguments : List String) → Script Nat
  | 0, _ => throw .finish
  | _, arguments => do
    let name := arguments.headD ""
    let session ← get
    let paths :=
      if name.toList.contains '/' then [name]
      else (pathParts session.path).map (inDirectory · name)
    become programs paths arguments

/-- Runs a file within the shell. -/
def source (programs : Programs) : (fuel : Nat) → (arguments : List String) → Script Nat
  | 0, _ => throw .finish
  | _, [] => return 0
  | fuel + 1, name :: _ => do
    let path ← sourcePath name
    let text ← scriptText path
    modify fun s => { s with complainer := some path }
    runFile programs fuel text

/-- Runs the lines of a file, of which a return leads out. -/
def runFile (programs : Programs) : (fuel : Nat) → (text : String) → Script Nat
  | 0, _ => throw .finish
  | fuel + 1, text => do
    let reader : Reader := { layers := [{ rest := text.toList }] }
    let status ← asReader (runLines programs fuel {} true reader 0)
    modify fun s =>
      { s with skip := match s.skip with | .return _ => .nothing | skip => skip }
    return status

/-- Runs the lines of a text. -/
def runText (programs : Programs) : (fuel : Nat) → Manner → (text : String) → Script Nat
  | 0, _, _ => throw .finish
  | fuel + 1, manner, text => do
    asReader (runLines programs fuel manner false { layers := [{ rest := text.toList }] } 0)

/-- Runs what is left to read; the status is that of the last command.  The lines of a file may be
shown. -/
def runLines (programs : Programs) :
    (fuel : Nat) → Manner → (isFile : Bool) → Reader → (last : Nat) → Script Nat
  | 0, _, _, _, _ => throw .finish
  | fuel + 1, manner, isFile, reader, last => do
    let session ← get
    let reader := { reader with aliases := session.aliases, nextDocument := session.nextDocument }
    let shows := isFile && session.options.contains .verbose
    match readLine.run reader with
    | .error fault =>
      if shows then say 2 (reader.linesTo fault.line)
      noteLine fault.line
      Script.fault [fault.message]
    | .ok (line, after) =>
      if shows then say 2 (reader.textBefore after)
      modify fun s =>
        { s with
          reached := after.line
          documents := after.documents ++ s.documents
          nextDocument := after.nextDocument }
      let after := { after with documents := [] }
      match line with
      | .finish => return last
      | .commands none isLast =>
        runTraps programs fuel
        if manner.isLast && isLast then throw .finish
        runLines programs fuel manner isFile after last
      | .commands (some command) isLast =>
        let manner' := { manner with isLast := manner.isLast && isLast }
        let last ← run programs fuel manner' command
        if ← isSkipping then return last
        runLines programs fuel manner isFile after last

/-- Runs the commands for the signals that have come. -/
def runTraps (programs : Programs) : (fuel : Nat) → Script Unit
  | 0 => return
  | fuel + 1 => do
    if (← get).traps.any fun trap => trap.1 != 0 && !trap.2.isEmpty then
      let more ← ask .noted
      let session ← get
      let all := session.noted ++ more
      let waiting := (List.range (Signal.greatest + 1)).filter all.contains
      modify fun s => { s with noted := [] }
      if !waiting.isEmpty then
        let before := session.interrupted
        let status := before.getD session.status
        modify fun s => { s with interrupted := some status }
        runTrapsFor programs fuel status waiting
        modify fun s => { s with interrupted := before }

/-- Runs the commands for some signals, after each of which the status is as before. -/
def runTrapsFor (programs : Programs) : (fuel : Nat) → (status : Nat) → List Nat → Script Unit
  | 0, _, _ => return
  | _, _, [] => return
  | fuel + 1, status, signal :: rest => do
    if ← isSkipping then modify fun s => { s with noted := s.noted ++ signal :: rest }
    else
      match (← get).traps.lookup signal with
      | some action =>
        discard (runText programs fuel {} action)
        if (← get).skip != .return true then setStatus status
      | none => pure ()
      runTrapsFor programs fuel status rest

/-- Ends the shell, after the commands that are meant for that. -/
def leave (programs : Programs) : (fuel : Nat) → Script Unit
  | 0 => do exit (← get).status
  | fuel + 1 => do
    discard flush
    let status := (← get).status
    match (← get).traps.lookup 0 with
    | none => exit status
    | some action =>
      modify fun s =>
        { s with
          traps := s.traps.filter fun trap => trap.1 != 0
          skip := .nothing
          loops := 0
          interrupted := some status }
      match ← attempt (runText programs fuel {} action) with
      | .ok _ => exit status
      | .error _ => exit (← get).status

end

end Script

end BuildRunner.Shell
