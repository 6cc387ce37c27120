import BuildRunner.Shell.Builtin.Options
import BuildRunner.Shell.Expansion

/-!
# Commands about variables

These commands set, mark and remove variables, set the arguments and the settings of the shell, and
read lines and options into variables.
-/

namespace BuildRunner.Shell

namespace Script

/-- The name and the value of an argument; a name that is none is refused. -/
def nameAndValue (argument : String) : Script (String × Option String) := do
  let (name, value) := splitAssignment argument
  if !isName name.toList then fault [name, ": bad variable name"]
  return (name, value)

/-- Checks the name of a variable that a command sets. -/
def checkName (name : String) : Script Unit := do
  if !isName name.toList then fault [name, ": bad variable name"]

/-- The variables that fulfil a condition, in the order of their names. -/
def sortedVariables (p : Variable → Bool) : Script (List (String × Variable)) := do
  let names := ((← get).bindings.filter fun v => p v.2).map Prod.fst
  let names := names.foldr insertInOrder []
  let session ← get
  return names.filterMap fun name => (session.variableOf? name).map (name, ·)

/-- Writes variables as commands that would set them. -/
def listVariables (command : String) (bindings : List (String × Variable)) : Script Unit :=
  bindings.forM fun (name, v) => do
    let start := if command.isEmpty then "" else command ++ " "
    out (start ++ name ++ (v.value.elim "" fun value => "=" ++ quotedWord value) ++ "\n")

/-- Marks variables, which may get values. -/
def markVariables (command : String) (isMarked : Variable → Bool) (mark : Variable → Variable)
    (arguments : List String) : Script Nat := do
  let (letters, rest) ← options "p" arguments
  if !letters.isEmpty || rest.isEmpty then listVariables command (← sortedVariables isMarked)
  else
    rest.forM fun argument => do
      let (name, value) ← nameAndValue argument
      if let some value := value then setVariable name value
      markVariable name mark
  return 0

def exportCommand : List String → Script Nat :=
  markVariables "export" Variable.isExported fun v => { v with isExported := true }

def readonlyCommand : List String → Script Nat :=
  markVariables "readonly" Variable.isReadOnly fun v => { v with isReadOnly := true }

def localCommand (arguments : List String) : Script Nat := do
  if (← get).hidden.isEmpty then fault ["not in a function"]
  arguments.forM fun argument => do
    if argument = "-" then hideOptions
    else
      let (name, value) ← nameAndValue argument
      hide name
      match value with
      | some value => setVariable name value
      | none => markVariable name id
  return 0
where
  hideOptions : Script Unit := do
    if (← get).hiddenOptions.head?.join.isNone then
      modify fun s =>
        { s with hiddenOptions := some s.options :: s.hiddenOptions.drop 1 }

def unsetCommand (arguments : List String) : Script Nat := do
  let (letters, names) ← options "vf" arguments
  names.forM fun name => do
    if (letters.getLast?.map Prod.fst) = some 'f' then
      modify fun s => { s with functions := s.functions.filter fun f => f.1 != name }
    else
      let (name, _) := splitAssignment name
      checkName name
      unsetVariable name
  return 0

/-- Writes the settings, or the commands that would make them. -/
def listSettings (readable : Bool) : Script Unit := do
  if readable then out "Current option settings\n"
  Setting.table.forM fun (setting, name, _) => do
    let isOn ← hasOption setting
    if readable then
      let blanks := String.ofList (List.replicate (16 - name.length) ' ')
      out (name ++ blanks ++ (if isOn then "on" else "off") ++ "\n")
    else out ("set " ++ (if isOn then "-o " else "+o ") ++ name ++ "\n")

/-- Switches the settings of some letters, and gives the arguments that are left; the letter `o`
takes the name of a setting from them. -/
def setLetters (value : Bool) : List Char → List String → Script (List String)
  | [], rest => return rest
  | 'o' :: letters, rest => do
    match rest with
    | [] => listSettings value
    | name :: _ =>
      match Setting.ofName? name with
      | some setting => setOption setting value
      | none => fault ["Illegal option -o ", name]
    setLetters value letters (rest.drop 1)
  | c :: letters, rest => do
    match Setting.ofLetter? c with
    | some setting => setOption setting value
    | none => fault ["Illegal option -", String.ofList [c]]
    setLetters value letters rest

/-- Switches settings as arguments say, and gives the arguments behind those; `ended` tells whether
the options were ended by a mark. -/
def setSettings : (fuel : Nat) → List String → Script (List String × Bool)
  | 0, arguments => return (arguments, false)
  | _, [] => return ([], false)
  | fuel + 1, argument :: rest => do
    match argument.toList with
    | ['-'] =>
      setOption .xtrace false
      setOption .verbose false
      return (rest, false)
    | ['-', '-'] => return (rest, true)
    | '-' :: letters => setSettings fuel (← setLetters true letters rest)
    | '+' :: letters => setSettings fuel (← setLetters false letters rest)
    | _ => return (argument :: rest, false)

/-- Jobs cannot be controlled without a terminal. -/
def refuseControl : Script Unit := do
  if (← hasOption .monitor) && !(← get).isChild then
    complain ["can't access tty; job control turned off"]
    setOption .monitor false

/-- Gives the shell new arguments. -/
def setArguments (arguments : List String) : Script Unit :=
  modify fun s => { s with arguments, optionIndex := 1, optionOffset := none }

def setCommand (arguments : List String) : Script Nat := do
  if arguments.isEmpty then
    listVariables "" (← sortedVariables fun v => v.value.isSome)
  else
    let (rest, ended) ← setSettings (arguments.length + 1) arguments
    refuseControl
    if !rest.isEmpty || ended then setArguments rest
  return 0

def shiftCommand (arguments : List String) : Script Nat := do
  let count ← arguments.head?.elim (pure 1) number
  let held := (← get).arguments
  if held.length < count then fault ["can't shift that many"]
  setArguments (held.drop count)
  return 0

/-! ### Reading a line -/

/-- A bound for the length of a line. -/
def lineLimit : Nat := 0x40000000

/-- Reads a line from the input.  Characters behind a backslash are kept from being split, unless
`raw` is set.  The runs come last one first; the status says whether the line has an end. -/
def readRuns (raw : Bool) : (fuel : Nat) → List Char → List Run → Script (List Run × Nat)
  | 0, s, runs =>
    let run : Run := { splitting := .atSeparators, cells := Cell.ofText s.reverse false }
    return (run :: runs, 1)
  | fuel + 1, s, runs => do
    let run : Run := { splitting := .atSeparators, cells := Cell.ofText s.reverse false }
    match ← next with
    | none => return (run :: runs, 1)
    | some '\n' => return (run :: runs, 0)
    | some '\x00' => readRuns raw fuel s runs
    | some '\\' =>
      if raw then readRuns raw fuel ('\\' :: s) runs
      else
        match ← next with
        | none => return (run :: runs, 1)
        | some '\n' => readRuns raw fuel [] (run :: runs)
        | some c =>
          let kept : Run := { splitting := .never, cells := [.char c true] }
          readRuns raw fuel [] (kept :: run :: runs)
    | some c => readRuns raw fuel (c :: s) runs
where
  next : Script (Option Char) := do
    match ← ask (.read 0 1) with
    | .ok bytes => return (ofBytes bytes).head?
    | .error _ => return none

/-- Gives fields to variables; those that are left get empty values. -/
def giveFields : List String → List (List Cell) → Script Unit
  | [], _ => return
  | name :: names, fields => do
    checkName name
    setVariable name (fields.head?.elim "" fun field => String.ofList (Cell.text field))
    giveFields names (fields.drop 1)

def readCommand (arguments : List String) : Script Nat := do
  let (letters, names) ← options "p:r" arguments
  if names.isEmpty then fault ["arg count"]
  let (runs, status) ← readRuns (letters.any fun l => l.1 == 'r') lineLimit [] []
  let separators := (← get).separators.toList
  giveFields names (splitFields separators (some names.length) runs.reverse)
  return status

/-! ### Reading options -/

/-- Whether a letter is among the options of a text, and whether it has a value. -/
def wantedOption? (wanted : List Char) (c : Char) : Option Bool :=
  knownOption? c (match wanted with | ':' :: rest => rest | wanted => wanted)

/-- Sets the variables of `getopts`, and where it goes on. -/
def setOptionState (name value : String) (index : Nat) (offset : Option Nat) : Script Unit := do
  setVariable "OPTIND" (toString index)
  checkName name
  setVariable name value
  modify fun s => { s with optionIndex := index, optionOffset := offset }

/-- Reads the next option from some arguments. -/
def nextOption (wanted name : String) (arguments : List String) : Script Nat := do
  let session ← get
  let index := if arguments.length + 1 < session.optionIndex then 1 else session.optionIndex
  let offset := if arguments.length + 1 < session.optionIndex then none else session.optionOffset
  let current := if index ≤ 1 then [] else
    (offset.elim [] fun n => ((arguments[index - 2]?).getD "").toList.drop n)
  let isQuiet := wanted.toList.head? = some ':'
  let (start, index) ← match current with
    | [] =>
      match ((arguments[index - 1]?).getD "").toList with
      | '-' :: c :: rest =>
        if c = '-' && rest.isEmpty then pure ([], index + 1) else pure (c :: rest, index + 1)
      | _ => pure ([], index)
    | rest => pure (rest, index)
  match start with
  | [] =>
    setOptionState name "?" index none
    return 1
  | c :: rest =>
    let letter := String.ofList [c]
    let offsetOf (rest : List Char) : Option Nat :=
      if rest.isEmpty then some (((arguments[index - 2]?).getD "").length)
      else some (((arguments[index - 2]?).getD "").length - rest.length)
    match wantedOption? wanted.toList c with
    | none =>
      if isQuiet then setVariable "OPTARG" letter
      else
        say 2 ("Illegal option -" ++ letter ++ "\n")
        unsetVariable "OPTARG"
      setOptionState name "?" index (offsetOf rest)
    | some false =>
      setVariable "OPTARG" ""
      setOptionState name letter index (offsetOf rest)
    | some true =>
      match rest, arguments[index - 1]? with
      | [], none =>
        if isQuiet then
          setVariable "OPTARG" letter
          setOptionState name ":" index (offsetOf rest)
        else
          say 2 ("No arg for -" ++ letter ++ " option\n")
          unsetVariable "OPTARG"
          setOptionState name "?" index (offsetOf rest)
      | [], some value =>
        setVariable "OPTARG" value
        setOptionState name letter (index + 1) none
      | rest, _ =>
        setVariable "OPTARG" (String.ofList rest)
        setOptionState name letter index none
    return 0

def getoptsCommand (arguments : List String) : Script Nat := do
  match ← operands arguments with
  | [wanted, name] => nextOption wanted name (← get).arguments
  | wanted :: name :: arguments => nextOption wanted name arguments
  | _ => fault ["Usage: getopts optstring var [arg...]"]

end Script

end BuildRunner.Shell
