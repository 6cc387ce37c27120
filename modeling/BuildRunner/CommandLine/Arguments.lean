/-!
# Arguments of a command line

Arguments are options and operands.  An option has a long name and maybe a one-letter name; one that
takes a value finds it behind an equals sign, behind its letter, or in the next argument.
One-letter options may be joined.  Everything behind `--` is an operand.
-/

namespace BuildRunner.CommandLine

/-- An option that a command knows. -/
structure Switch where
  /-- The name behind two hyphens. -/
  name : String
  letter : Option Char := none
  takesValue : Bool := false
deriving DecidableEq, Repr, Inhabited

/-- Arguments that were taken apart: the options in their order, each with its value, and the
operands. -/
structure Arguments where
  options : List (String × String) := []
  operands : List String := []
deriving DecidableEq, Repr, Inhabited

namespace Arguments

def withOptions (options : List (String × String)) (arguments : Arguments) : Arguments :=
  { arguments with options := options ++ arguments.options }

def withOperand (operand : String) (arguments : Arguments) : Arguments :=
  { arguments with operands := operand :: arguments.operands }

def has (arguments : Arguments) (name : String) : Bool :=
  arguments.options.any fun option => option.1 == name

/-- The value of an option, which is the last one given. -/
def value? (arguments : Arguments) (name : String) : Option String :=
  arguments.options.reverse.lookup name

end Arguments

/-- The options of one argument, and the option whose value is the next argument. -/
structure Cluster where
  options : List (String × String) := []
  awaiting : Option String := none
deriving DecidableEq, Repr, Inhabited

/-- Reads joined one-letter options; none if a letter is unknown. -/
def readLetters (switches : List Switch) : List Char → Option Cluster
  | [] => some {}
  | c :: rest => do
    let switch ← switches.find? fun switch => switch.letter == some c
    if switch.takesValue then
      if rest.isEmpty then some { awaiting := some switch.name }
      else some { options := [(switch.name, String.ofList rest)] }
    else
      let cluster ← readLetters switches rest
      some { cluster with options := (switch.name, "") :: cluster.options }

/-- Reads an option in its long form; none if it has a value that it does not take. -/
def readLong (switch : Switch) (value : Option String) : Option Cluster :=
  match switch.takesValue, value with
  | true, some value => some { options := [(switch.name, value)] }
  | true, none => some { awaiting := some switch.name }
  | false, none => some { options := [(switch.name, "")] }
  | false, some _ => none

/-- Reads an argument that starts with a hyphen. -/
def readSwitch (switches : List Switch) (argument : List Char) : Option Cluster :=
  match argument with
  | '-' :: '-' :: body => do
    let name := String.ofList (body.takeWhile (· != '='))
    let value := (body.dropWhile (· != '=')).tail?.map String.ofList
    let switch ← switches.find? fun switch => switch.name == name
    readLong switch value
  | _ => readLetters switches (argument.drop 1)

/-- Whether an argument is an option. -/
def isSwitch (argument : List Char) : Bool :=
  match argument with
  | '-' :: _ :: _ => true
  | _ => false

/-- Takes arguments apart.  Options may follow operands if `mixed` is set; otherwise everything from
the first operand on is one.  None if an option is unknown, lacks its value or has one too many. -/
def readFrom (switches : List Switch) (mixed : Bool) :
    (awaiting : Option String) → List String → Option Arguments
  | none, [] => some {}
  | some _, [] => none
  | some name, value :: rest =>
    (readFrom switches mixed none rest).map (Arguments.withOptions [(name, value)])
  | none, argument :: rest =>
    if argument = "--" then some { operands := rest }
    else if isSwitch argument.toList then do
      let cluster ← readSwitch switches argument.toList
      (readFrom switches mixed cluster.awaiting rest).map (Arguments.withOptions cluster.options)
    else if mixed then (readFrom switches mixed none rest).map (Arguments.withOperand argument)
    else some { operands := argument :: rest }

def Arguments.read? (switches : List Switch) (mixed : Bool) (arguments : List String) :
    Option Arguments :=
  readFrom switches mixed none arguments

end BuildRunner.CommandLine
