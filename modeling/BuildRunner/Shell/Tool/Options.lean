import BuildRunner.Shell.Tool.Basic

/-!
# Options of tools

Options are letters behind one dash or names behind two, and may stand anywhere among the operands
before an argument of two dashes.  A name may be cut short where only one option can be meant.  An
option may have an argument of its own: behind an equals sign or its letter, or as the next
argument.
-/

namespace BuildRunner.Shell

/-- Whether an option has an argument. -/
inductive OptionArgument
  | never
  | perhaps
  | always
deriving DecidableEq, Repr, Inhabited

/-- An option of a tool; `key` says what it stands for. -/
structure ToolOption where
  key : String
  letter : Option Char := none
  name : Option String := none
  argument : OptionArgument := .never
deriving DecidableEq, Repr, Inhabited

/-- What is wrong with the options of a call. -/
inductive OptionFault
  | unknownLetter (letter : Char)
  | bareLetter (letter : Char)
  | unknownName (text : String)
  | ambiguous (text : String) (names : List String)
  | bareName (name : String)
  | needless (name : String)
deriving DecidableEq, Repr

def OptionFault.wording : OptionFault → List String
  | unknownLetter letter => ["invalid option -- '", String.singleton letter, "'"]
  | bareLetter letter => ["option requires an argument -- '", String.singleton letter, "'"]
  | unknownName text => ["unrecognized option '--", text, "'"]
  | ambiguous text names =>
    ["option '--", text, "' is ambiguous; possibilities:"] ++
      names.map fun name => " '--" ++ name ++ "'"
  | bareName name => ["option '--", name, "' requires an argument"]
  | needless name => ["option '--", name, "' doesn't allow an argument"]

/-- What the arguments of a call say, up to the first fault. -/
structure Given where
  /-- The keys of the options, with their arguments. -/
  options : List (String × Option String) := []
  operands : List String := []
  fault : Option OptionFault := none
deriving Repr, Inhabited

namespace Given

def addOption (key : String) (value : Option String) (given : Given) : Given :=
  { given with options := (key, value) :: given.options }

def addOperand (operand : String) (given : Given) : Given :=
  { given with operands := operand :: given.operands }

def has (given : Given) (key : String) : Bool := given.options.any fun entry => entry.1 == key

/-- The argument of the last option of a key. -/
def value? (given : Given) (key : String) : Option String :=
  ((given.options.reverse.find? fun entry => entry.1 == key).bind Prod.snd)

end Given

/-- How far one argument with options leads. -/
inductive OptionEnd
  | complete
  /-- The next argument belongs to the option of a key. -/
  | awaits (key : String) (fault : OptionFault)
  | broken (fault : OptionFault)

/-- The options of the letters behind a dash. -/
def letterOptions (table : List ToolOption) :
    List Char → List (String × Option String) × OptionEnd
  | [] => ([], .complete)
  | letter :: rest =>
    match table.find? fun option => option.letter == some letter with
    | none => ([], .broken (.unknownLetter letter))
    | some { key, argument := .never, .. } =>
      let (options, last) := letterOptions table rest
      ((key, none) :: options, last)
    | some { key, argument := .perhaps, .. } =>
      ([(key, if rest.isEmpty then none else some (String.ofList rest))], .complete)
    | some { key, argument := .always, .. } =>
      if rest.isEmpty then ([], .awaits key (.bareLetter letter))
      else ([(key, some (String.ofList rest))], .complete)

/-- The option whose name, or a start of it, is meant by a text. -/
def namedOption (table : List ToolOption) (text meant : String) :
    Except OptionFault (String × ToolOption) :=
  let named := table.filterMap fun option => option.name.map (·, option)
  match named.find? fun entry => entry.1 == meant with
  | some entry => .ok entry
  | none =>
    match named.filter fun entry => meant.toList.isPrefixOf entry.1.toList with
    | [] => .error (.unknownName text)
    | first :: others =>
      let differs (entry : String × ToolOption) : Bool :=
        entry.2.key != first.2.key || entry.2.argument != first.2.argument
      if others.any differs then
        .error (.ambiguous text (first.1 :: (others.filter differs).map Prod.fst))
      else .ok first

/-- The option of the text behind two dashes. -/
def nameOption (table : List ToolOption) (text : String) :
    List (String × Option String) × OptionEnd :=
  let meant := text.toList.takeWhile (· != '=')
  let value := (text.toList.drop meant.length).tail?.map String.ofList
  match namedOption table text (String.ofList meant) with
  | .error fault => ([], .broken fault)
  | .ok (name, option) =>
    match option.argument, value with
    | .never, some _ => ([], .broken (.needless name))
    | .always, none => ([], .awaits option.key (.bareName name))
    | _, value => ([(option.key, value)], .complete)

/-- Reads the arguments of a call; `awaited` is an option whose argument is the next one.  Without
`mixed` the first operand ends the options. -/
def Given.ofArguments (table : List ToolOption) (mixed : Bool) :
    (awaited : Option (String × OptionFault)) → List String → Given
  | none, [] => {}
  | some (_, fault), [] => { fault := some fault }
  | some (key, _), value :: rest => (ofArguments table mixed none rest).addOption key (some value)
  | none, argument :: rest =>
    let goOn (read : List (String × Option String) × OptionEnd) : Given :=
      let (options, last) := read
      match last with
      | .broken fault => { options, fault := some fault }
      | .complete =>
        let given := ofArguments table mixed none rest
        { given with options := options ++ given.options }
      | .awaits key fault =>
        let given := ofArguments table mixed (some (key, fault)) rest
        { given with options := options ++ given.options }
    match argument.toList with
    | ['-', '-'] => { operands := rest }
    | '-' :: '-' :: name => goOn (nameOption table (String.ofList name))
    | '-' :: letter :: letters => goOn (letterOptions table (letter :: letters))
    | _ =>
      if mixed then (ofArguments table mixed none rest).addOperand argument
      else { operands := argument :: rest }

/-- What most tools tell of themselves. -/
def commonOptions : List ToolOption :=
  [{ key := "help", name := "help" }, { key := "version", name := "version" }]

/-- Whether options and operands may be mixed in an environment. -/
def mixesOptions (environment : List (String × String)) : Bool :=
  (environment.lookup "POSIXLY_CORRECT").isNone

namespace Tool

/-- Refuses a call with a fault in its options. -/
def checkOptions (given : Given) : Tool Unit := do
  match given.fault with
  | some fault => misused fault.wording
  | none => if given.has "help" || given.has "version" then finish 0

/-- The group of words one of which a text means, also where it is cut short.  Otherwise the tool
ends with a complaint about the option of a name. -/
def wordGroup (option text : String) (groups : List (List String)) : Tool Nat := do
  let shownGroups := groups.map fun group =>
    "\n  - " ++ String.intercalate ", " (group.map quotedText)
  let refuse (what : String) : Tool Nat :=
    misused ([what, " argument ", quotedText text, " for ", quotedText ("--" ++ option),
      "\nValid arguments are:"] ++ shownGroups)
  match groups.findIdx? (·.contains text) with
  | some index => return index
  | none =>
    let fits (group : List String) : Bool :=
      group.any fun word => text.toList.isPrefixOf word.toList
    match (List.range groups.length).filter fun index => (groups[index]?).any fits with
    | [index] => return index
    | [] => refuse "invalid"
    | _ => refuse "ambiguous"

end Tool

end BuildRunner.Shell
