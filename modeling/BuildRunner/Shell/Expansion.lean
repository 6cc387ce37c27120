import BuildRunner.Shell.Arithmetic
import BuildRunner.Shell.Fields
import BuildRunner.Shell.Pattern

/-!
# Expansion of words

In a word, parameters are replaced by their values, commands by their outputs, and expressions by
their results.  What comes of that may then be split into fields, and fields that are patterns are
replaced by the names of files.  How commands are run is left open here.
-/

namespace BuildRunner.Shell

/-- What may happen to the parts of a word. -/
structure Usage where
  /-- The word becomes fields. -/
  splits : Bool := false
  /-- The text lies between double quotes. -/
  isQuoted : Bool := false
  /-- Home directories are put in at the start. -/
  tilde : Bool := false
  /-- Home directories are put in behind the first equals sign, and behind colons. -/
  assigns : Bool := false
  /-- The word stands within an expansion, where its text is split as well. -/
  isInner : Bool := false
deriving DecidableEq, Repr, Inhabited

namespace Session

/-- The value of a parameter other than the list of all arguments. -/
def parameter? (s : Session) (name : String) : Option String :=
  match name.toList with
  | ['$'] => some (toString s.number)
  | ['?'] => some (toString s.status)
  | ['#'] => some (toString s.arguments.length)
  | ['!'] => s.lastInBackground.map toString
  | ['-'] => some (String.ofList (s.options.filterMap Setting.letter?))
  | c :: r =>
    if c.isDigit then
      match (String.ofList (c :: r)).toNat? with
      | some 0 => some s.name
      | some (n + 1) => s.arguments[n]?
      | none => none
    else s.value? name
  | [] => none

/-- The character between arguments that are put together, if there is one. -/
def joint? (s : Session) : Option Char :=
  match s.value? "IFS" with
  | none => some ' '
  | some separators => separators.toList.head?

/-- The cells of all arguments. -/
def allArguments (s : Session) (usage : Usage) (apart : Bool) : List Cell :=
  let joint : List Cell :=
    if usage.splits && (apart || !usage.isQuoted) then [.char Cell.argumentEnd false]
    else s.joint?.toList.map (.char · usage.isQuoted)
  List.intercalate joint (s.arguments.map fun a => Cell.ofText a.toList usage.isQuoted)

/-- The cells of the value of a parameter. -/
def cells? (s : Session) (usage : Usage) (name : String) : Option (List Cell) :=
  match name with
  | "@" => some (s.allArguments usage true)
  | "*" => some (s.allArguments usage false)
  | name => (s.parameter? name).map fun value => Cell.ofText value.toList usage.isQuoted

end Session

namespace Script

/-- The home directory of a user; without a name, that of the session. -/
def home? (user : List Char) : Script (Option String) := do
  if user.isEmpty then return (← get).value? "HOME"
  return if user = "root".toList then some "/root" else none

/-- The name of a user at the head of a word, up to a slash or the end; `assigns` also lets a colon
end it. -/
def userName? (assigns : Bool) : Word → Option (List Char)
  | [] => some []
  | .char c false :: rest =>
    if c = '/' || (assigns && c = ':') then some [] else (c :: ·) <$> userName? assigns rest
  | _ => none

/-- The home directory that a word starts with, and how many of its pieces are the name of that. -/
def tilde? (assigns : Bool) : Word → Script (Option (List Cell × Nat))
  | .char '~' false :: rest => do
    match userName? assigns rest with
    | none => return none
    | some user =>
      match ← home? user with
      | none => return none
      | some home => return some (Cell.ofText home.toList true, user.length + 1)
  | _ => return none

/-- A text up to the end of its first argument. -/
def firstArgument (s : List Char) : List Char := s.takeWhile (· != Cell.argumentEnd)

/-- The lengths of the beginnings of a text, in the order in which they are tried.  Those that are
tried from the shortest on end with the first argument. -/
def triedLengths (fromLongest : Bool) (s : List Char) : List Nat :=
  if fromLongest then (List.range (s.length + 1)).reverse
  else List.range ((firstArgument s).length + 1)

/-- The shortest or longest beginning of a text whose first argument a pattern matches, by its
length. -/
def matchedStart (longest : Bool) (pattern s : List Char) : Option Nat :=
  (triedLengths longest s).find? fun n => matchesPattern pattern (firstArgument (s.take n))

/-- The shortest or longest end of a text whose first argument a pattern matches, by what remains
before it. -/
def matchedEnd (longest : Bool) (pattern s : List Char) : Option Nat :=
  (triedLengths (!longest) s).find? fun n => matchesPattern pattern (firstArgument (s.drop n))

/-- Cells without the beginning or the end that a pattern matches. -/
def trimmed (atEnd longest : Bool) (pattern : List Char) (cells : List Cell) : List Cell :=
  let s := Cell.text cells
  if atEnd then (matchedEnd longest pattern s).elim cells cells.take
  else (matchedStart longest pattern s).elim cells cells.drop

/-- The complaint about a parameter without a value. -/
def refuseUnset {α : Type} (name message : String) : Script α := fault [name, ": ", message]

/-- The run of a value that takes the place of a parameter. -/
def valueRun (usage : Usage) (name : String) (cells : List Cell) : Script Run := do
  let keepsArguments := usage.isQuoted && name = "@" && !(← get).arguments.isEmpty
  let splitting : Splitting :=
    if !usage.isQuoted then .atSeparators else if keepsArguments then .atArguments else .never
  return { splitting, cells }

/-- The run of a text that takes the place of a command or an expression. -/
def resultRun (usage : Usage) (s : List Char) : Run :=
  { splitting := if usage.isQuoted then .never else .atSeparators
    cells := Cell.ofText s usage.isQuoted }

/-- How text of the word itself is split. -/
def textSplitting (usage : Usage) (inQuotes isProtected : Bool) : Splitting :=
  if usage.isInner && !usage.isQuoted && !inQuotes && !isProtected then .atSeparators else .never

/-- The characters at the head of a word that are protected, or that are not, and the rest. -/
def spanOf (isProtected : Bool) : Word → List Char × Word
  | .char c p :: rest =>
    if p = isProtected then
      let (s, rest) := spanOf isProtected rest
      (c :: s, rest)
    else ([], .char c p :: rest)
  | rest => ([], rest)

/-- How commands and expressions within words are run. -/
structure Substitution where
  output : Option Command → Script (List Char)

mutual

/-- The runs of a word.  `inQuotes` is set between quotation marks of the word, and `seen` behind an
equals sign. -/
def runsOf (by_ : Substitution) :
    (fuel : Nat) → Usage → (inQuotes seen : Bool) → Word → Script (List Run)
  | 0, _, _, _, _ => return []
  | _, _, _, _, [] => return []
  | fuel + 1, usage, inQuotes, seen, piece :: rest => do
    if usage.tilde then
      match ← tilde? usage.assigns (piece :: rest) with
      | some (cells, length) =>
        let after ← runsOf by_ fuel { usage with tilde := false } inQuotes seen
          (rest.drop (length - 1))
        return { splitting := .never, cells } :: after
      | none => pure ()
    let usage := { usage with tilde := false }
    match piece, rest with
    | .mark, .parameter "@" .value false [] :: .mark :: rest =>
      if !inQuotes then
        let run ← valueRun { usage with isQuoted := true } "@"
          ((← get).allArguments { usage with isQuoted := true } true)
        return run :: (← runsOf by_ fuel usage inQuotes seen rest)
      else
        let rest := .parameter "@" .value false [] :: .mark :: rest
        runsOfRest by_ fuel usage inQuotes seen piece rest
    | piece, rest => runsOfRest by_ fuel usage inQuotes seen piece rest

/-- The runs of a piece, and of what stands behind it. -/
def runsOfRest (by_ : Substitution) :
    (fuel : Nat) → Usage → (inQuotes seen : Bool) → Piece → Word → Script (List Run)
  | 0, _, _, _, _, _ => return []
  | fuel + 1, usage, inQuotes, seen, piece, rest => do
    let inner := { usage with isQuoted := usage.isQuoted || inQuotes }
    match piece with
    | .mark =>
      let after ← runsOf by_ fuel usage (!inQuotes) seen rest
      return { splitting := .never, cells := [.mark] } :: after
    | .char c isProtected =>
      let splitting := textSplitting usage inQuotes isProtected
      if usage.assigns then
        let opens := !isProtected && ((c = '=' && !seen) || c = ':')
        let after ← runsOf by_ fuel { usage with tilde := opens } inQuotes (seen || c = '=') rest
        return { splitting, cells := [.char c isProtected] } :: after
      else
        let (s, rest) := spanOf isProtected rest
        let after ← runsOf by_ fuel usage inQuotes seen rest
        return { splitting, cells := Cell.ofText (c :: s) isProtected } :: after
    | .parameter name operation orEmpty word =>
      let runs ← parameterRuns by_ fuel inner name operation orEmpty word
      return runs ++ (← runsOf by_ fuel usage inQuotes seen rest)
    | .output body =>
      let s ← by_.output body
      return resultRun inner s :: (← runsOf by_ fuel usage inQuotes seen rest)
    | .arithmetic expression =>
      let runs ← runsOf by_ fuel {} false false expression
      let n ← Arithmetic.evaluate (String.ofList (Cell.text (runs.flatMap Run.cells)))
      return resultRun inner (toString n).toList :: (← runsOf by_ fuel usage inQuotes seen rest)

/-- The runs that take the place of a parameter. -/
def parameterRuns (by_ : Substitution) :
    (fuel : Nat) → Usage → String → Operation → (orEmpty : Bool) → Word → Script (List Run)
  | 0, _, _, _, _, _ => return []
  | fuel + 1, usage, name, operation, orEmpty, word => do
    let session ← get
    let value? := session.cells? usage name
    let held := value?.filter fun cells => !(orEmpty && cells.isEmpty)
    let run (cells : List Cell) : Script (List Run) := return [← valueRun usage name cells]
    let strict (value? : Option (List Cell)) : Script (List Cell) := do
      match value? with
      | some cells => return cells
      | none =>
        if ← hasOption .nounset then refuseUnset name "parameter not set"
        return []
    match operation with
    | .malformed => fault ["Bad substitution"]
    | .default =>
      match held with
      | some cells => run cells
      | none => runsOf by_ fuel { usage with tilde := true, isInner := true } false false word
    | .alternate =>
      match held with
      | some _ => runsOf by_ fuel { usage with tilde := true, isInner := true } false false word
      | none => run []
    | .assign =>
      match held with
      | some cells => run cells
      | none =>
        let text ← textOf by_ fuel word
        setVariable name text
        run (((← get).cells? usage name).getD [])
    | .demand =>
      match held with
      | some cells => run cells
      | none =>
        let text ← textOf by_ fuel word
        let usual := if orEmpty then "parameter not set or null" else "parameter not set"
        refuseUnset name (if word.isEmpty then usual else text)
    | .value => run (← strict value?)
    | .length =>
      let cells ← strict (session.cells? { usage with isQuoted := false } name)
      run (Cell.ofText (toString cells.length).toList usage.isQuoted)
    | .trim atEnd longest =>
      let cells ← strict value?
      let runs ← runsOf by_ fuel { tilde := true } false false word
      let pattern := Cell.pattern (runs.flatMap Run.cells)
      run (trimmed atEnd longest pattern cells)

/-- The text that a word within an expansion stands for. -/
def textOf (by_ : Substitution) : (fuel : Nat) → Word → Script String
  | 0, _ => return ""
  | fuel + 1, word => do
    let runs ← runsOf by_ fuel { tilde := true } false false word
    return String.ofList (Cell.text (runs.flatMap Run.cells))

end

/-- A bound for the steps of an expansion. -/
def expansionSteps : Nat := 0x40000000

/-- The runs of a whole word. -/
def runs (by_ : Substitution) (usage : Usage) (word : Word) : Script (List Run) :=
  runsOf by_ expansionSteps usage false false word

/-! ### File names -/

/-- The components of a pattern, between its slashes; a backslash before a slash is left out. -/
def components (pattern : List Char) : List (List Char) :=
  let rec go : List Char → List (List Char)
    | [] => [[]]
    | '\\' :: '/' :: rest => [] :: go rest
    | '/' :: rest => [] :: go rest
    | '\\' :: c :: rest => add ['\\', c] (go rest)
    | c :: rest => add [c] (go rest)
  go pattern
where
  add (s : List Char) : List (List Char) → List (List Char)
    | first :: rest => (s ++ first) :: rest
    | [] => [s]

/-- The names in a directory as patterns may match them. -/
def namesIn (d : Disk) (directory : String) : List String :=
  match d.listNames (widen (if directory.isEmpty then "." else directory)) with
  | .ok names => "." :: ".." :: names.map narrow
  | .error _ => []

/-- The paths behind a directory that the components of a pattern match. -/
def pathsOf (d : Disk) (directory : String) : List (List Char) → List String
  | [] => []
  | component :: rest =>
    if isOpenPattern component then
      let hidden := (withoutEscapes component).head? = some '.'
      let names := (namesIn d directory).filter fun name =>
        (hidden || name.toList.head? != some '.') && matchesPattern component name.toList
      if rest.isEmpty then names.map (directory ++ ·)
      else names.flatMap fun name => pathsOf d (directory ++ name ++ "/") rest
    else
      let path := directory ++ String.ofList (withoutEscapes component)
      if rest.isEmpty then (if d.entryExists (widen path) then [path] else [])
      else pathsOf d (path ++ "/") rest

/-- Puts a text into a list that is in order. -/
def insertInOrder (s : String) : List String → List String
  | [] => [s]
  | other :: rest => if other < s then other :: insertInOrder s rest else s :: other :: rest

/-- The arguments that a field stands for. -/
def fileNames (field : List Cell) : Script (List String) := do
  let literal := String.ofList (Cell.text field)
  if ← hasOption .noglob then return [literal]
  let parts := components (Cell.pattern field)
  if !parts.any isOpenPattern then return [literal]
  let found := pathsOf (← ask .disk) "" parts
  return if found.isEmpty then [literal] else found.foldr insertInOrder []

/-! ### Uses of words -/

/-- The arguments that a word stands for. -/
def expandFields (by_ : Substitution) (word : Word) : Script (List String) := do
  let runs ← runs by_ { splits := true, tilde := true } word
  let fields := splitFields (← get).separators.toList none runs
  return (← fields.mapM fileNames).flatten

/-- The one text that a word stands for. -/
def expandText (by_ : Substitution) (usage : Usage) (word : Word) : Script String := do
  return String.ofList (Cell.text ((← runs by_ usage word).flatMap Run.cells))

/-- The pattern that a word stands for. -/
def expandPattern (by_ : Substitution) (word : Word) : Script (List Char) := do
  return Cell.pattern ((← runs by_ { tilde := true } word).flatMap Run.cells)

end Script

end BuildRunner.Shell
