import BuildRunner.Shell.Session

/-!
# Options of the commands of a shell

An option is a letter behind a dash; several may share the dash, and some are followed by a value.
-/

namespace BuildRunner.Shell

namespace Script

/-- Whether a letter is an option among those that are known, and whether it has a value. -/
def knownOption? (c : Char) : List Char → Option Bool
  | [] => none
  | k :: ':' :: rest => if k = c then some true else knownOption? c rest
  | k :: rest => if k = c then some false else knownOption? c rest

/-- Reads the letters behind a dash.  A value is the rest of the argument, or the next one. -/
def readLetters (known : List Char) :
    List Char → List String → Script (List (Char × String) × List String)
  | [], rest => return ([], rest)
  | c :: letters, rest => do
    match knownOption? c known with
    | none => fault ["Illegal option -", String.ofList [c]]
    | some false =>
      let (more, rest) ← readLetters known letters rest
      return ((c, "") :: more, rest)
    | some true =>
      match letters, rest with
      | [], [] => fault ["No arg for -", String.ofList [c], " option"]
      | [], value :: rest => return ([(c, value)], rest)
      | letters, rest => return ([(c, String.ofList letters)], rest)

/-- The options among some arguments, and the arguments behind them. -/
def readOptions (known : String) :
    (fuel : Nat) → List String → Script (List (Char × String) × List String)
  | 0, arguments => return ([], arguments)
  | _, [] => return ([], [])
  | fuel + 1, argument :: rest => do
    match argument.toList with
    | ['-', '-'] => return ([], rest)
    | '-' :: c :: letters =>
      let (found, rest) ← readLetters known.toList (c :: letters) rest
      let (more, rest) ← readOptions known fuel rest
      return (found ++ more, rest)
    | _ => return ([], argument :: rest)

def options (known : String) (arguments : List String) :
    Script (List (Char × String) × List String) :=
  readOptions known (arguments.length + 1) arguments

/-- The arguments behind the mark that ends options, where there are no options. -/
def operands (arguments : List String) : Script (List String) := Prod.snd <$> options "" arguments

end Script

/-- A text between single quotes, and single quotes between double ones. -/
def quotedWord (text : String) : String :=
  let rec go : (fuel : Nat) → List Char → List Char
    | 0, _ => []
    | fuel + 1, s =>
      let plain := s.takeWhile (· != '\'')
      let rest := s.drop plain.length
      let quotes := rest.takeWhile (· == '\'')
      let after := rest.drop quotes.length
      let first := '\'' :: plain ++ ['\'']
      if quotes.isEmpty then first
      else
        let second := '"' :: quotes ++ ['"']
        if after.isEmpty then first ++ second else first ++ second ++ go fuel after
  String.ofList (go (text.length + 1) text.toList)

end BuildRunner.Shell
