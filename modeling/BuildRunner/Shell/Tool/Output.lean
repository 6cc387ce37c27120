import BuildRunner.Shell.Printf
import BuildRunner.Shell.Tool.Options

/-!
# Writing texts

`echo` writes its arguments with blanks between them, and `printf` writes them as a format says.
-/

namespace BuildRunner.Shell

/-- The letters of an argument of `echo` that is an option. -/
def echoOptions? (argument : String) : Option (List Char) :=
  match argument.toList with
  | '-' :: c :: letters =>
    if (c :: letters).all "neE".toList.contains then some (c :: letters) else none
  | _ => none

/-- The letters of the options of `echo`, and the arguments behind them. -/
def splitEcho : List String → List Char × List String
  | [] => ([], [])
  | argument :: rest =>
    match echoOptions? argument with
    | none => ([], argument :: rest)
    | some letters =>
      let (more, words) := splitEcho rest
      (letters ++ more, words)

/-- A byte of `echo` that is named by its digits in a base; the head of the text is looked at. -/
def echoByte (base count : Nat) (s : List Char) : Option (Char × List Char) :=
  let digits := (s.take count).takeWhile fun c => (digitIn? base c).isSome
  if digits.isEmpty then none
  else some (Char.ofNat ((digitsIn base 0 digits).1 % 256), s.drop digits.length)

/-- The text that `echo` writes for one with escapes, and whether an escape has ended it. -/
def echoEscapes : (fuel : Nat) → List Char → List Char × Bool
  | 0, _ => ([], false)
  | _, [] => ([], false)
  | fuel + 1, '\\' :: rest =>
    let goOn (c : Char) (rest : List Char) : List Char × Bool :=
      let (text, ended) := echoEscapes fuel rest
      (c :: text, ended)
    match rest with
    | 'c' :: _ => ([], true)
    | 'x' :: digits =>
      match echoByte 16 2 digits with
      | some (c, rest) => goOn c rest
      | none => goOn '\\' rest
    | '0' :: digits =>
      let (c, rest) := (echoByte 8 3 digits).getD ('\x00', digits)
      goOn c rest
    | rest =>
      match escapeByte? rest with
      | some (c, rest) => goOn c rest
      | none => goOn '\\' rest
  | fuel + 1, c :: rest =>
    let (text, ended) := echoEscapes fuel rest
    (c :: text, ended)

namespace FormatFault

/-- How a program words a fault. -/
def ofProgram : FormatFault → List String
  | notNumeric argument => [quotedText argument, ": expected a numeric value"]
  | partlyNumeric argument => [quotedText argument, ": value not completely converted"]
  | outOfRange argument => [quotedText argument, ": ", "Numerical result out of range"]
  | behindCharacter rest =>
    ["warning: ", rest, ": character(s) following character constant have been ignored"]
  | badDirective directive => [directive, ": invalid conversion specification"]
  | missingLetter => ["%: invalid conversion specification"]
  | badWidth argument => ["invalid field width: ", quotedText argument]
  | badPrecision argument => ["invalid precision: ", quotedText argument]
  | missingDigits => ["missing hexadecimal number in escape"]
  | badCharacterName name => ["invalid universal character name \\", name]

end FormatFault

namespace Tool

def echo (arguments : List String) : Tool Unit := do
  let (letters, words) := splitEcho arguments
  let text := (String.intercalate " " words).toList
  let escapes := (letters.filter (· != 'n')).getLast? = some 'e'
  let (text, ended) := if escapes then echoEscapes (text.length + 1) text else (text, false)
  out (String.ofList text ++ if letters.contains 'n' || ended then "" else "\n")

def printf (arguments : List String) : Tool Unit := do
  let arguments := if arguments.head? = some "--" then arguments.drop 1 else arguments
  match arguments with
  | [] => misused ["missing operand"]
  | format :: arguments =>
    let (written, unused) := formatted true format arguments
    let rest ← written.faults.foldlM (fun (done, text) (place, fault) => do
      out (String.ofList (text.take (place - done)))
      if fault.isWarning then remark (fault.ofProgram ++ ["\n"]) else complain fault.ofProgram
      return (place, text.drop (place - done))) (0, written.text.toList)
    out (String.ofList rest.2)
    match unused with
    | [] => pure ()
    | argument :: _ =>
      if !written.stopped then
        remark ["warning: ignoring excess arguments, starting with ", quotedText argument, "\n"]

end Tool

end BuildRunner.Shell
