import BuildRunner.Files
import BuildRunner.Shell.Narrow

/-!
# Program images

A program is an executable file: the image of a tool, or a script that names its interpreter in the
first line.  A program named without a slash is searched for on the path of the environment; the
first refusal other than a missing file or directory is the one that is reported.
-/

namespace BuildRunner.Shell

open BuildRunner.Text (Bytes)

/-- The bytes that the image of a tool starts with. -/
def toolMark : Bytes := [0x7f, 0x45, 0x4c, 0x46]

/-- The image of a tool. -/
def toolImage (name : String) : Bytes := toolMark ++ bytesOf name

/-- The number of bytes at the start of a script that are looked at for its interpreter. -/
def headLength : Nat := 256

def isBlankByte (b : UInt8) : Bool := b == 0x20 || b == 0x09

/-- Whether a byte ends the name of an interpreter. -/
def endsInterpreter (b : UInt8) : Bool := isBlankByte b || b == 0

/-- The name of an interpreter and its argument, from what stands behind the mark of a script.  A
NUL ends either of them. -/
def interpreterOf? (line : Bytes) : Option (Bytes × Option Bytes) :=
  match line.dropWhile isBlankByte with
  | [] => none
  | body =>
    let name := body.takeWhile (!endsInterpreter ·)
    match body.drop name.length with
    | [] | 0 :: _ => some (name, none)
    | rest => some (name, some ((rest.dropWhile isBlankByte).takeWhile (· != 0)))

def dropTrailingBlanks (line : Bytes) : Bytes := (line.reverse.dropWhile isBlankByte).reverse

/-- The interpreter that a script names in its first line, and its argument if it has one.  Only the
head of the script counts, and bytes behind its end count as NUL.  Where no line ends there before
the first NUL, the argument is cut off, but a name that is not known to be complete is refused. -/
def interpreter? (data : Bytes) : Option (Bytes × Option Bytes) :=
  match data with
  | 0x23 :: 0x21 :: rest =>
    let head := rest.take (headLength - 2)
    let head := head ++ List.replicate (headLength - 2 - head.length) 0
    let line := head.takeWhile fun b => b != 10 && b != 0
    if head[line.length]? = some 10 then interpreterOf? (dropTrailingBlanks line)
    else if (head.dropWhile isBlankByte).any endsInterpreter then
      interpreterOf? (dropTrailingBlanks head.dropLast)
    else none
  | _ => none

/-- The program in an executable file. -/
inductive Image
  | tool (name : String)
  /-- A script, with its interpreter and the argument of that. -/
  | script (interpreter : String) (argument : Option String)

/-- The bytes of the executable file that a path leads to. -/
def executable (d : Disk) (path : String) : Except Errno Bytes := do
  match ← d.status true (widen path) with
  | (_, .file data true _) => .ok data
  | _ => .error .accessDenied

/-- The program in the bytes of an executable file. -/
def Image.ofBytes (data : Bytes) : Except Errno Image :=
  let text (bytes : Bytes) : String := String.ofList (Shell.ofBytes bytes)
  if toolMark.isPrefixOf data then .ok (.tool (text (data.drop toolMark.length)))
  else
    match interpreter? data with
    | none => .error .execFormat
    | some (name, argument) => .ok (.script (text name) (argument.map text))

/-- A tool, and the arguments that it is called with; the first one names it. -/
structure Call where
  tool : String
  arguments : List String
deriving DecidableEq, Repr, Inhabited

/-- The call that an executable file leads to.  Scripts are passed on to their interpreter; the fuel
bounds how often. -/
def loadImage (d : Disk) : (fuel : Nat) → (data : Bytes) → (path : String) →
    (arguments : List String) → Except Errno Call
  | 0, _, _, _ => .error .linkLoop
  | fuel + 1, data, path, arguments => do
    match ← Image.ofBytes data with
    | .tool tool => .ok { tool, arguments }
    | .script interpreter argument => do
      let next ← executable d interpreter
      loadImage d fuel next interpreter
        (interpreter :: argument.toList ++ path :: arguments.drop 1)

/-- How many scripts and tools the way from a script to its tool may have. -/
def interpreterLimit : Nat := 6

/-- The call that a path leads to. -/
def callOf (d : Disk) (path : String) (arguments : List String) : Except Errno Call := do
  loadImage d interpreterLimit (← executable d path) path arguments

/-- Whether a refusal only says that there is nothing. -/
def isMissing (code : Errno) : Bool := code = .notFound || code = .notDirectory

/-- The first call among some paths.  `refusal` is the first refusal worth reporting, and `last` the
last one. -/
def firstCall (d : Disk) (arguments : List String) (refusal : Option Errno) (last : Errno) :
    List String → Except Errno Call
  | [] => .error (refusal.getD last)
  | path :: rest =>
    match callOf d path arguments with
    | .ok call => .ok call
    | .error code =>
      firstCall d arguments (refusal <|> if isMissing code then none else some code) code rest

/-- The paths where a program may be. -/
def candidates (environment : Environment) (program : String) : List String :=
  if program.toList.contains '/' then [program]
  else
    let path := ((environment.lookup "PATH").map narrow).getD defaultPath
    (Disk.searchPath path).map (Path.join · program)

/-- The call that the name of a program leads to. -/
def findCall (d : Disk) (environment : Environment) (arguments : List String) : Except Errno Call :=
  firstCall d arguments none .notFound (candidates environment (arguments.headD ""))

end BuildRunner.Shell
