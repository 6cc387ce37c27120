import BuildRunner.Shell.Builtin.Options
import BuildRunner.Shell.Search

/-!
# Commands about directories

A shell remembers the path by which it has reached its directory; a directory above is the one that
the path leads to without its last name.
-/

namespace BuildRunner.Shell

namespace Script

/-- A path followed from a directory, where two points take the last name away. -/
def followed (directory path : String) : String :=
  let path := path.toList
  let lead := if path.head? = some '/' then Path.leadingSlashes path else
    Path.leadingSlashes directory.toList
  let lead := if path.head? = some '/' && lead != 2 then 1 else lead
  let start := if path.head? = some '/' then [] else (Path.segments directory.toList)
  let push (kept : List (List Char)) (segment : List Char) : List (List Char) :=
    if segment.isEmpty || segment = ['.'] then kept
    else if segment = ['.', '.'] then kept.drop 1
    else segment :: kept
  let names := (start ++ Path.segments path).foldl push []
  String.ofList (List.replicate lead '/' ++ Path.joinSegments names.reverse)

/-- The path of the current directory as the system knows it; where it has none, that is told. -/
def physicalDirectory : Script String := do
  match (← ask .disk).currentPath with
  | .ok path => return narrow path
  | .error code =>
    complain ["getcwd() failed: ", code.wording]
    return ""

/-- Notes the directory that the shell is in; without a path for it, the system is asked. -/
def noteDirectory (reached : Option String) : Script Unit := do
  let directory ← match reached with
    | some path => pure path
    | none => physicalDirectory
  let physical := if reached.isSome then none else some directory
  modify fun s =>
    { s with directory, physical, found := s.found.map fun entry => (entry.1, true) }
  setVariable "PWD" directory
  exportVariable "PWD"

/-- Enters a directory, unless the system refuses. -/
def enterDirectory (physically : Bool) (path : String) : Script Bool := do
  let session ← get
  let known := path.toList.head? = some '/' || !session.directory.isEmpty
  let reached := if physically || !known then none else some (followed session.directory path)
  match ← ask (.change fun d => d.changeDirectory (widen (reached.getD path))) with
  | .error _ => return false
  | .ok () =>
    setVariable "OLDPWD" session.directory
    exportVariable "OLDPWD"
    noteDirectory reached
    return true

/-- The directories that a relative path may lead to, and whether the one reached is told. -/
def directoryChoices (target : String) : Script (List (String × Bool)) := do
  let first := target.toList.takeWhile (· != '/')
  if first = ['.'] || first = ['.', '.'] || target.toList.head? = some '/' then return []
  let name := if target.isEmpty then "." else target
  let path := ((← get).value? "CDPATH").getD ""
  return (pathParts path).map fun part => (inDirectory part name, !part.isEmpty)

def cdCommand (arguments : List String) : Script Nat := do
  let (letters, rest) ← options "LP" arguments
  let physically := (letters.getLast?.map Prod.fst) = some 'P'
  let session ← get
  let wanted := rest.head?.getD ((session.value? "HOME").getD "")
  let target := if wanted = "-" then (session.value? "OLDPWD").getD "" else wanted
  let choices ← directoryChoices target
  let d ← ask .disk
  let choice := choices.find? fun choice => d.isDirectory (widen choice.1)
  let (path, isTold) := choice.getD (target, false)
  let path := if path.isEmpty then "." else path
  if !(← enterDirectory physically path) then
    fault ["can't cd to ", if target.isEmpty then "." else target]
  if isTold || wanted = "-" then out ((← get).directory ++ "\n")
  return 0

def pwdCommand (arguments : List String) : Script Nat := do
  let (letters, _) ← options "LP" arguments
  if (letters.getLast?.map Prod.fst) = some 'P' then
    match (← get).physical with
    | some path => out (path ++ "\n")
    | none => out ((← physicalDirectory) ++ "\n")
  else out ((← get).directory ++ "\n")
  return 0

/-! ### The mask of permissions -/

/-- The octal digits of a mask. -/
def octalMask (mask : Nat) : String :=
  let digits := Nat.toDigits 8 mask
  String.ofList (List.replicate (4 - digits.length) '0' ++ digits)

/-- The letters of the permissions that a mask leaves. -/
def symbolicMask (mask : Nat) : String :=
  let letters (shift : Nat) : String :=
    let bits := 7 - mask / shift % 8
    String.ofList ((if 4 ≤ bits then ['r'] else []) ++ (if 2 ≤ bits % 4 then ['w'] else []) ++
      (if bits % 2 = 1 then ['x'] else []))
  "u=" ++ letters 64 ++ ",g=" ++ letters 8 ++ ",o=" ++ letters 1

/-- The permissions that letters stand for, for one kind of user. -/
def permissionBits (letters : List Char) : Nat :=
  (if letters.contains 'r' then 4 else 0) + (if letters.contains 'w' then 2 else 0) +
    (if letters.contains 'x' then 1 else 0)

/-- The permissions that are left after one change of them. -/
def changePermissions (operator : Char) (bits allowed : Nat) : Nat :=
  match operator with
  | '+' => allowed ||| bits
  | '-' => allowed &&& (7 ^^^ bits)
  | _ => bits

/-- The permissions after a change such as `u+w`; none where it is malformed. -/
def changedPermissions? (change : List Char) (allowed : Nat) : Option Nat :=
  let who := change.takeWhile "ugoa".toList.contains
  match change.drop who.length with
  | operator :: letters =>
    if !("+-=".toList.contains operator) || !letters.all "rwx".toList.contains then none
    else
      let bits := permissionBits letters
      let new (letter : Char) (shift : Nat) : Nat :=
        let old := allowed / shift % 8
        let isMeant := who.isEmpty || who.contains letter || who.contains 'a'
        (if isMeant then changePermissions operator bits old else old) * shift
      some (new 'u' 64 + new 'g' 8 + new 'o' 1)
  | [] => none

/-- The mask that a text asks for; the refusal is the rest of a complaint. -/
def maskOf (text : String) (mask : Nat) : Except (List String) Nat :=
  let digits := text.toList
  if digits.head?.any Char.isDigit then
    if digits.all fun c => '0' ≤ c && c ≤ '7' then
      let n := (digitsIn 8 0 digits).1
      if n < 512 then .ok n else .error ["Illegal number: ", text]
    else .error ["Illegal number: ", text]
  else
    let changes := digits.splitOn ','
    let after (allowed : Nat) (change : List Char) := changedPermissions? change allowed
    match changes.foldlM after (511 - mask) with
    | some allowed => .ok (511 - allowed)
    | none => .error ["Illegal mode: ", text]

def umaskCommand (arguments : List String) : Script Nat := do
  let (letters, rest) ← options "S" arguments
  let mask := (← get).mask
  match rest with
  | [] => out ((if letters.isEmpty then octalMask mask else symbolicMask mask) ++ "\n")
  | text :: _ =>
    match maskOf text mask with
    | .ok mask => modify fun s => { s with mask }
    | .error parts => fault parts
  return 0

end Script

end BuildRunner.Shell
