import BuildRunner.Shell.Grammar
import BuildRunner.Shell.Session

/-!
# What names of commands stand for

A name may stand for a function, for a command of the shell, or for a program on the search path.
Some commands of the shell are special: they cannot be replaced by functions, and their complaints
end a script.
-/

namespace BuildRunner.Shell

/-- The commands of the shell that are not special. -/
def plainCommands : List String :=
  ["[", "alias", "bg", "cd", "chdir", "command", "echo", "false", "fg", "getopts", "hash", "jobs",
    "kill", "printf", "pwd", "read", "test", "true", "type", "ulimit", "umask", "unalias", "wait"]

/-- The commands of the shell whose arguments may be assignments. -/
def assigningCommands : List String := ["alias", "export", "local", "readonly"]

inductive Meaning
  | ofShell (isSpecial : Bool)
  | function (body : Command)
  /-- The paths of the program, of which the first one that can be run counts. -/
  | program (paths : List String)
  | nothing (code : Errno)
deriving Inhabited

/-- The command of the shell that a name stands for. -/
def shellCommand? (name : String) : Option Meaning :=
  if specialCommands.contains name then some (.ofShell true)
  else if plainCommands.contains name then some (.ofShell false)
  else none

/-- The parts of a search path. -/
def pathParts (path : String) : List String :=
  (path.toList.splitOn ':').map String.ofList

/-- The path of a name in a directory of a search path. -/
def inDirectory (directory name : String) : String :=
  if directory.isEmpty then name else directory ++ "/" ++ name

/-- The paths of a program, from the first file on the search path on. -/
def programPaths (d : Disk) (path name : String) : Except Errno (List String) :=
  let rec go (code : Errno) : List String → Except Errno (List String)
    | [] => .error code
    | candidate :: rest =>
      match d.node? true (widen candidate) with
      | some (.file ..) => .ok (candidate :: rest)
      | some _ => go .accessDenied rest
      | none => go code rest
  go .notFound ((pathParts path).map (inDirectory · name))

/-- The group of a name, of which there are a number. -/
def groupOf (count : Nat) (name : String) : Nat :=
  let numbers := name.toList.map Char.toNat
  (numbers.headD 0 * 16 + numbers.foldl (· + ·) 0) % count

/-- Entries with names in the order in which they are listed, which is that of their groups. -/
def inGroups {α : Type} (count : Nat) (entries : List (String × α)) : List (String × α) :=
  (List.range count).flatMap fun group => entries.filter fun entry => groupOf count entry.1 = group

namespace Script

/-- Notes that a program has been found. -/
def noteFound (name : String) : Script Unit :=
  modify fun s =>
    if s.found.any fun entry => entry.1 == name then
      { s with found := s.found.map fun entry => if entry.1 = name then (name, false) else entry }
    else { s with found := s.found ++ [(name, false)] }

/-- What a name stands for.  With `noFunctions` functions do not count, and with `present` a path
only counts if it leads somewhere. -/
def meaning (noFunctions present : Bool) (path name : String) : Script Meaning := do
  let session ← get
  if name.toList.contains '/' then
    let d ← ask .disk
    if present && !d.pathExists (widen name) then return .nothing .notFound
    return .program [name]
  match if noFunctions then none else session.functions.lookup name with
  | some body => return .function body
  | none =>
    match shellCommand? name with
    | some meaning => return meaning
    | none =>
      match programPaths (← ask .disk) path name with
      | .ok paths =>
        if path = session.path then noteFound name
        return .program paths
      | .error code => return .nothing code

end Script

end BuildRunner.Shell
