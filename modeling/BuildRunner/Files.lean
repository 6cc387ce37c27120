import BuildRunner.Match

/-!
# File helpers

Changing directory, copying, moving and removing, for build scripts.  The helpers report a refusal
of the disk instead of failing, so that a script can decide whether it is fatal.  The directory that
was current before the last change is remembered for `cd -`.
-/

namespace BuildRunner

inductive Report
  | success
  | refused (message : String)
deriving DecidableEq, Repr, Inhabited

/-- The name of the directory for scratch files. -/
def scratchName : String := ".buildos"

/-- The directory for temporary files of the system. -/
def systemScratch : String := "/tmp"

/-- The path for programs where the environment has none. -/
def defaultPath : String := "/bin:/usr/bin"

namespace DiskM

/-- The report that a failure of the disk amounts to; other failures go on. -/
def reporting (prefixed : String → DiskM String) (action : DiskM Report) : DiskM Report := do
  try action
  catch failure =>
    match failure.reason? with
    | some reason => pure (.refused (← prefixed reason))
    | none => throw failure

/-- The word for what a path leads to. -/
def kindOf (path : String) : DiskM String := do
  return if (← get).isDirectory path then "directory" else "file"

/-- Where a source lands: under its own name in a destination that is a directory. -/
def landing (source target : String) : DiskM String := do
  let d ← get
  if !d.isDirectory target then return target
  else if d.isFile source then return Path.join target (Path.name source)
  else if d.isDirectory source then return Path.join target (Path.name (Path.normalize source))
  else return target

/-- Copies one file or directory. -/
def copyOne (source target : String) : DiskM Report := do
  let target ← landing source target
  reporting
    (fun reason => do
      return "cannot copy " ++ (← kindOf source) ++ " " ++ source ++ " to " ++ target ++ " " ++
        reason)
    do
      if (← get).isFile source then
        let parent := Path.parent target
        if !parent.isEmpty then makeDirectories true parent
        copyFile (.ofPath source) target
        return .success
      else if (← get).isDirectory source then
        copyTree true source target
        return .success
      else return .refused ("cannot copy file " ++ source ++ ", not found this file")

/-- Copies sources one after the other, up to the first that is refused. -/
def copyAll (target : String) : List String → DiskM Report
  | [] => return .success
  | source :: rest => do
    match ← copyOne source target with
    | .success => copyAll target rest
    | refused => return refused

/-- Moves or renames an entry. -/
def mv (source target : String) : DiskM Report := do
  if (← get).entryExists source then
    reporting
      (fun reason => return "cannot move " ++ source ++ " to " ++ target ++ " " ++ reason)
      do
        move source target
        return .success
  else
    return .refused ("cannot move " ++ source ++ " to " ++ target ++ ", not found this file")

/-- Removes what a path names: a file, a link, or a directory with all that it holds. -/
def removeAny (path : String) : DiskM Unit := do
  let d ← get
  if d.isFile path || d.isLink path then change path fun d => d.unlink path
  else if d.isDirectory path then removeTree path

/-- Removes a directory that is empty. -/
def removeIfEmpty (directory : String) : DiskM Report := do
  let d ← get
  if directory.isEmpty || !d.isDirectory directory then return .success
  let names ← ask directory fun d => d.listNames directory
  if !names.isEmpty then return .success
  reporting
    (fun reason => return "cannot remove directory " ++ directory ++ " " ++ reason)
    do
      change directory fun d => d.removeDirectory directory
      return .success

/-- Removes what a path names, and with `prune` the directory above if that leaves it empty.  A
path that names nothing is no error. -/
def rm (path : String) (prune : Bool) : DiskM Report := do
  let removed ← reporting
    (fun reason => do
      return "cannot remove " ++ (← kindOf path) ++ " " ++ path ++ " " ++ reason)
    do
      removeAny path
      return .success
  match removed with
  | .success =>
    if prune then removeIfEmpty (Path.parent (Path.normalize path)) else return .success
  | refused => return refused

end DiskM

namespace Disk

/-- Whether a path leads to a file that may be executed. -/
def isProgram (d : Disk) (path : String) : Bool := d.isFile path && d.isExecutable path

/-- The first directory of a search path in which a name is executable. -/
def searchProgram (d : Disk) (name : String) : List String → Option String
  | [] => none
  | directory :: rest =>
    let path := Path.join directory name
    if d.isExecutable path && !d.isDirectory path then some path else searchProgram d name rest

/-- The directories of a search path. -/
def searchPath (path : String) : List String := (path.toList.splitOn ':').map String.ofList

/-- Finds a program by its name, in the given directories if there are any and on the search path
of the environment otherwise.  A name with a directory part is only looked at where it stands. -/
def locateProgram (d : Disk) (environment : Environment) (name : String) (paths : List String) :
    Option String :=
  if !(Path.parent name).isEmpty then
    if d.isExecutable name && !d.isDirectory name then some name else none
  else
    let path :=
      if paths.isEmpty then (environment.lookup "PATH").getD defaultPath
      else String.intercalate ":" paths
    if path.isEmpty then none else d.searchProgram name (searchPath path)

end Disk

namespace Act

variable {κ : Type}

/-- Changes to a directory and remembers the one before. -/
def cdTo (target : String) : Act κ Report := do
  if !(← get).disk.isDirectory target then
    return .refused ("cannot change directory " ++ target ++ ", not found this directory")
  let current ← currentPath
  let report ← onDisk <| DiskM.reporting
    (fun reason => return "cannot change directory " ++ target ++ " " ++ reason)
    do
      DiskM.change target fun d => d.changeDirectory target
      return .success
  if report = .success then modify fun m => { m with previous := some current }
  return report

/-- Changes the current directory; `-` stands for the remembered one. -/
def cd (directory : String) : Act κ Report := do
  if directory.isEmpty then
    return .refused "cannot change directory: no directory given"
  let previous := (← get).previous
  if directory = "-" && previous.isNone then
    return .refused "not found the previous directory"
  let target := if directory = "-" then previous.getD directory else directory
  if directory = "-" then modify fun m => { m with previous := none }
  cdTo target

/-- Sets a variable of the environment, or removes it. -/
def setVariable (name : String) (value : Option String) : Act κ Unit :=
  modify fun m => { m with environment := m.environment.update name value }

/-- Returns to a directory without touching the remembered one. -/
def restore (directory : String) : Act κ Unit := do
  if (← currentPath) ≠ directory then
    onDisk (DiskM.change directory fun d => d.changeDirectory directory)

/-- Copies files and directories; the last path is the destination, and the sources may be
patterns. -/
def cp (paths : List String) : Act κ Report := do
  match paths.getLast? with
  | none => return .refused "invalid arguments: "
  | some target =>
    if paths.length < 2 then
      return .refused ("invalid arguments: " ++ String.intercalate " " paths)
    let sources ← expandArguments paths.dropLast
    onDisk (DiskM.copyAll target sources)

def mv (source target : String) : Act κ Report := onDisk (DiskM.mv source target)

def rm (path : String) (prune : Bool) : Act κ Report := onDisk (DiskM.rm path prune)

/-- The directory for scratch files, made if it is missing. -/
def scratchDirectory : Act κ String := do
  let base := (← settings).tmpdir.getD systemScratch
  let path := Path.join base scratchName
  onDisk (DiskM.makeDirectories true path)
  return path

/-- A path in the scratch directory that was not given out before; no file is made. -/
def scratchPath : Act κ String := do
  let directory ← scratchDirectory
  let number := (← get).scratch
  modify fun m => { m with scratch := number + 1 }
  return Path.join directory (String.ofList (Text.hex 32 number))

end Act

end BuildRunner
