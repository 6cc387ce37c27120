import BuildRunner.Disk.Basic
import BuildRunner.Failure

/-!
# Requests that may fail half-way

Copying, moving and removing trees take many requests to the system.  A `DiskM` action runs them on
a disk; when one is refused the action ends with a failure that names the paths of the request, and
what the requests before it have changed stays changed.
-/

namespace BuildRunner

open BuildRunner.Text (Bytes)

abbrev DiskM := ExceptT Failure (StateM Disk)

namespace DiskM

/-- Asks a question about a path. -/
def ask {α : Type} (path : String) (question : Disk → Except Errno α) : DiskM α := do
  if Disk.hasNul path then throw .nullByte
  match question (← get) with
  | .ok a => pure a
  | .error code => throw (.system code (some path) none)

/-- Makes a change that concerns one path. -/
def change (path : String) (request : Disk → Except Errno Disk) : DiskM Unit := do
  set (← ask path request)

/-- Makes a change that concerns two paths. -/
def change₂ (path target : String) (request : Disk → Except Errno Disk) : DiskM Unit := do
  if Disk.hasNul path || Disk.hasNul target then throw .nullByte
  match request (← get) with
  | .ok d => set d
  | .error code => throw (.system code (some path) (some target))

/-- The path of the current directory. -/
def currentPath : DiskM String := do
  match (← get).currentPath with
  | .ok path => pure path
  | .error code => throw (.system code none none)

/-- The path as seen from the root of the disk, in normal form. -/
def absolutePath (path : String) : DiskM String := do
  if Path.isAbsolute path then pure (Path.normalize path)
  else pure (Path.absolute (← currentPath) path)

/-- The directory part and the last segment of a path, slashes at its end left out. -/
def splitLast (path : String) : String × String :=
  if (Path.name path).isEmpty then (Path.parent (Path.parent path), Path.name (Path.parent path))
  else (Path.parent path, Path.name path)

/-- Makes a directory and the missing ones above it.  With `existOk` it may be there already.  The
fuel bounds the number of directories above it. -/
def makeDirectoriesFrom (existOk : Bool) : (fuel : Nat) → (path : String) → DiskM Unit
  | 0, _ => pure ()
  | fuel + 1, path => do
    let (head, tail) := splitLast path
    let missing := !head.isEmpty && !tail.isEmpty && !(← get).pathExists head
    if missing then
      try makeDirectoriesFrom existOk fuel head
      catch
        | .system .fileExists _ _ => pure ()
        | failure => throw failure
    if missing && tail == "." then pure ()
    else
      try change path fun d => d.makeDirectory path
      catch failure =>
        if failure.isSystem && existOk && (← get).isDirectory path then pure ()
        else throw failure

def makeDirectories (existOk : Bool) (path : String) : DiskM Unit :=
  makeDirectoriesFrom existOk (path.length + 1) path

end DiskM

end BuildRunner
